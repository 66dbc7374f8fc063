import ThetaDirectory.Discovery.Placement
import ThetaDirectory.Library.Digraph

/-!
# What the loops over the edges do

The guard against cycles decides reachability; a reported edge changes only the
parents of its child; and the edges stay acyclic when nothing the payload reports is
above the site.
-/

namespace ThetaDirectory.Discovery

open Library Catalog Relation

variable {context : Context} {start run : Run} {linking : Linking}

/-! ## The guard -/

theorem childIds_length (edges : List EdgeRow) {key : String} {seen : List String}
    (fresh : key ∉ seen) :
    ((edges.filter fun edge => edge.parentId == key).map (·.childId)).length +
      (edges.filter fun edge => edge.parentId ∉ key :: seen).length ≤
        (edges.filter fun edge => edge.parentId ∉ seen).length := by
  induction edges with
  | nil => simp
  | cons edge edges ih =>
      simp only [List.length_map, List.mem_cons, not_or] at ih ⊢
      by_cases same : edge.parentId = key
      · have notSeen : edge.parentId ∉ seen := same ▸ fresh
        simp [same, fresh]
        simp at ih
        omega
      · by_cases old : edge.parentId ∈ seen
        · simpa [same, old] using ih
        · simp [same, old] at ih ⊢
          omega

/-- The guard finds out whether the candidate is at or below the root. -/
theorem isDescendant_iff {candidateId rootId : String} {edges : List EdgeRow} :
    isDescendant candidateId rootId edges = true ↔
      ReflTransGen (IsChild edges) rootId candidateId := by
  have steps : Reach.Step (fun id =>
      (edges.filter fun edge => edge.parentId == id).map (·.childId)) = IsChild edges := by
    funext parent child
    simp [Reach.Step, IsChild, and_assoc]
  unfold isDescendant
  rw [Reach.search_iff (fun seen => (edges.filter fun edge => edge.parentId ∉ seen).length)
    (fun key seen fresh => childIds_length edges fresh) (by simp [Nat.add_comm]), steps]

/-! ## One edge -/

/-- The edge leads from the parent to the child, and the source wrote it. -/
def IsNew (context : Context) (parentId childId : String) (edge : EdgeRow) : Prop :=
  edge.parentId = parentId ∧ edge.childId = childId ∧ edge.source = some context.sourceName

theorem addEdge_spec (context : Context) (linking : Linking) (parentId childId : String)
    (relation : Option String) :
    (∀ edge ∈ (addEdge context linking parentId childId relation).edges,
      edge ∈ linking.edges ∨ IsNew context parentId childId edge) ∧
    (∀ edge ∈ linking.edges, edge.childId ≠ childId →
      edge ∈ (addEdge context linking parentId childId relation).edges) ∧
    (addEdge context linking parentId childId relation).parentedSlugs = linking.parentedSlugs ∧
    (addEdge context linking parentId childId relation).currentEdgeKeys =
      linking.currentEdgeKeys := by
  unfold addEdge
  split
  · exact ⟨fun edge member => Or.inl member, fun edge member _ => member, rfl, rfl⟩
  · dsimp only
    refine ⟨?_, ?_, rfl, rfl⟩
    · intro edge member
      rcases List.mem_append.mp member with old | new
      · left
        split at old
        · exact List.mem_of_mem_filter old
        · exact old
      · rw [List.mem_singleton.mp new]
        exact Or.inr ⟨rfl, rfl, rfl⟩
    · intro edge member different
      refine List.mem_append_left _ ?_
      split
      · rename_i prior found
        have priorChild := List.find?_some found
        simp only [Bool.and_eq_true, beq_iff_eq] at priorChild
        refine List.mem_filter.mpr ⟨member, ?_⟩
        simp only [decide_eq_true_eq]
        rintro rfl
        exact different priorChild.1.1
      · exact member

/-- After an edge is added it is there, and whatever is new has its relation. -/
theorem addEdge_present (context : Context) (linking : Linking) (parentId childId : String)
    (relation : Option String) :
    (∃ edge ∈ (addEdge context linking parentId childId relation).edges,
      edge.parentId = parentId ∧ edge.childId = childId) ∧
    ∀ edge ∈ (addEdge context linking parentId childId relation).edges,
      edge ∈ linking.edges ∨ edge.relation = relation.getD "hosts" := by
  unfold addEdge
  split
  · rename_i present
    obtain ⟨edge, member, ends⟩ := List.any_eq_true.mp present
    simp only [Bool.and_eq_true, beq_iff_eq] at ends
    exact ⟨⟨edge, member, ends.1⟩, fun edge member => Or.inl member⟩
  · dsimp only
    refine ⟨⟨_, List.mem_append_right _ (List.mem_singleton_self _), rfl, rfl⟩, ?_⟩
    intro edge member
    rcases List.mem_append.mp member with old | new
    · left
      split at old
      · exact List.mem_of_mem_filter old
      · exact old
    · rw [List.mem_singleton.mp new]
      exact Or.inr rfl

/-- A linked edge: its ends are known and apart, and its parent is not below its child.
Only edges into its child go away. -/
structure LinkedEdge (context : Context) (run : Run) (linking : Linking) (edge : ItemEdge)
    (next : Linking) (parentId childId : String) : Prop where
  parent : resolveSlug run edge.parentSlug = some parentId
  child : resolveSlug run edge.childSlug = some childId
  notBelow : ¬ ReflTransGen (IsChild linking.edges) childId parentId
  adds : ∀ row ∈ next.edges, row ∈ linking.edges ∨ IsNew context parentId childId row
  keeps : ∀ row ∈ linking.edges, row.childId ≠ childId → row ∈ next.edges
  present : ∃ row ∈ next.edges, row.parentId = parentId ∧ row.childId = childId
  relation : ∀ row ∈ next.edges, row ∈ linking.edges ∨ row.relation = edge.relation.getD "hosts"
  parentedSlugs : next.parentedSlugs = linking.parentedSlugs ++ [edge.childSlug]
  currentEdgeKeys : next.currentEdgeKeys =
    linking.currentEdgeKeys ++ [edgeKey parentId childId edge.relation]

theorem linkEdge_cases (context : Context) (run : Run) (linking : Linking) (edge : ItemEdge) :
    linkEdge context run linking edge = linking ∨ ∃ parentId childId,
      LinkedEdge context run linking edge (linkEdge context run linking edge) parentId childId := by
  unfold linkEdge
  split
  · rename_i parentId childId parent child
    split
    · exact Or.inl rfl
    · split
      · exact Or.inl rfl
      · rename_i notBelow
        obtain ⟨adds, keeps, parented, keys⟩ :=
          addEdge_spec context linking parentId childId edge.relation
        obtain ⟨⟨there, member, ends⟩, relation⟩ :=
          addEdge_present context linking parentId childId edge.relation
        refine Or.inr ⟨parentId, childId, parent, child, ?_, ?_, ?_, ?_, ?_, ?_, ?_⟩
        · rwa [← isDescendant_iff]
        · intro row member
          dsimp only at member
          split at member
          · exact adds row (List.mem_of_mem_filter member)
          · exact adds row member
        · intro row member different
          have kept := keeps row member different
          dsimp only
          split
          · refine List.mem_filter.mpr ⟨kept, ?_⟩
            simp [different]
          · exact kept
        · refine ⟨there, ?_, ends⟩
          dsimp only
          split
          · refine List.mem_filter.mpr ⟨member, ?_⟩
            simp [ends.1]
          · exact member
        · intro row member
          dsimp only at member
          split at member
          · exact relation row (List.mem_of_mem_filter member)
          · exact relation row member
        · rw [← parented]
        · rw [← keys]
  · exact Or.inl rfl

/-- Filing under the site adds at most the edge from the site. -/
theorem fileUnderSite_cases (context : Context) (siteId : String) (linking : Linking)
    (item : Reported) :
    fileUnderSite context siteId linking item = linking ∧
        (item.actualId = siteId ∨ item.originalSlug ∈ linking.parentedSlugs) ∨
      item.actualId ≠ siteId ∧
      (∀ edge ∈ (fileUnderSite context siteId linking item).edges,
        edge ∈ linking.edges ∨ IsNew context siteId item.actualId edge) ∧
      (∀ edge ∈ linking.edges, edge ∈ (fileUnderSite context siteId linking item).edges) ∧
      (fileUnderSite context siteId linking item).parentedSlugs = linking.parentedSlugs ∧
      (fileUnderSite context siteId linking item).currentEdgeKeys =
        linking.currentEdgeKeys ++ [edgeKey siteId item.actualId (some "hosts")] ∧
      ((∃ edge ∈ linking.edges, edge.childId = item.actualId) ∨
        ∃ edge ∈ (fileUnderSite context siteId linking item).edges,
          IsNew context siteId item.actualId edge ∧ edge.relation = "hosts") := by
  unfold fileUnderSite
  split
  · rename_i skipped
    rw [List.contains_iff_mem] at skipped
    exact Or.inl ⟨rfl, skipped⟩
  · rename_i filed
    simp only [not_or] at filed
    refine Or.inr ⟨filed.1, ?_⟩
    split
    · rename_i parented
      simp only [List.any_eq_true, beq_iff_eq] at parented
      exact ⟨fun edge member => Or.inl member, fun edge member => member, rfl, rfl,
        Or.inl parented⟩
    · dsimp only
      refine ⟨?_, fun edge member => List.mem_append_left _ member, rfl, rfl, Or.inr ?_⟩
      · intro edge member
        rcases List.mem_append.mp member with old | new
        · exact Or.inl old
        · rw [List.mem_singleton.mp new]
          exact Or.inr ⟨rfl, rfl, rfl⟩
      · exact ⟨_, List.mem_append_right _ (List.mem_singleton_self _), ⟨rfl, rfl, rfl⟩, rfl⟩

theorem fileUnderSite_relation (context : Context) (siteId : String) (linking : Linking)
    (item : Reported) : ∀ edge ∈ (fileUnderSite context siteId linking item).edges,
      edge ∈ linking.edges ∨ edge.relation = "hosts" := by
  intro edge member
  unfold fileUnderSite at member
  split at member
  · exact Or.inl member
  · dsimp only at member
    split at member
    · exact Or.inl member
    · rcases List.mem_append.mp member with old | new
      · exact Or.inl old
      · rw [List.mem_singleton.mp new]
        exact Or.inr rfl

/-- A slug stands for a reported resource or for a row with that slug. -/
theorem resolveSlug_cases {slug : Option String} {id : String}
    (resolved : resolveSlug run slug = some id) :
    (∃ item ∈ run.reported, item.originalSlug = slug ∧ item.actualId = id) ∨
      ∃ row ∈ run.store.resources, some row.slug = slug ∧ row.id = id := by
  unfold resolveSlug at resolved
  split at resolved
  · rename_i item found
    have same := List.find?_some found
    exact Or.inl ⟨item, List.mem_of_find?_eq_some found, by simpa using same,
      Option.some.inj resolved⟩
  · obtain ⟨row, found, idEq⟩ := Option.map_eq_some_iff.mp resolved
    have same := List.find?_some found
    exact Or.inr ⟨row, List.mem_of_find?_eq_some found, by simpa using same, idEq⟩

/-! ## The loops -/

/-- An invariant of the edge table that every reported edge and every filing keeps holds
after both loops. -/
theorem linkAll_invariant {Inv : Linking → Prop} {payload : Payload}
    (initial : Inv ⟨run.store.edges, [], [], run.draws⟩)
    (link : ∀ linking, ∀ edge ∈ payload.edges, Inv linking →
      Inv (linkEdge context run linking edge))
    (file : ∀ siteId, context.incomingSiteId = some siteId → ∀ linking, ∀ item ∈ run.reported,
      Inv linking → Inv (fileUnderSite context siteId linking item)) :
    Inv (linkAll context payload run) := by
  have linked : Inv (payload.edges.foldl (linkEdge context run)
      ⟨run.store.edges, [], [], run.draws⟩) :=
    List.foldlRecOn _ _ initial fun linking inv edge member => link linking edge member inv
  unfold linkAll
  split
  · rename_i siteId known
    exact List.foldlRecOn _ _ linked fun linking inv item member =>
      file siteId known linking item member inv
  · exact linked

/-! ## What is left at the end -/

/-- What retiring a row may do: take the source off it, or delete it. -/
theorem retire_cases (sourceName : String) (hasEdges : Bool) (reportedIds : List String)
    (store : Store) (row : Resource) :
    retire sourceName hasEdges reportedIds store row = store ∨
      sourceName ∈ sourcesOf row.metadata ∧ row.id ∉ reportedIds ∧
        (retire sourceName hasEdges reportedIds store row =
            store.update row.id (fun old => { old with
              metadata := withSources row.metadata
                ((sourcesOf row.metadata).filter (· ≠ sourceName)) }) ∨
          (sourcesOf row.metadata).filter (· ≠ sourceName) = [] ∧ isManual row = false ∧
            hasEdges = true ∧
            retire sourceName hasEdges reportedIds store row = store.purge row.id) := by
  unfold retire
  dsimp only
  split
  · exact Or.inl rfl
  · rename_i retired
    simp only [Bool.or_eq_true, Bool.not_eq_true', List.contains_iff_mem, not_or,
      Bool.not_eq_false] at retired
    split
    · exact Or.inr ⟨by simpa using retired.1, retired.2, Or.inl rfl⟩
    · rename_i alone
      simp only [not_or, not_not, Bool.not_eq_true] at alone
      split
      · rename_i edges
        exact Or.inr ⟨by simpa using retired.1, retired.2,
          Or.inr ⟨alone.1, alone.2, edges, rfl⟩⟩
      · exact Or.inl rfl

/-- The edge table before rows are retired. -/
def keptEdges (context : Context) (payload : Payload) (run : Run) : List EdgeRow :=
  if payload.edges.isEmpty then (linkAll context payload run).edges
  else pruneEdges context.sourceName (linkAll context payload run)

/-- An invariant of the catalogue that the retirement of each row keeps holds at the end
of the run. -/
theorem settle_invariant {Inv : Store → Prop} {payload : Payload}
    (initial : Inv { run.store with edges := keptEdges context payload run })
    (step : payload.resources ≠ [] → ∀ store, ∀ row ∈ run.store.resources, Inv store →
      Inv (retire context.sourceName (!payload.edges.isEmpty) (run.reported.map (·.actualId))
        store row)) :
    Inv (settle context payload run) := by
  unfold settle
  dsimp only
  split
  · exact initial
  · rename_i resources
    refine List.foldlRecOn _ _ initial fun store inv row member => step ?_ store row member inv
    simpa using resources

theorem keptEdges_subset {payload : Payload} {edge : EdgeRow}
    (member : edge ∈ keptEdges context payload run) :
    edge ∈ (linkAll context payload run).edges := by
  unfold keptEdges at member
  split at member
  · exact member
  · exact List.mem_of_mem_filter member

/-- The phases after the filing remove edges only. -/
theorem settle_edges_subset {payload : Payload} :
    ∀ edge ∈ (settle context payload run).edges, edge ∈ (linkAll context payload run).edges := by
  refine @settle_invariant context run
    (fun store => ∀ edge ∈ store.edges, edge ∈ (linkAll context payload run).edges) payload
    (fun edge member => keptEdges_subset member) ?_
  intro _ store row _ subset edge member
  rcases retire_cases context.sourceName (!payload.edges.isEmpty) (run.reported.map (·.actualId))
    store row with same | ⟨-, -, updated | ⟨-, -, -, purged⟩⟩
  · exact subset edge (same ▸ member)
  · rw [updated] at member
    exact subset edge member
  · rw [purged] at member
    exact subset edge (List.mem_of_mem_filter member)

end ThetaDirectory.Discovery
