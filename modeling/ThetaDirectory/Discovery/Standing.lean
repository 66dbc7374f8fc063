import ThetaDirectory.Discovery.EdgeOwnership

/-!
# Edges that stand

A run whose edges are all stored leaves the edge table as it is.  Where no two reported
edges compete for a child, what a run writes stays written, so only such a run leaves the
same edges.
-/

namespace ThetaDirectory.Discovery

open Library Catalog

variable {context : Context} {run : Run} {linking : Linking} {payload : Payload}
variable {edge : ItemEdge}

/-- The parent, the child and the relation of an edge. -/
def EdgeRow.triple (row : EdgeRow) : String × String × String :=
  (row.parentId, row.childId, row.relation)

theorem EdgeRow.triple_eq_iff {row : EdgeRow} {parentId childId relation : String} :
    row.triple = (parentId, childId, relation) ↔
      row.parentId = parentId ∧ row.childId = childId ∧ row.relation = relation := by
  simp only [EdgeRow.triple, Prod.mk.injEq]

/-- The key under which a stored edge is looked for among the current ones. -/
def EdgeRow.key (row : EdgeRow) : String := edgeKey row.parentId row.childId (some row.relation)

theorem EdgeRow.key_of_triple {row other : EdgeRow} (same : row.triple = other.triple) :
    row.key = other.key := by
  obtain ⟨parent, child, relation⟩ := triple_eq_iff.mp same
  simp only [EdgeRow.key, parent, child, relation]

/-- The rows a reported edge links: its ends are known and apart, and the parent is not
below the child. -/
def linkedEnds (run : Run) (edges : List EdgeRow) (edge : ItemEdge) : Option (String × String) :=
  match resolveSlug run edge.parentSlug, resolveSlug run edge.childSlug with
  | some parentId, some childId =>
      if parentId = childId ∨ isDescendant parentId childId edges = true then none
      else some (parentId, childId)
  | _, _ => none

/-- The slugs that get a parent from edges of the catalogue. -/
def linkedSlugs (run : Run) (reported : List ItemEdge) : List (Option String) :=
  reported.filterMap fun edge =>
    (linkedEnds run run.store.edges edge).map fun _ => edge.childSlug

def linkedKeys (run : Run) (reported : List ItemEdge) : List String :=
  reported.filterMap fun edge => (linkedEnds run run.store.edges edge).map fun ends =>
    edgeKey ends.1 ends.2 edge.relation

/-- The resource is one that is filed under the site. -/
def IsFiled (siteId : String) (parentedSlugs : List (Option String)) (item : Reported) : Prop :=
  ¬ (item.actualId = siteId ∨ parentedSlugs.contains item.originalSlug = true)

instance (siteId : String) (parentedSlugs : List (Option String)) :
    DecidablePred (IsFiled siteId parentedSlugs) := fun _ => inferInstanceAs (Decidable (¬ _))

def filedKeys (siteId : String) (parentedSlugs : List (Option String)) (items : List Reported) :
    List String :=
  (items.filter fun item => IsFiled siteId parentedSlugs item).map fun item =>
    edgeKey siteId item.actualId (some "hosts")

/-- The keys of the edges that are current. -/
def currentKeys (context : Context) (payload : Payload) (run : Run) : List String :=
  linkedKeys run payload.edges ++
    match context.incomingSiteId with
    | some siteId => filedKeys siteId (linkedSlugs run payload.edges) run.reported
    | none => []

/-- The reported edge between the two rows is stored, with its relation; and where it
hosts the child, no site hosts it besides. -/
structure Stands (run : Run) (edge : ItemEdge) (parentId childId : String) : Prop where
  stored : ∃ row ∈ run.store.edges, row.parentId = parentId ∧ row.childId = childId ∧
    some row.relation = edge.relation
  nearest : edge.relation = some "hosts" → ∀ row ∈ run.store.edges, row.childId = childId →
    row.relation = "hosts" → row.parentId ≠ parentId →
      isSite run.store.resources row.parentId = false

/-- Every edge the run reports between two rows is stored; every resource it files has a
parent; and where it prunes, every edge of its source is current or another source has the
same. -/
structure LinksStand (context : Context) (payload : Payload) (run : Run) : Prop where
  linked : ∀ edge ∈ payload.edges, ∀ parentId childId,
    linkedEnds run run.store.edges edge = some (parentId, childId) →
      Stands run edge parentId childId
  filed : ∀ siteId, context.incomingSiteId = some siteId → ∀ item ∈ run.reported,
    IsFiled siteId (linkedSlugs run payload.edges) item →
      ∃ row ∈ run.store.edges, row.childId = item.actualId
  current : payload.edges ≠ [] → ∀ row ∈ run.store.edges,
    row.source = some context.sourceName → row.key ∈ currentKeys context payload run ∨
      ∃ twin ∈ run.store.edges, twin.triple = row.triple ∧ IsForeign context.sourceName twin

/-- Every reported edge has a relation, and no two give a relation to one child. -/
structure Uncontested (run : Run) (reported : List ItemEdge) : Prop where
  related : ∀ edge ∈ reported, edge.relation ≠ none
  single : reported.Pairwise fun edge later => ∀ childId,
    resolveSlug run edge.childSlug = some childId →
      resolveSlug run later.childSlug = some childId → edge.relation ≠ later.relation

/-! ## Linking -/

theorem linkedBefore_append (context : Context) (run : Run) (before : List ItemEdge)
    (edge : ItemEdge) : linkedBefore context run (before ++ [edge]) =
      linkEdge context run (linkedBefore context run before) edge := by
  simp only [linkedBefore, List.foldl_append, List.foldl_cons, List.foldl_nil]

theorem linkedEnds_eq_some {edges : List EdgeRow} {parentId childId : String} :
    linkedEnds run edges edge = some (parentId, childId) ↔
      resolveSlug run edge.parentSlug = some parentId ∧
        resolveSlug run edge.childSlug = some childId ∧ parentId ≠ childId ∧
          isDescendant parentId childId edges = false := by
  unfold linkedEnds
  split
  · rename_i parent child resolvedParent resolvedChild
    rw [resolvedParent, resolvedChild]
    split
    · rename_i dropped
      constructor
      · intro none
        cases none
      · rintro ⟨sameParent, sameChild, different, notBelow⟩
        cases sameParent
        cases sameChild
        rcases dropped with same | below
        · exact absurd same different
        · exact absurd (notBelow.symm.trans below) Bool.false_ne_true
    · rename_i linked
      rw [not_or, Bool.not_eq_true] at linked
      constructor
      · intro same
        cases same
        exact ⟨rfl, rfl, linked⟩
      · rintro ⟨sameParent, sameChild, -⟩
        cases sameParent
        cases sameChild
        rfl
  · rename_i unresolved
    constructor
    · intro none
      cases none
    · exact fun ends => absurd ends.2.1 (unresolved parentId childId ends.1)

theorem linkEdge_of_none (dropped : linkedEnds run linking.edges edge = none) :
    linkEdge context run linking edge = linking := by
  unfold linkEdge
  cases parent : resolveSlug run edge.parentSlug with
  | none => rfl
  | some parentId =>
      cases child : resolveSlug run edge.childSlug with
      | none => rfl
      | some childId =>
          dsimp only
          split
          · rfl
          · rename_i different
            split
            · rfl
            · rename_i notBelow
              rw [Bool.not_eq_true] at notBelow
              have linked := linkedEnds_eq_some.mpr ⟨parent, child, different, notBelow⟩
              rw [dropped] at linked
              cases linked

/-- The state after an edge with such ends is linked. -/
theorem linkEdge_of_some {parentId childId : String}
    (ends : linkedEnds run linking.edges edge = some (parentId, childId)) :
    linkEdge context run linking edge =
      { addEdge context linking parentId childId edge.relation with
        edges :=
          if edge.relation = some "hosts" then
            dropSiteEdges run.store.resources parentId childId
              (addEdge context linking parentId childId edge.relation).edges
          else (addEdge context linking parentId childId edge.relation).edges
        parentedSlugs := linking.parentedSlugs ++ [edge.childSlug]
        currentEdgeKeys := linking.currentEdgeKeys ++
          [edgeKey parentId childId edge.relation] } := by
  obtain ⟨parent, child, different, notBelow⟩ := linkedEnds_eq_some.mp ends
  obtain ⟨-, -, parented, keys⟩ := addEdge_spec context linking parentId childId edge.relation
  unfold linkEdge
  simp only [parent, child]
  rw [if_neg different, notBelow, if_neg Bool.false_ne_true, parented, keys]

theorem mem_dropSiteEdges {resources : List Resource} {parentId childId : String}
    {edges : List EdgeRow} {row : EdgeRow} :
    row ∈ dropSiteEdges resources parentId childId edges ↔ row ∈ edges ∧
      (row.childId = childId → row.relation = "hosts" → row.parentId ≠ parentId →
        isSite resources row.parentId = false) := by
  unfold dropSiteEdges
  rw [List.mem_filter]
  refine and_congr_right fun _ => ?_
  simp only [Bool.not_eq_true', Bool.and_eq_false_imp, Bool.and_eq_true, beq_iff_eq, bne_iff_ne,
    and_imp]

/-! ## Nothing to write -/

/-- A stored edge is linked without a write. -/
theorem linkEdge_stands (same : linking.edges = run.store.edges)
    (stands : ∀ parentId childId, linkedEnds run run.store.edges edge = some (parentId, childId) →
      Stands run edge parentId childId) :
    linkEdge context run linking edge = { linking with
      parentedSlugs := linking.parentedSlugs ++ linkedSlugs run [edge]
      currentEdgeKeys := linking.currentEdgeKeys ++ linkedKeys run [edge] } := by
  cases ends : linkedEnds run run.store.edges edge with
  | none =>
      rw [linkEdge_of_none (same.symm ▸ ends)]
      simp [linkedSlugs, linkedKeys, ends]
  | some both =>
      obtain ⟨parentId, childId⟩ := both
      obtain ⟨⟨row, member, parentEq, childEq, relationEq⟩, nearest⟩ := stands parentId childId ends
      have present : addEdge context linking parentId childId edge.relation = linking := by
        unfold addEdge
        apply if_pos
        refine List.any_eq_true.mpr ⟨row, same.symm ▸ member, ?_⟩
        simp [parentEq, childEq, relationEq]
      have none : edge.relation = some "hosts" → dropSiteEdges run.store.resources parentId childId
          linking.edges = linking.edges := by
        intro hosts
        refine List.filter_eq_self.mpr fun other otherMember => ?_
        have kept := (@mem_dropSiteEdges run.store.resources parentId childId linking.edges
          other).mpr ⟨otherMember, nearest hosts other (same ▸ otherMember)⟩
        exact (List.mem_filter.mp kept).2
      rw [linkEdge_of_some (same.symm ▸ ends), present]
      simp only [linkedSlugs, linkedKeys, ends, List.filterMap_cons, Option.map_some,
        List.filterMap_nil, Linking.mk.injEq, and_self, and_true]
      exact ite_eq_right_iff.mpr none

theorem linkedBefore_stands {reported : List ItemEdge}
    (stands : ∀ edge ∈ reported, ∀ parentId childId,
      linkedEnds run run.store.edges edge = some (parentId, childId) →
        Stands run edge parentId childId) :
    linkedBefore context run reported =
      ⟨run.store.edges, linkedSlugs run reported, linkedKeys run reported, run.draws⟩ := by
  induction reported using List.reverseRecOn with
  | nil => rfl
  | append_singleton reported last ih =>
      rw [linkedBefore_append, ih fun edge member => stands edge (List.mem_append_left _ member),
        linkEdge_stands rfl (stands last (List.mem_append_right _ (List.mem_singleton_self _)))]
      simp [linkedSlugs, linkedKeys]

/-- A resource with a parent is filed without a write. -/
theorem fileUnderSite_stands {siteId : String} {item : Reported}
    (parented : IsFiled siteId linking.parentedSlugs item →
      ∃ row ∈ linking.edges, row.childId = item.actualId) :
    fileUnderSite context siteId linking item = { linking with
      currentEdgeKeys := linking.currentEdgeKeys ++
        filedKeys siteId linking.parentedSlugs [item] } := by
  unfold fileUnderSite
  split
  · rename_i skipped
    have notFiled : ¬ IsFiled siteId linking.parentedSlugs item := not_not.mpr skipped
    simp [filedKeys, notFiled]
  · rename_i filed
    have isFiled : IsFiled siteId linking.parentedSlugs item := filed
    obtain ⟨row, member, child⟩ := parented isFiled
    have present : (linking.edges.any fun edge => edge.childId == item.actualId) = true :=
      List.any_eq_true.mpr ⟨row, member, beq_iff_eq.mpr child⟩
    simp only [present, if_true]
    simp [filedKeys, isFiled]

theorem foldl_fileUnderSite_stands {siteId : String} {items : List Reported}
    (parented : ∀ item ∈ items, IsFiled siteId linking.parentedSlugs item →
      ∃ row ∈ linking.edges, row.childId = item.actualId) :
    items.foldl (fileUnderSite context siteId) linking = { linking with
      currentEdgeKeys := linking.currentEdgeKeys ++
        filedKeys siteId linking.parentedSlugs items } := by
  induction items generalizing linking with
  | nil => simp [filedKeys]
  | cons item items ih =>
      have joined : filedKeys siteId linking.parentedSlugs (item :: items) =
          filedKeys siteId linking.parentedSlugs [item] ++
            filedKeys siteId linking.parentedSlugs items := by
        rw [filedKeys, ← List.singleton_append, List.filter_append, List.map_append]
        rfl
      rw [List.foldl_cons, fileUnderSite_stands (parented item List.mem_cons_self), joined,
        ← List.append_assoc]
      exact ih fun other member => parented other (List.mem_cons_of_mem _ member)

/-- When all that is linked and filed stands, the loops write nothing. -/
theorem linkAll_stands
    (linked : ∀ edge ∈ payload.edges, ∀ parentId childId,
      linkedEnds run run.store.edges edge = some (parentId, childId) →
        Stands run edge parentId childId)
    (filed : ∀ siteId, context.incomingSiteId = some siteId → ∀ item ∈ run.reported,
      IsFiled siteId (linkedSlugs run payload.edges) item →
        ∃ row ∈ run.store.edges, row.childId = item.actualId) :
    (linkAll context payload run).edges = run.store.edges ∧
      (linkAll context payload run).currentEdgeKeys = currentKeys context payload run := by
  have link := @linkedBefore_stands context run payload.edges linked
  unfold linkedBefore at link
  unfold linkAll currentKeys
  rw [link]
  cases known : context.incomingSiteId with
  | some siteId =>
      dsimp only
      rw [foldl_fileUnderSite_stands (filed siteId known)]
      exact ⟨rfl, rfl⟩
  | none => exact ⟨rfl, (List.append_nil _).symm⟩

/-- The two lists have the same elements. -/
def SameElements {α : Type} (xs ys : List α) : Prop := xs ⊆ ys ∧ ys ⊆ xs

instance {α : Type} [DecidableEq α] (xs ys : List α) : Decidable (SameElements xs ys) :=
  inferInstanceAs (Decidable (_ ∧ _))

/-- An edge of the tables at the end of the loops stays unless it is pruned. -/
theorem mem_keptEdges_iff {row : EdgeRow} : row ∈ keptEdges context payload run ↔
    row ∈ (linkAll context payload run).edges ∧ (payload.edges ≠ [] →
      row.source = some context.sourceName →
        row.key ∈ (linkAll context payload run).currentEdgeKeys) := by
  unfold keptEdges
  split
  · rename_i empty
    rw [List.isEmpty_iff] at empty
    simp [empty]
  · rename_i edges
    rw [List.isEmpty_iff] at edges
    unfold pruneEdges
    rw [List.mem_filter]
    refine and_congr_right fun _ => ?_
    simp [edges, EdgeRow.key, imp_iff_not_or]

/-- Where the links of a run stand, the same edges are left. -/
theorem LinksStand.sameElements (stand : LinksStand context payload run) :
    SameElements ((keptEdges context payload run).map EdgeRow.triple)
      (run.store.edges.map EdgeRow.triple) := by
  obtain ⟨edges, keys⟩ := linkAll_stands stand.linked stand.filed
  constructor
  · intro triple member
    obtain ⟨row, kept, rfl⟩ := List.mem_map.mp member
    exact List.mem_map_of_mem (edges ▸ (mem_keptEdges_iff.mp kept).1)
  · intro triple member
    obtain ⟨row, stored, rfl⟩ := List.mem_map.mp member
    by_cases current : payload.edges ≠ [] → row.source = some context.sourceName →
        row.key ∈ currentKeys context payload run
    · refine List.mem_map_of_mem (mem_keptEdges_iff.mpr ⟨edges.symm ▸ stored, ?_⟩)
      rwa [keys]
    · simp only [Classical.not_imp] at current
      obtain ⟨some, own, stale⟩ := current
      obtain ⟨twin, twinStored, same, foreign⟩ :=
        (stand.current some row stored own).resolve_left stale
      refine List.mem_map.mpr ⟨twin, mem_keptEdges_iff.mpr ⟨edges.symm ▸ twinStored, ?_⟩, same⟩
      exact fun _ ownTwin => absurd ownTwin foreign

/-! ## What is written stays -/

/-- The reported edge gives the child the relation of the row. -/
def Touches (run : Run) (edge : ItemEdge) (row : EdgeRow) : Prop :=
  resolveSlug run edge.childSlug = some row.childId ∧ edge.relation = some row.relation

theorem mem_addEdge_of_apart {parentId childId relation : String} {row : EdgeRow}
    (apart : ¬ (row.childId = childId ∧ row.relation = relation)) :
    row ∈ (addEdge context linking parentId childId (some relation)).edges ↔
      row ∈ linking.edges := by
  unfold addEdge
  split
  · exact Iff.rfl
  · dsimp only
    rw [List.mem_append, List.mem_singleton, Option.getD_some]
    have notNew : ∀ id source, row ≠ ⟨id, parentId, childId, relation, source⟩ := by
      rintro id source rfl
      exact apart ⟨rfl, rfl⟩
    rw [or_iff_left (notNew _ _)]
    split
    · rename_i prior found
      have taken := List.find?_some found
      simp only [Bool.and_eq_true, beq_iff_eq, Option.some.injEq] at taken
      rw [List.mem_filter, decide_eq_true_eq]
      refine and_iff_left ?_
      rintro rfl
      exact apart taken.1
    · exact Iff.rfl

/-- A reported edge with a relation leaves the rows it does not touch. -/
theorem mem_linkEdge_of_apart {row : EdgeRow} (related : edge.relation ≠ none)
    (apart : ¬ Touches run edge row) :
    row ∈ (linkEdge context run linking edge).edges ↔ row ∈ linking.edges := by
  obtain ⟨relation, relationEq⟩ := Option.ne_none_iff_exists'.mp related
  cases ends : linkedEnds run linking.edges edge with
  | none => rw [linkEdge_of_none ends]
  | some both =>
      obtain ⟨parentId, childId⟩ := both
      have child := (linkedEnds_eq_some.mp ends).2.1
      have apart : ¬ (row.childId = childId ∧ row.relation = relation) := by
        rintro ⟨rfl, rfl⟩
        exact apart ⟨child, relationEq⟩
      rw [linkEdge_of_some ends, relationEq]
      dsimp only
      split
      · rename_i hosts
        obtain rfl := Option.some.inj hosts
        rw [mem_dropSiteEdges, mem_addEdge_of_apart apart]
        exact and_iff_left fun sameChild isHosts => absurd ⟨sameChild, isHosts⟩ apart
      · exact mem_addEdge_of_apart apart

/-- What the loop makes of the rows an edge touches is left alone by the edges after it,
where none competes with it. -/
theorem mem_linkedBefore_of_touches {before after : List ItemEdge} {row : EdgeRow}
    (uncontested : Uncontested run (edge :: after)) (touches : Touches run edge row) :
    row ∈ (linkedBefore context run (before ++ edge :: after)).edges ↔
      row ∈ (linkedBefore context run (before ++ [edge])).edges := by
  induction after using List.reverseRecOn with
  | nil => exact Iff.rfl
  | append_singleton after last ih =>
      have fewer : Uncontested run (edge :: after) := by
        constructor
        · intro other member
          exact uncontested.related other
            (List.mem_cons.mpr ((List.mem_cons.mp member).imp_right (List.mem_append_left _)))
        · exact uncontested.single.sublist (by simp)
      have isLast : last ∈ after ++ [last] := List.mem_append_right _ (List.mem_singleton_self _)
      have apart : ¬ Touches run last row := by
        rintro ⟨child, relation⟩
        refine (List.pairwise_cons.mp uncontested.single).1 last isLast row.childId touches.1
          child ?_
        rw [touches.2, relation]
      rw [← List.cons_append, ← List.append_assoc, linkedBefore_append, ← ih fewer]
      exact mem_linkEdge_of_apart
        (uncontested.related last (List.mem_cons_of_mem _ isLast)) apart

/-- What a linked edge leaves: a row with its ends and relation, its key among the current
ones, and where it hosts the child, no other edge from a site. -/
theorem linkEdge_present {parentId childId relation : String}
    (ends : linkedEnds run linking.edges edge = some (parentId, childId))
    (relationEq : edge.relation = some relation) :
    (∃ row ∈ (linkEdge context run linking edge).edges,
      row.triple = (parentId, childId, relation)) ∧
    edgeKey parentId childId (some relation) ∈
      (linkEdge context run linking edge).currentEdgeKeys ∧
    (relation = "hosts" → ∀ row ∈ (linkEdge context run linking edge).edges,
      row.childId = childId → row.relation = "hosts" → row.parentId ≠ parentId →
        isSite run.store.resources row.parentId = false) := by
  have added : ∃ row ∈ (addEdge context linking parentId childId (some relation)).edges,
      row.triple = (parentId, childId, relation) := by
    unfold addEdge
    split
    · rename_i present
      obtain ⟨row, member, same⟩ := List.any_eq_true.mp present
      simp only [Bool.and_eq_true, beq_iff_eq, Option.some.injEq] at same
      refine ⟨row, member, ?_⟩
      rw [EdgeRow.triple, same.1.1, same.1.2, same.2]
    · exact ⟨_, List.mem_append_right _ (List.mem_singleton_self _), rfl⟩
  rw [linkEdge_of_some ends, relationEq]
  refine ⟨?_, List.mem_append_right _ (List.mem_singleton_self _), ?_⟩
  · obtain ⟨row, member, same⟩ := added
    refine ⟨row, ?_, same⟩
    dsimp only
    split
    · refine mem_dropSiteEdges.mpr ⟨member, fun _ _ different => absurd ?_ different⟩
      exact congrArg Prod.fst same
    · exact member
  · rintro rfl row member
    dsimp only at member
    rw [if_pos rfl] at member
    exact (mem_dropSiteEdges.mp member).2

/-- Filing leaves the rows of a child alone that has a parent. -/
theorem mem_foldl_fileUnderSite {siteId : String} {items : List Reported} {row : EdgeRow}
    (parented : ∃ other ∈ linking.edges, other.childId = row.childId) :
    row ∈ (items.foldl (fileUnderSite context siteId) linking).edges ↔ row ∈ linking.edges := by
  induction items generalizing linking with
  | nil => exact Iff.rfl
  | cons item items ih =>
      rw [List.foldl_cons]
      by_cases same : row.childId = item.actualId
      · rw [fileUnderSite_stands fun _ => same ▸ parented]
        exact ih parented
      · rcases fileUnderSite_cases context siteId linking item with
          ⟨skipped, -⟩ | ⟨-, adds, keeps, -⟩
        · rw [skipped]
          exact ih parented
        · obtain ⟨other, member, child⟩ := parented
          rw [ih ⟨other, keeps other member, child⟩]
          exact ⟨fun member => (adds row member).resolve_right fun new => same new.2.1, keeps row⟩

/-- What filing does: rows only come, from the site; each filed resource gets its key and
has a parent. -/
theorem foldl_fileUnderSite_spec (context : Context) (siteId : String) (linking : Linking)
    (items : List Reported) :
    (∀ key ∈ linking.currentEdgeKeys,
      key ∈ (items.foldl (fileUnderSite context siteId) linking).currentEdgeKeys) ∧
    (∀ row ∈ (items.foldl (fileUnderSite context siteId) linking).edges,
      row ∈ linking.edges ∨ row.parentId = siteId ∧ row.relation = "hosts") ∧
    (∀ row ∈ linking.edges, row ∈ (items.foldl (fileUnderSite context siteId) linking).edges) ∧
    ∀ item ∈ items, IsFiled siteId linking.parentedSlugs item →
      edgeKey siteId item.actualId (some "hosts") ∈
          (items.foldl (fileUnderSite context siteId) linking).currentEdgeKeys ∧
        ∃ row ∈ (items.foldl (fileUnderSite context siteId) linking).edges,
          row.childId = item.actualId := by
  induction items generalizing linking with
  | nil => exact ⟨fun _ member => member, fun _ member => Or.inl member, fun _ member => member,
      fun _ member => absurd member List.not_mem_nil⟩
  | cons item items ih =>
      obtain ⟨keys, origin, keeps, filed⟩ := ih (fileUnderSite context siteId linking item)
      rw [List.foldl_cons]
      have hosts := fileUnderSite_relation context siteId linking item
      rcases fileUnderSite_cases context siteId linking item with
        ⟨same, skipped⟩ | ⟨different, adds, stays, slugs, newKey, reached⟩
      · rw [same] at keys origin keeps filed ⊢
        refine ⟨keys, origin, keeps, fun other member isFiled => ?_⟩
        rcases List.mem_cons.mp member with rfl | later
        · rw [← List.contains_iff_mem] at skipped
          exact absurd skipped isFiled
        · exact filed other later isFiled
      · rw [slugs] at filed
        rw [newKey] at keys
        refine ⟨fun key member => keys key (List.mem_append_left _ member), fun row member => ?_,
          fun row member => keeps row (stays row member), fun other member isFiled => ?_⟩
        · rcases origin row member with before | new
          · rcases hosts row before with old | isHosts
            · exact Or.inl old
            · exact (adds row before).imp_right fun new => ⟨new.1, isHosts⟩
          · exact Or.inr new
        · rcases List.mem_cons.mp member with rfl | later
          · refine ⟨keys _ (List.mem_append_right _ (List.mem_singleton_self _)), ?_⟩
            rcases reached with ⟨row, old, child⟩ | ⟨row, new, isNew, -⟩
            · exact ⟨row, keeps row (stays row old), child⟩
            · exact ⟨row, keeps row new, isNew.2.1⟩
          · exact filed other later isFiled

/-- The loop over the edges only adds keys. -/
theorem mem_linkedBefore_keys (before after : List ItemEdge) {key : String}
    (member : key ∈ (linkedBefore context run before).currentEdgeKeys) :
    key ∈ (linkedBefore context run (before ++ after)).currentEdgeKeys := by
  induction after using List.reverseRecOn with
  | nil => rwa [List.append_nil]
  | append_singleton after last ih =>
      rw [← List.append_assoc, linkedBefore_append]
      rcases linkEdge_cases context run (linkedBefore context run (before ++ after)) last with
        same | ⟨parentId, childId, linked⟩
      · rwa [same]
      · rw [linked.currentEdgeKeys]
        exact List.mem_append_left _ ih

theorem linkAll_of_site {siteId : String} (known : context.incomingSiteId = some siteId) :
    linkAll context payload run = run.reported.foldl (fileUnderSite context siteId)
      (linkedBefore context run payload.edges) := by
  simp only [linkAll, known, linkedBefore]

theorem linkAll_of_none (unknown : context.incomingSiteId = none) :
    linkAll context payload run = linkedBefore context run payload.edges := by
  simp only [linkAll, unknown, linkedBefore]

theorem mem_linkAll_of_parented {row : EdgeRow}
    (parented : ∃ other ∈ (linkedBefore context run payload.edges).edges,
      other.childId = row.childId) :
    row ∈ (linkAll context payload run).edges ↔
      row ∈ (linkedBefore context run payload.edges).edges := by
  cases known : context.incomingSiteId with
  | some siteId =>
      rw [linkAll_of_site known]
      exact mem_foldl_fileUnderSite parented
  | none => rw [linkAll_of_none known]

theorem mem_linkAll_keys {key : String}
    (member : key ∈ (linkedBefore context run payload.edges).currentEdgeKeys) :
    key ∈ (linkAll context payload run).currentEdgeKeys := by
  cases known : context.incomingSiteId with
  | some siteId =>
      rw [linkAll_of_site known]
      exact (foldl_fileUnderSite_spec context siteId _ run.reported).1 key member
  | none => rwa [linkAll_of_none known]

theorem Uncontested.of_append {before after : List ItemEdge}
    (uncontested : Uncontested run (before ++ after)) : Uncontested run after where
  related := fun other later => uncontested.related other (List.mem_append_right _ later)
  single := (List.pairwise_append.mp uncontested.single).2.1

/-- Where the loop has written nothing before a reported edge and no edge after it competes
with it, the edge stands if the same edges are left. -/
theorem stands_of_sameElements {before after : List ItemEdge} {parentId childId : String}
    (split : payload.edges = before ++ edge :: after)
    (uncontested : Uncontested run (edge :: after))
    (unwritten : (linkedBefore context run before).edges = run.store.edges)
    (same : SameElements ((keptEdges context payload run).map EdgeRow.triple)
      (run.store.edges.map EdgeRow.triple))
    (ends : linkedEnds run run.store.edges edge = some (parentId, childId)) :
    Stands run edge parentId childId := by
  obtain ⟨relation, relationEq⟩ :=
    Option.ne_none_iff_exists'.mp (uncontested.related edge List.mem_cons_self)
  have child := (linkedEnds_eq_some.mp ends).2.1
  obtain ⟨⟨row, present, triple⟩, key, nearest⟩ :=
    @linkEdge_present context run (linkedBefore context run before) edge parentId childId relation
      (unwritten.symm ▸ ends) relationEq
  rw [← linkedBefore_append] at present key nearest
  obtain ⟨rowParent, rowChild, rowRelation⟩ := EdgeRow.triple_eq_iff.mp triple
  -- What the edge has made of the rows it touches is what the loops leave of them.
  have left : ∀ other : EdgeRow, other.childId = childId → other.relation = relation →
      (other ∈ (linkAll context payload run).edges ↔
        other ∈ (linkedBefore context run (before ++ [edge])).edges) := by
    have whole : ∀ other : EdgeRow, other.childId = childId → other.relation = relation →
        (other ∈ (linkedBefore context run payload.edges).edges ↔
          other ∈ (linkedBefore context run (before ++ [edge])).edges) := by
      intro other childEq otherRelation
      rw [split]
      refine mem_linkedBefore_of_touches uncontested ⟨?_, ?_⟩
      · rw [child, childEq]
      · rw [relationEq, otherRelation]
    intro other childEq otherRelation
    rw [← whole other childEq otherRelation]
    apply mem_linkAll_of_parented
    exact ⟨row, (whole row rowChild rowRelation).mpr present, rowChild.trans childEq.symm⟩
  constructor
  · have current : row.key ∈ (linkAll context payload run).currentEdgeKeys := by
      refine mem_linkAll_keys ?_
      rw [split, ← List.singleton_append, ← List.append_assoc]
      apply mem_linkedBefore_keys
      rwa [EdgeRow.key, rowParent, rowChild, rowRelation]
    have kept : row ∈ keptEdges context payload run :=
      mem_keptEdges_iff.mpr ⟨(left row rowChild rowRelation).mpr present, fun _ _ => current⟩
    obtain ⟨stored, member, storedTriple⟩ := List.mem_map.mp (same.1 (List.mem_map_of_mem kept))
    obtain ⟨parentEq, childEq, storedRelation⟩ :=
      EdgeRow.triple_eq_iff.mp (storedTriple.trans triple)
    exact ⟨stored, member, parentEq, childEq, relationEq.symm ▸ congrArg some storedRelation⟩
  · intro hosts other member childEq isHosts different
    have relationHosts : relation = "hosts" := Option.some.inj (relationEq.symm.trans hosts)
    obtain ⟨twin, kept, twinTriple⟩ := List.mem_map.mp (same.2 (List.mem_map_of_mem member))
    obtain ⟨parentEq, twinChild, twinRelation⟩ := EdgeRow.triple_eq_iff.mp twinTriple
    rw [childEq] at twinChild
    rw [isHosts] at twinRelation
    rw [← parentEq]
    have inLoop := (left twin twinChild (twinRelation.trans relationHosts.symm)).mp
      (mem_keptEdges_iff.mp kept).1
    exact nearest relationHosts twin inLoop twinChild twinRelation (parentEq.symm ▸ different)

/-- Where no reported edges compete and the same edges are left, every linked edge stands. -/
theorem linked_of_sameElements (uncontested : Uncontested run payload.edges)
    (same : SameElements ((keptEdges context payload run).map EdgeRow.triple)
      (run.store.edges.map EdgeRow.triple)) (before after : List ItemEdge)
    (split : payload.edges = before ++ after) : ∀ edge ∈ before, ∀ parentId childId,
      linkedEnds run run.store.edges edge = some (parentId, childId) →
        Stands run edge parentId childId := by
  induction before using List.reverseRecOn generalizing after with
  | nil => exact fun edge member => absurd member List.not_mem_nil
  | append_singleton before last ih =>
      rw [List.append_assoc, List.singleton_append] at split
      have earlier := ih (last :: after) split
      intro edge member parentId childId ends
      rcases List.mem_append.mp member with old | new
      · exact earlier edge old parentId childId ends
      · obtain rfl := List.mem_singleton.mp new
        rw [split] at uncontested
        refine stands_of_sameElements split uncontested.of_append ?_ same ends
        rw [@linkedBefore_stands context run before earlier]

/-- Where no reported edges compete, only a run whose links stand leaves the same edges. -/
theorem linksStand_of_sameElements (uncontested : Uncontested run payload.edges)
    (same : SameElements ((keptEdges context payload run).map EdgeRow.triple)
      (run.store.edges.map EdgeRow.triple)) : LinksStand context payload run := by
  have linked := linked_of_sameElements uncontested same payload.edges [] (by simp)
  have stood := @linkedBefore_stands context run payload.edges linked
  have filed : ∀ siteId, context.incomingSiteId = some siteId → ∀ item ∈ run.reported,
      IsFiled siteId (linkedSlugs run payload.edges) item →
        ∃ row ∈ run.store.edges, row.childId = item.actualId := by
    intro siteId known item member isFiled
    obtain ⟨-, origin, -, spec⟩ := foldl_fileUnderSite_spec context siteId
      (linkedBefore context run payload.edges) run.reported
    rw [← linkAll_of_site known] at origin spec
    rw [stood] at spec origin
    obtain ⟨key, row, present, child⟩ := spec item member isFiled
    rcases origin row present with old | ⟨parentEq, isHosts⟩
    · exact ⟨row, old, child⟩
    · have kept : row ∈ keptEdges context payload run := by
        refine mem_keptEdges_iff.mpr ⟨present, fun _ _ => ?_⟩
        rwa [EdgeRow.key, parentEq, child, isHosts]
      obtain ⟨stored, inTable, triple⟩ := List.mem_map.mp (same.1 (List.mem_map_of_mem kept))
      exact ⟨stored, inTable, (EdgeRow.triple_eq_iff.mp triple).2.1.trans child⟩
  refine ⟨linked, filed, ?_⟩
  obtain ⟨edges, keys⟩ := linkAll_stands linked filed
  intro some row member own
  rw [or_iff_not_imp_left]
  intro stale
  obtain ⟨twin, kept, triple⟩ := List.mem_map.mp (same.2 (List.mem_map_of_mem member))
  obtain ⟨present, current⟩ := mem_keptEdges_iff.mp kept
  rw [edges] at present
  rw [keys, EdgeRow.key_of_triple triple] at current
  exact ⟨twin, present, triple, fun ownTwin => stale (current some ownTwin)⟩

end ThetaDirectory.Discovery
