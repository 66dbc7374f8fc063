import ThetaDirectory.Discovery.Retention

/-!
# Edges of other sources

Which edges that a run's source did not write the run takes away: a reported edge
replaces an earlier parent of its child whatever source wrote it, and it replaces the
edges from sites to its child.
-/

namespace ThetaDirectory.Discovery

open Library Catalog

variable {context : Context} {run : Run} {linking : Linking} {row : EdgeRow}

/-- Another source wrote the edge, or a person did. -/
def IsForeign (sourceName : String) (row : EdgeRow) : Prop := row.source ≠ some sourceName

/-- The reported edge is linked, and takes the row away: as the first edge into the child
that has the relation and a source, where the reported edge is not there yet; or as an
edge from a site to a child that now has a nearer parent. -/
def Replaces (run : Run) (linking : Linking) (edge : ItemEdge) (row : EdgeRow) : Prop :=
  ∃ parentId childId, resolveSlug run edge.parentSlug = some parentId ∧
    resolveSlug run edge.childSlug = some childId ∧ parentId ≠ childId ∧
    isDescendant parentId childId linking.edges = false ∧
    ((linking.edges.any (fun edge' => edge'.parentId == parentId && edge'.childId == childId &&
          some edge'.relation == edge.relation) = false ∧
        linking.edges.find? (fun edge' => edge'.childId == childId &&
          some edge'.relation == edge.relation && (truthy edge'.source).isSome) = some row) ∨
      edge.relation = some "hosts" ∧ row ∈ linking.edges ∧ row.childId = childId ∧
        row.relation = "hosts" ∧ row.parentId ≠ parentId ∧
          isSite run.store.resources row.parentId = true)

theorem mem_addEdge {parentId childId : String} {relation : Option String}
    (foreign : IsForeign context.sourceName row) :
    row ∈ (addEdge context linking parentId childId relation).edges ↔ row ∈ linking.edges ∧
      ¬ (linking.edges.any (fun edge => edge.parentId == parentId && edge.childId == childId &&
          some edge.relation == relation) = false ∧
        linking.edges.find? (fun edge => edge.childId == childId &&
          some edge.relation == relation && (truthy edge.source).isSome) = some row) := by
  unfold addEdge
  split
  · rename_i present
    simp [present]
  · rename_i absent
    rw [Bool.not_eq_true] at absent
    have notNew : ∀ fresh : EdgeRow, fresh.source = some context.sourceName → row ≠ fresh :=
      fun fresh own same => foreign (same ▸ own)
    simp only [absent, true_and]
    split
    · rename_i prior found
      rw [List.mem_append, List.mem_filter, List.mem_singleton, found, Option.some.injEq,
        decide_eq_true_eq]
      constructor
      · rintro (⟨member, different⟩ | new)
        · exact ⟨member, fun same => different same.symm⟩
        · exact absurd new (notNew _ rfl)
      · exact fun ⟨member, different⟩ => Or.inl ⟨member, fun same => different same.symm⟩
    · rename_i found
      rw [List.mem_append, List.mem_singleton, found]
      simp only [reduceCtorEq, not_false_eq_true, and_true]
      exact or_iff_left (notNew _ rfl)

/-- What one reported edge leaves of the edges of others. -/
theorem mem_linkEdge {edge : ItemEdge} (foreign : IsForeign context.sourceName row) :
    row ∈ (linkEdge context run linking edge).edges ↔
      row ∈ linking.edges ∧ ¬ Replaces run linking edge row := by
  unfold linkEdge Replaces
  split
  · rename_i parentId childId parent child
    simp only [parent, child, Option.some.injEq, exists_and_left, exists_eq_left']
    split
    · rename_i same
      simp [same]
    · rename_i different
      split
      · rename_i below
        simp [below]
      · rename_i notBelow
        rw [Bool.not_eq_true] at notBelow
        simp only [different, ne_eq, not_false_eq_true, true_and, notBelow]
        have added := @mem_addEdge context linking row parentId childId edge.relation foreign
        split
        · rename_i hosts
          rw [dropSiteEdges, List.mem_filter, added]
          simp only [hosts, true_and, Bool.not_eq_true', Bool.and_eq_false_iff, not_or]
          constructor
          · rintro ⟨⟨member, notPrior⟩, notSite⟩
            refine ⟨member, notPrior, ?_⟩
            rintro ⟨-, sameChild, isHosts, nearer, site⟩
            simp [sameChild, isHosts, nearer, site] at notSite
          · rintro ⟨member, notPrior, notSite⟩
            refine ⟨⟨member, notPrior⟩, ?_⟩
            by_contra taken
            simp only [not_or, Bool.not_eq_false, beq_iff_eq, bne_iff_ne] at taken
            exact notSite ⟨member, taken.1.1.1, taken.1.1.2, taken.1.2, taken.2⟩
        · rename_i other
          rw [added]
          simp [other]
  · rename_i unresolved
    constructor
    · intro member
      refine ⟨member, ?_⟩
      rintro ⟨parentId, childId, parent, child, -⟩
      exact unresolved parentId childId parent child
    · exact And.left

/-- The state of the edge loop before it comes to an edge. -/
def linkedBefore (context : Context) (run : Run) (before : List ItemEdge) : Linking :=
  before.foldl (linkEdge context run) ⟨run.store.edges, [], [], run.draws⟩

/-- What the loop over the reported edges leaves of the edges of others. -/
theorem mem_linkedBefore {edges : List ItemEdge} (foreign : IsForeign context.sourceName row) :
    row ∈ (linkedBefore context run edges).edges ↔ row ∈ run.store.edges ∧
      ∀ before edge after, edges = before ++ edge :: after →
        ¬ Replaces run (linkedBefore context run before) edge row := by
  induction edges using List.reverseRecOn with
  | nil => simp [linkedBefore]
  | append_singleton edges last ih =>
      have step : linkedBefore context run (edges ++ [last]) =
          linkEdge context run (linkedBefore context run edges) last := by
        simp only [linkedBefore, List.foldl_append, List.foldl_cons, List.foldl_nil]
      rw [step, mem_linkEdge foreign, ih, and_assoc]
      refine and_congr_right fun _ => ?_
      constructor
      · rintro ⟨earlier, notLast⟩ before edge after split
        rcases List.eq_nil_or_concat after with rfl | ⟨rest, final, rfl⟩
        · obtain ⟨rfl, lastEq⟩ := List.append_inj' split rfl
          cases lastEq
          exact notLast
        · refine earlier before edge rest ?_
          rw [List.concat_eq_append, ← List.cons_append, ← List.append_assoc] at split
          exact (List.append_inj' split rfl).1
      · intro every
        constructor
        · intro before edge after split
          exact every before edge (after ++ [last]) (by rw [split]; simp)
        · exact every edges last [] rfl

/-- Filing under the site and pruning leave the edges of others alone. -/
theorem mem_keptEdges {payload : Payload} (foreign : IsForeign context.sourceName row) :
    row ∈ keptEdges context payload run ↔
      row ∈ (linkedBefore context run payload.edges).edges := by
  have filed : row ∈ (linkAll context payload run).edges ↔
      row ∈ (linkedBefore context run payload.edges).edges := by
    have keeps : ∀ siteId (linking : Linking) (items : List Reported),
        row ∈ (items.foldl (fileUnderSite context siteId) linking).edges ↔
          row ∈ linking.edges := by
      intro siteId linking items
      induction items generalizing linking with
      | nil => exact Iff.rfl
      | cons item items ih =>
          rw [List.foldl_cons, ih]
          rcases fileUnderSite_cases context siteId linking item with
            ⟨same, -⟩ | ⟨-, adds, keeps, -⟩
          · rw [same]
          · exact ⟨fun member => (adds row member).resolve_right fun new => foreign new.2.2,
              keeps row⟩
    unfold linkAll
    split
    · exact keeps _ _ _
    · exact Iff.rfl
  unfold keptEdges
  split
  · exact filed
  · rw [pruneEdges, List.mem_filter, filed]
    have notOwn : (row.source == some context.sourceName) = false := beq_eq_false_iff_ne.mpr foreign
    simp [notOwn]

/-! ## The run -/

/-- Every edge of another source or of a person is there after the run, but for those
into or out of a row the run deleted. -/
def LeavesOthers (env : Env) (cache : TemplateCache) (sourceName : String) (payload : Payload)
    (options : Options) (store : Store) : Prop :=
  let later := (reconcile env cache sourceName payload options store).1
  ∀ edge ∈ store.edges, IsForeign sourceName edge → edge ∈ later.edges ∨
    ∃ row ∈ store.resources, (edge.childId = row.id ∨ edge.parentId = row.id) ∧
      ∀ found ∈ later.resources, found.id ≠ row.id

/-- A run that comes to its edges replaces no edge of another source or of a person, but
for those into or out of a row that vanishes. -/
def ReplacesOwn (env : Env) (cache : TemplateCache) (sourceName : String) (payload : Payload)
    (options : Options) (store : Store) : Prop :=
  ∀ site later run, resolveTarget env options store = (.site site, later) →
    placeAll ⟨env, cache, sourceName, site.map (·.id)⟩ (payload.resources.map (promote options))
      ⟨later, siteMap later, [], 2⟩ = (run, none) →
    ∀ before edge after, payload.edges = before ++ edge :: after → ∀ row,
      IsForeign sourceName row →
      Replaces run (linkedBefore ⟨env, cache, sourceName, site.map (·.id)⟩ run before) edge row →
      ∃ gone, Vanishes ⟨env, cache, sourceName, site.map (·.id)⟩ payload run gone ∧
        (row.childId = gone.id ∨ row.parentId = gone.id)

theorem mem_of_replaces {edge : ItemEdge} (replaces : Replaces run linking edge row) :
    row ∈ linking.edges := by
  obtain ⟨_, _, -, -, -, -, ⟨-, prior⟩ | ⟨-, member, -⟩⟩ := replaces
  · exact List.mem_of_find?_eq_some prior
  · exact member

end ThetaDirectory.Discovery
