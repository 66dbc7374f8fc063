import ThetaDirectory.Text

/-!
# Edges of the catalogue

A row of the `ResourceEdge` table, and the index from a parent to its children
that every walk down the catalogue builds first.
-/

namespace ThetaDirectory.Catalog

/-- A parent-child row.  `source` is the discovery source that wrote it and is
absent on the edges an operator makes. -/
structure ResourceEdge where
  parentId : Option String
  childId : Option String
  relation : String
  source : Option String
  deriving DecidableEq, Repr

/-- The edge's ends, if it has both. -/
def ResourceEdge.ends (edge : ResourceEdge) : Option (String × String) :=
  match truthy edge.parentId, truthy edge.childId with
  | some parentId, some childId => some (parentId, childId)
  | _, _ => none

/-- The children of a resource in the order of the edges.  Edges lacking an end
are skipped. -/
def childrenOf (edges : List ResourceEdge) (id : String) : List String :=
  (edges.filterMap ResourceEdge.ends).filterMap fun ends =>
    if ends.1 = id then some ends.2 else none

/-- Some edge leads from the parent to the child. -/
def IsChild (edges : List ResourceEdge) (parent child : String) : Prop :=
  child ∈ childrenOf edges parent

theorem isChild_iff {edges : List ResourceEdge} {parent child : String} :
    IsChild edges parent child ↔ (parent, child) ∈ edges.filterMap ResourceEdge.ends := by
  unfold IsChild childrenOf
  generalize edges.filterMap ResourceEdge.ends = ends
  rw [List.mem_filterMap]
  constructor
  · rintro ⟨⟨start, finish⟩, member, same⟩
    simp only [Option.ite_none_right_eq_some, Option.some.injEq] at same
    obtain ⟨rfl, rfl⟩ := same
    exact member
  · intro member
    exact ⟨(parent, child), member, by simp⟩

end ThetaDirectory.Catalog
