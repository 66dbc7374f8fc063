import ThetaDirectory.Discovery.Reconcile

/-!
# Checking a payload before it is reconciled

`validateDiscoveryPayload` of `services/scheduler.js`, after the types: a malformed
resource or edge is dropped and reported, the others go on to `reconcile`.
-/

namespace ThetaDirectory.Discovery

open Library Catalog

def canonicalKinds : List String := ["site", "host", "service"]

/-- Why a resource is dropped, after those with the slugs seen so far. -/
def resourceFault (seenSlugs : List String) (index : Nat) (item : Item) : Option String :=
  match truthy item.slug with
  | none => some ("resource[" ++ toString index ++ "]: missing slug")
  | some slug =>
      if seenSlugs.contains slug then
        some ("resource[" ++ toString index ++ "]: duplicate slug " ++ slug)
      else
        match truthy item.kind with
        | some kind =>
            if canonicalKinds.contains kind then none
            else some ("resource[" ++ toString index ++ "] (" ++ slug ++ "): unknown kind '" ++
              kind ++ "'")
        | none => none

/-- The resources that are kept and the reports of those that are not. -/
def checkResources : List String → Nat → List Item → List Item × List String
  | _, _, [] => ([], [])
  | seenSlugs, index, item :: items =>
      match resourceFault seenSlugs index item with
      | some fault =>
          let (kept, dropped) := checkResources seenSlugs (index + 1) items
          (kept, fault :: dropped)
      | none =>
          let (kept, dropped) :=
            checkResources (seenSlugs ++ item.slug.toList) (index + 1) items
          (item :: kept, dropped)

def edgeFault (index : Nat) (edge : ItemEdge) : Option String :=
  match truthy edge.parentSlug, truthy edge.childSlug with
  | some parent, some child =>
      if parent = child then
        some ("edge[" ++ toString index ++ "]: self-edge on " ++ parent)
      else none
  | _, _ => some ("edge[" ++ toString index ++ "]: needs parentSlug and childSlug")

/-- What is handed to the reconciler, and what was dropped on the way. -/
structure Checked where
  payload : Payload
  dropped : List String

def validateDiscoveryPayload (payload : Payload) : Checked :=
  let (resources, droppedResources) := checkResources [] 0 payload.resources
  let edges := payload.edges.zipIdx.map fun (edge, index) => (edge, edgeFault index edge)
  { payload := ⟨resources, (edges.filter (·.2.isNone)).map (·.1)⟩
    dropped := droppedResources ++ edges.filterMap (·.2) }

/-- A payload the check lets through: resources have different slugs and a kind of the
closed list or none, edges name two different slugs. -/
structure Payload.Valid (payload : Payload) : Prop where
  slugged : ∀ item ∈ payload.resources, (truthy item.slug).isSome = true
  distinct : (payload.resources.map (·.slug)).Nodup
  kinds : ∀ item ∈ payload.resources, ∀ kind, truthy item.kind = some kind →
    kind ∈ canonicalKinds
  edges : ∀ edge ∈ payload.edges, ∃ parent child, truthy edge.parentSlug = some parent ∧
    truthy edge.childSlug = some child ∧ parent ≠ child

theorem checkResources_spec (seenSlugs : List String) (index : Nat) (items : List Item) :
    (∀ item ∈ (checkResources seenSlugs index items).1,
      (∃ slug, truthy item.slug = some slug ∧ slug ∉ seenSlugs) ∧
        ∀ kind, truthy item.kind = some kind → kind ∈ canonicalKinds) ∧
    ((checkResources seenSlugs index items).1.map (·.slug)).Nodup := by
  induction items generalizing seenSlugs index with
  | nil => simp [checkResources]
  | cons item items ih =>
      unfold checkResources
      cases fault : resourceFault seenSlugs index item with
      | some text => exact ih seenSlugs (index + 1)
      | none =>
          obtain ⟨rest, nodup⟩ := ih (seenSlugs ++ item.slug.toList) (index + 1)
          unfold resourceFault at fault
          split at fault
          · cases fault
          · rename_i slug given
            have slugEq : item.slug = some slug := (Option.filter_eq_some_iff.mp given).1
            split at fault
            · cases fault
            · rename_i fresh
              rw [List.contains_iff_mem] at fresh
              refine ⟨?_, ?_⟩
              · intro kept member
                rcases List.mem_cons.mp member with rfl | later
                · refine ⟨⟨slug, given, fresh⟩, fun kind kindEq => ?_⟩
                  rw [kindEq] at fault
                  dsimp only at fault
                  split at fault
                  · rename_i canonical
                    exact List.contains_iff_mem.mp canonical
                  · cases fault
                · obtain ⟨⟨other, otherEq, unseen⟩, kinds⟩ := rest kept later
                  exact ⟨⟨other, otherEq, fun seen => unseen (List.mem_append_left _ seen)⟩, kinds⟩
              · refine List.nodup_cons.mpr ⟨?_, nodup⟩
                intro taken
                obtain ⟨kept, later, same⟩ := List.mem_map.mp taken
                obtain ⟨⟨other, otherEq, unseen⟩, -⟩ := rest kept later
                refine unseen (List.mem_append_right _ ?_)
                have otherSlug : kept.slug = some other := (Option.filter_eq_some_iff.mp otherEq).1
                simp [← same, otherSlug]

/-- What the check hands on is well formed. -/
theorem valid_validateDiscoveryPayload (payload : Payload) :
    (validateDiscoveryPayload payload).payload.Valid := by
  obtain ⟨resources, nodup⟩ := checkResources_spec [] 0 payload.resources
  constructor
  · intro item member
    obtain ⟨⟨slug, slugEq, -⟩, -⟩ := resources item member
    simp [slugEq]
  · exact nodup
  · exact fun item member => (resources item member).2
  · intro edge member
    obtain ⟨⟨kept, fault⟩, inKept, rfl⟩ := List.mem_map.mp member
    obtain ⟨inEdges, noFault⟩ := List.mem_filter.mp inKept
    obtain ⟨⟨source, index⟩, -, sameEdge⟩ := List.mem_map.mp inEdges
    simp only [Prod.mk.injEq] at sameEdge
    obtain ⟨rfl, rfl⟩ := sameEdge
    simp only [edgeFault, Option.isNone_iff_eq_none] at noFault
    split at noFault
    · rename_i parent child parentEq childEq
      split at noFault
      · cases noFault
      · rename_i different
        exact ⟨parent, child, parentEq, childEq, different⟩
    · cases noFault

end ThetaDirectory.Discovery
