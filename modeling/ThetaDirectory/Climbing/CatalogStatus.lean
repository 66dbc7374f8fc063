import ThetaDirectory.Climbing.Nodes
import ThetaDirectory.Library.Levels

/-!
# The status of a catalogue card

`Resource.withCatalogStatus`: a card without a known status of its own shows that of the nearest
host or site above.  Where that is negative it goes on to the last negative one of all, also past
healthy ones and where that one is milder.
-/

namespace ThetaDirectory.Climbing

open Catalog Library
open Bubbling (statusRank)

/-! ## The card -/

def isKnown (status : Json) : Bool := status.isTruthy && !status.isStr "unknown"

/-- `CATALOG_STATUS_NEGATIVE`. -/
def isNegative (status : Json) : Bool :=
  status.isStr "critical" || status.isStr "error" || status.isStr "warning"

/-- How severe a status is. -/
def severity (status : Json) : Nat := (status.str?.map statusRank).getD 0

inductive Via where
  | self
  | ancestor
  | none

structure CatalogStatus where
  state : Json
  culprit : Option Node
  via : Via

section Card

variable (nodes : List Node) (edges : List ResourceEdge)

/-- The node with this id; of several the last. -/
def byId (id : String) : Option Node := nodes.reverse.find? fun node => node.id == id

/-- The parents of the resource itself and of stored ones. -/
def onward (start id : String) : List String :=
  if id = start ∨ (byId nodes id).isSome then parentIds edges id else []

/-- The ids above a resource, level by level. -/
def idsAbove (start : String) : List String :=
  (Levels.order (onward nodes edges start) (nodes.length + 2) start).tail

/-- The ancestors that can carry a status. -/
def ancestry (start : String) : List Node :=
  (idsAbove nodes edges start).filterMap fun id =>
    (byId nodes id).filter fun node => node.kind == "host" || node.kind == "site"

/-- The ancestor whose status is shown. -/
def culprit (chain : List Node) : Option Node :=
  (chain.find? fun node => isKnown node.status).map fun nearest =>
    if isNegative nearest.status then
      chain.foldl (fun worst node =>
        if node.id = nearest.id then worst
        else if isKnown node.status && isNegative node.status then node else worst) nearest
    else nearest

def catalogStatus (node : Node) : CatalogStatus :=
  if isKnown node.status then ⟨node.status, none, .self⟩
  else
    match culprit (ancestry nodes edges node.id) with
    | some found => ⟨found.status, some found, .ancestor⟩
    | none => ⟨.str "unknown", none, .none⟩

end Card

/-- The name on the card. -/
def CatalogStatus.source (card : CatalogStatus) (nameCulprit : Bool) (id : String) : Option String :=
  (card.culprit.filter fun node => nameCulprit && node.id != id).map (·.name)

/-- The resources with their cards. -/
def withCatalogStatus (rows : List Resource) (edges : List ResourceEdge)
    (resources : List Resource) : List (Resource × CatalogStatus) :=
  resources.map fun row => (row, catalogStatus (graphNodes rows edges) edges (nodeOf row))

/-! ## The right ancestor -/

section Right

variable (nodes : List Node) (edges : List ResourceEdge)

/-- A host or site above the resource, through stored resources. -/
structure Over (node ancestor : Node) : Prop where
  stored : ancestor ∈ nodes
  kind : ancestor.kind = "host" ∨ ancestor.kind = "site"
  other : ancestor.id ≠ node.id
  path : Relation.ReflTransGen (DepthFirst.Step (onward nodes edges node.id)) node.id ancestor.id

/-- The chain lists the hosts and sites above the resource once each, the nearest first. -/
structure NearestFirst (node : Node) (chain : List Node) : Prop where
  listed : ∀ ancestor, ancestor ∈ chain ↔ Over nodes edges node ancestor
  nodup : (chain.map (·.id)).Nodup
  sorted : chain.Pairwise fun near far =>
    Levels.Nearer (onward nodes edges node.id) node.id near.id far.id

end Right

/-- The first of the chain with a known status. -/
def IsNearest (chain : List Node) (nearest : Node) : Prop :=
  chain.find? (fun node => isKnown node.status) = some nearest

/-- The card shows the trouble it should, and blames who is to blame. -/
structure BlamesRight (chain : List Node) (node : Node) (card : CatalogStatus) : Prop where
  self : isKnown node.status = true → card = ⟨node.status, none, .self⟩
  unknown : isKnown node.status = false → isKnown card.state = false →
    ∀ ancestor ∈ chain, isKnown ancestor.status = false
  severe : isKnown node.status = false → ∀ nearest, IsNearest chain nearest →
    severity nearest.status ≤ severity card.state
  named : isKnown node.status = false → ∀ found, card.culprit = some found →
    found ∈ chain ∧ found.status = card.state
  along : isKnown node.status = false → ∀ nearest, IsNearest chain nearest →
    isNegative nearest.status = true → ∀ before found after, card.culprit = some found →
      chain = before ++ found :: after →
        ∀ ancestor ∈ before, isKnown ancestor.status = true → isNegative ancestor.status = true

/-- Where the nearest known status is negative, no negative one comes behind a healthy one, and the
last negative one is not milder than the nearest. -/
structure Unbroken (chain : List Node) : Prop where
  healthy : ∀ nearest, IsNearest chain nearest → isNegative nearest.status = true →
    ∀ before sick after, chain = before ++ sick :: after → isNegative sick.status = true →
      ∀ ancestor ∈ before, isKnown ancestor.status = true → isNegative ancestor.status = true
  milder : ∀ nearest, IsNearest chain nearest → isNegative nearest.status = true →
    ∀ before last after, chain = before ++ last :: after → isNegative last.status = true →
      (∀ ancestor ∈ after, isNegative ancestor.status = false) →
        severity nearest.status ≤ severity last.status

/-! ## The chain -/

section Chain

variable {nodes : List Node} {edges : List ResourceEdge} {node : Node}

theorem byId_eq_some (distinct : (nodes.map (·.id)).Nodup) {id : String} {found : Node} :
    byId nodes id = some found ↔ found ∈ nodes ∧ found.id = id := by
  have reversed : (nodes.reverse.map (·.id)).Nodup := by
    rw [List.map_reverse]
    exact List.nodup_reverse.mpr distinct
  unfold byId
  rw [Keyed.find?_eq_some_iff reversed, List.mem_reverse]

theorem mem_of_onward {start : String} (id : String) (climbs : onward nodes edges start id ≠ []) :
    id ∈ start :: nodes.map (·.id) := by
  unfold onward at climbs
  split at climbs
  · rename_i source
    rcases source with isStart | there
    · exact isStart ▸ List.mem_cons_self
    · obtain ⟨found, isFound⟩ := Option.isSome_iff_exists.mp there
      have same : found.id = id := by simpa using List.find?_some isFound
      have member := List.mem_reverse.mp (List.mem_of_find?_eq_some isFound)
      exact List.mem_cons_of_mem _ (same ▸ List.mem_map_of_mem member)
  · exact absurd rfl climbs

theorem idsAbove_eq (start : String) :
    start :: idsAbove nodes edges start =
      Levels.order (onward nodes edges start) (nodes.length + 2) start :=
  (Levels.order_eq_cons _).symm

theorem mem_idsAbove_iff {start id : String} : id ∈ idsAbove nodes edges start ↔
    id ≠ start ∧ Relation.ReflTransGen (DepthFirst.Step (onward nodes edges start)) start id := by
  have enough : (start :: nodes.map (·.id)).length < nodes.length + 2 := by
    rw [List.length_cons, List.length_map]
    exact Nat.lt_succ_self _
  have reached := @Levels.mem_order_iff _ _ (onward nodes edges start) start _ mem_of_onward _ id enough
  have nodup := @Levels.nodup_order _ _ (onward nodes edges start) start (nodes.length + 2)
  rw [← idsAbove_eq, List.mem_cons] at reached
  rw [← idsAbove_eq, List.nodup_cons] at nodup
  rw [← reached]
  constructor
  · intro above
    exact ⟨fun same => nodup.1 (same ▸ above), Or.inr above⟩
  · intro both
    exact both.2.resolve_left both.1

/-- The ancestors of a chain are taken by id. -/
theorem ancestor_iff (distinct : (nodes.map (·.id)).Nodup) {id : String} {ancestor : Node} :
    ((byId nodes id).filter fun node => node.kind == "host" || node.kind == "site") = some ancestor ↔
      ancestor ∈ nodes ∧ ancestor.id = id ∧ (ancestor.kind = "host" ∨ ancestor.kind = "site") := by
  rw [Option.filter_eq_some_iff, byId_eq_some distinct, and_assoc, Bool.or_eq_true, beq_iff_eq,
    beq_iff_eq]

theorem nearestFirst_ancestry (distinct : (nodes.map (·.id)).Nodup) :
    NearestFirst nodes edges node (ancestry nodes edges node.id) := by
  have sorted := @Levels.pairwise_order _ _ (onward nodes edges node.id) node.id (nodes.length + 2)
  have nodup := @Levels.nodup_order _ _ (onward nodes edges node.id) node.id (nodes.length + 2)
  rw [← idsAbove_eq, List.pairwise_cons] at sorted
  rw [← idsAbove_eq, List.nodup_cons] at nodup
  have ids {id : String} {ancestor : Node} (taken : ((byId nodes id).filter fun node =>
      node.kind == "host" || node.kind == "site") = some ancestor) : ancestor.id = id :=
    ((ancestor_iff distinct).mp taken).2.1
  constructor
  · intro ancestor
    unfold ancestry
    rw [List.mem_filterMap]
    constructor
    · intro taken
      obtain ⟨id, above, isAncestor⟩ := taken
      obtain ⟨stored, rfl, kind⟩ := (ancestor_iff distinct).mp isAncestor
      obtain ⟨other, path⟩ := mem_idsAbove_iff.mp above
      exact ⟨stored, kind, other, path⟩
    · intro above
      exact ⟨ancestor.id, mem_idsAbove_iff.mpr ⟨above.other, above.path⟩,
        (ancestor_iff distinct).mpr ⟨above.stored, rfl, above.kind⟩⟩
  · apply List.pairwise_map.mpr
    apply List.pairwise_filterMap.mpr
    refine nodup.2.imp fun apart first isFirst second isSecond => ?_
    rwa [ids isFirst, ids isSecond]
  · apply List.pairwise_filterMap.mpr
    refine sorted.2.imp fun nearer first isFirst second isSecond => ?_
    rwa [ids isFirst, ids isSecond]

end Chain

/-! ## The culprit -/

section Culprit

variable {chain : List Node} {node nearest found : Node}

theorem isKnown_of_isNegative {status : Json} (negative : isNegative status = true) :
    isKnown status = true := by
  unfold isNegative at negative
  cases status with
  | str value =>
      simp only [Json.isStr, Bool.or_eq_true, beq_iff_eq] at negative
      rcases negative with (rfl | rfl) | rfl <;> decide
  | null | bool _ | num _ | arr _ | obj _ => cases negative

/-- A fold that takes each match gives the last one. -/
theorem foldl_last {α : Type} (holds : α → Bool) (start : α) (entries : List α) :
    ((∀ entry ∈ entries, holds entry = false) ∧
        entries.foldl (fun last entry => if holds entry then entry else last) start = start) ∨
      ∃ before last after, entries = before ++ last :: after ∧ holds last = true ∧
        (∀ entry ∈ after, holds entry = false) ∧
          entries.foldl (fun last entry => if holds entry then entry else last) start = last := by
  induction entries generalizing start with
  | nil => exact Or.inl ⟨List.forall_mem_nil _, rfl⟩
  | cons entry entries ih =>
      rw [List.foldl_cons]
      rcases ih (if holds entry then entry else start) with ⟨none, same⟩ | later
      · cases isMatch : holds entry with
        | true =>
            rw [isMatch] at same
            exact Or.inr ⟨[], entry, entries, rfl, isMatch, none, same⟩
        | false =>
            rw [isMatch] at same
            exact Or.inl ⟨List.forall_mem_cons.mpr ⟨isMatch, none⟩, same⟩
      · obtain ⟨before, last, after, rfl, isMatch, none, same⟩ := later
        exact Or.inr ⟨entry :: before, last, after, rfl, isMatch, none, same⟩

/-- Where the nearest known status is negative, the culprit is the last negative one. -/
theorem culprit_negative (nodup : (chain.map (·.id)).Nodup) (isNearest : IsNearest chain nearest)
    (negative : isNegative nearest.status = true) : ∃ before last after,
      chain = before ++ last :: after ∧ isNegative last.status = true ∧
        (∀ ancestor ∈ after, isNegative ancestor.status = false) ∧ culprit chain = some last := by
  have first : chain.find? (fun node => isKnown node.status) = some nearest := isNearest
  obtain ⟨known, before, after, rfl, unknown⟩ := List.find?_eq_some_iff_append.mp first
  have silent (ancestor : Node) (member : ancestor ∈ before) : isNegative ancestor.status = false := by
    cases sick : isNegative ancestor.status with
    | false => rfl
    | true =>
        have bare := unknown ancestor member
        rw [isKnown_of_isNegative sick] at bare
        cases bare
  have ids : ((nearest :: after).map (·.id)).Nodup :=
    nodup.sublist ((List.sublist_append_right before _).map _)
  rw [List.map_cons, List.nodup_cons] at ids
  let turn (worst node : Node) : Node :=
    if node.id = nearest.id then worst
    else if isKnown node.status && isNegative node.status then node else worst
  have front : before.foldl turn nearest = nearest := by
    refine (List.foldl_ext turn (fun worst _ => worst) nearest ?_).trans (List.foldl_fixed before)
    intro worst ancestor member
    change (if ancestor.id = nearest.id then worst else _) = worst
    rw [silent ancestor member, Bool.and_false]
    exact ite_self worst
  have back : after.foldl turn nearest =
      after.foldl (fun last node => if isNegative node.status then node else last) nearest := by
    apply List.foldl_ext
    intro worst ancestor member
    have apart : ancestor.id ≠ nearest.id := fun same => ids.1 (same ▸ List.mem_map_of_mem member)
    change (if ancestor.id = nearest.id then worst else _) = _
    rw [if_neg apart]
    cases sick : isNegative ancestor.status with
    | false => rw [Bool.and_false]
    | true => rw [isKnown_of_isNegative sick, Bool.and_true]
  have shown : culprit (before ++ nearest :: after) =
      some (after.foldl (fun last node => if isNegative node.status then node else last) nearest) := by
    unfold culprit
    rw [first, Option.map_some, if_pos negative, List.foldl_append, List.foldl_cons]
    change some (after.foldl turn (turn (before.foldl turn nearest) nearest)) = _
    rw [front, ← back]
    congr 2
    exact if_pos rfl
  rcases foldl_last (fun node : Node => isNegative node.status) nearest after with ⟨none, same⟩ | later
  · exact ⟨before, nearest, after, rfl, negative, none, shown.trans (congrArg some same)⟩
  · obtain ⟨middle, last, rest, rfl, sick, none, same⟩ := later
    refine ⟨before ++ nearest :: middle, last, rest, ?_, sick, none, shown.trans (congrArg some same)⟩
    rw [List.append_assoc, List.cons_append]

/-- A negative entry stands before the last one, or is it. -/
theorem split_last {before after before' after' : List Node} {sick last : Node}
    (split : before ++ sick :: after = before' ++ last :: after') (negative : isNegative sick.status = true)
    (none : ∀ ancestor ∈ after', isNegative ancestor.status = false) :
    (before = before' ∧ sick = last ∧ after = after') ∨
      ∃ between, before' = before ++ sick :: between ∧ after = between ++ last :: after' := by
  rcases List.append_eq_append_iff.mp split with ⟨more, isBefore, isRest⟩ | ⟨more, isBefore, isRest⟩
  · cases more with
    | nil =>
        rw [List.nil_append, List.cons.injEq] at isRest
        exact Or.inl ⟨(isBefore.trans (List.append_nil _)).symm, isRest⟩
    | cons first between =>
        rw [List.cons_append, List.cons.injEq] at isRest
        obtain ⟨rfl, rfl⟩ := isRest
        exact Or.inr ⟨between, isBefore, rfl⟩
  · cases more with
    | nil =>
        rw [List.nil_append, List.cons.injEq] at isRest
        exact Or.inl ⟨isBefore.trans (List.append_nil _), isRest.1.symm, isRest.2.symm⟩
    | cons first between =>
        rw [List.cons_append, List.cons.injEq] at isRest
        have healthy := none sick (isRest.2 ▸ List.mem_append_right _ List.mem_cons_self)
        rw [negative] at healthy
        cases healthy

end Culprit

/-! ## The card -/

section Cards

variable {nodes : List Node} {edges : List ResourceEdge} {node found nearest : Node}

theorem catalogStatus_known (known : isKnown node.status = true) :
    catalogStatus nodes edges node = ⟨node.status, none, .self⟩ := if_pos known

theorem catalogStatus_unknown (unknown : isKnown node.status = false) :
    catalogStatus nodes edges node =
      match culprit (ancestry nodes edges node.id) with
      | some found => ⟨found.status, some found, .ancestor⟩
      | none => ⟨.str "unknown", none, .none⟩ :=
  if_neg (Bool.eq_false_iff.mp unknown)

/-- Where the nearest known status is not negative it is shown. -/
theorem culprit_healthy {chain : List Node} (isNearest : IsNearest chain nearest)
    (healthy : isNegative nearest.status = false) : culprit chain = some nearest := by
  unfold culprit
  rw [show chain.find? (fun node => isKnown node.status) = some nearest from isNearest,
    Option.map_some, if_neg (Bool.eq_false_iff.mp healthy)]

/-- The culprit is a known ancestor, and there is one where there is any. -/
theorem culprit_spec {chain : List Node} (nodup : (chain.map (·.id)).Nodup) (nearest : Node)
    (isNearest : IsNearest chain nearest) :
    ∃ found ∈ chain, isKnown found.status = true ∧ culprit chain = some found := by
  cases negative : isNegative nearest.status with
  | true =>
      obtain ⟨before, last, after, rfl, sick, -, isCulprit⟩ := culprit_negative nodup isNearest negative
      exact ⟨last, List.mem_append_right _ List.mem_cons_self, isKnown_of_isNegative sick, isCulprit⟩
  | false =>
      have first : chain.find? (fun node => isKnown node.status) = some nearest := isNearest
      have known : isKnown nearest.status = true := (List.find?_eq_some_iff_append.mp first).1
      exact ⟨nearest, List.mem_of_find?_eq_some first, known, culprit_healthy isNearest negative⟩

theorem blamesRight_iff (distinct : (nodes.map (·.id)).Nodup) :
    BlamesRight (ancestry nodes edges node.id) node (catalogStatus nodes edges node) ↔
      (isKnown node.status = false → Unbroken (ancestry nodes edges node.id)) := by
  have nodup := (@nearestFirst_ancestry nodes edges node distinct).nodup
  constructor
  · intro right unknown
    constructor
    · intro nearest isNearest negative before sick after split isSick
      obtain ⟨before', last, after', whole, -, none, isCulprit⟩ :=
        culprit_negative nodup isNearest negative
      have named : (catalogStatus nodes edges node).culprit = some last := by
        rw [catalogStatus_unknown unknown, isCulprit]
      have along := right.along unknown nearest isNearest negative before' last after' named whole
      rcases split_last (split.symm.trans whole) isSick none with ⟨same, -, -⟩ | ⟨between, same, -⟩
      · rwa [same]
      · intro ancestor member
        exact along ancestor (same ▸ List.mem_append_left _ member)
    · intro nearest isNearest negative before last after split isLast silent
      obtain ⟨before', last', after', whole, isLast', none, isCulprit⟩ :=
        culprit_negative nodup isNearest negative
      have severe := right.severe unknown nearest isNearest
      rw [catalogStatus_unknown unknown, isCulprit] at severe
      rcases split_last (split.symm.trans whole) isLast none with ⟨-, same, -⟩ | ⟨between, -, same⟩
      · rwa [same]
      · have healthy := silent last' (same ▸ List.mem_append_right _ List.mem_cons_self)
        rw [isLast'] at healthy
        cases healthy
  · intro unbroken
    constructor
    · exact fun known => catalogStatus_known known
    · intro unknown isUnknown
      rw [catalogStatus_unknown unknown] at isUnknown
      cases isNearest : (ancestry nodes edges node.id).find? fun node => isKnown node.status with
      | none =>
          intro ancestor member
          exact Bool.eq_false_iff.mpr (List.find?_eq_none.mp isNearest ancestor member)
      | some nearest =>
          obtain ⟨found, -, known, isCulprit⟩ := culprit_spec nodup nearest isNearest
          rw [isCulprit] at isUnknown
          cases known.symm.trans isUnknown
    · intro unknown nearest isNearest
      rw [catalogStatus_unknown unknown]
      cases negative : isNegative nearest.status with
      | true =>
          obtain ⟨before, last, after, whole, isLast, none, isCulprit⟩ :=
            culprit_negative nodup isNearest negative
          rw [isCulprit]
          exact (unbroken unknown).milder nearest isNearest negative before last after whole isLast none
      | false => rw [culprit_healthy isNearest negative]
    · intro unknown found named
      rw [catalogStatus_unknown unknown] at named ⊢
      cases isNearest : (ancestry nodes edges node.id).find? fun node => isKnown node.status with
      | none =>
          rw [culprit, isNearest] at named
          cases named
      | some nearest =>
          obtain ⟨other, member, -, isCulprit⟩ := culprit_spec nodup nearest isNearest
          rw [isCulprit] at named ⊢
          cases named
          exact ⟨member, rfl⟩
    · intro unknown nearest isNearest negative before found after named split
      obtain ⟨before', last, after', -, isLast, -, isCulprit⟩ :=
        culprit_negative nodup isNearest negative
      rw [catalogStatus_unknown unknown, isCulprit] at named
      cases named
      exact (unbroken unknown).healthy nearest isNearest negative before found after split isLast

end Cards

def statusRow (name kind status : String) : Resource where
  id := name
  kind := kind
  name := name
  slug := name
  description := none
  createdBy := none
  metadata := AList.insert "status" (.str status) ∅

def estate : List Resource :=
  [statusRow "entry" "service" "unknown", statusRow "guest" "host" "critical",
    statusRow "machine" "host" "ok", statusRow "site" "site" "warning"]

def estateEdges : List ResourceEdge :=
  [edgeTo "entry" "guest", edgeTo "guest" "machine", edgeTo "machine" "site"]

end ThetaDirectory.Climbing
