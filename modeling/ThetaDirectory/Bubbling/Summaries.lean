import ThetaDirectory.Bubbling.Graph
import Mathlib.Order.MinMax

/-!
# Bubbled environments and statuses

`getGraph` finds the highest rank at or below every resource, on any graph, but writes it over what
the stored metadata holds under the same keys only where it finds one.
-/

namespace ThetaDirectory.Bubbling

open Catalog Library Library.Gathering

variable {rows : List Resource} {edges : List ResourceEdge} {row : Resource}

/-! ## The highest rank -/

section Worst

variable {β : Type} {rank : β → Nat} {own : Resource → Option β}

theorem rankOf_worse (best child : Option β) :
    rankOf rank (worse rank best child) = max (rankOf rank best) (rankOf rank child) := by
  unfold worse
  split
  · rename_i higher
    obtain ⟨-, none | less⟩ := higher
    · rw [Option.isNone_iff_eq_none.mp none]
      exact (Nat.zero_max _).symm
    · exact (Nat.max_eq_right less.le).symm
  · rename_i notHigher
    rw [not_and_or, not_or, not_lt, not_not] at notHigher
    rcases notHigher with zero | ⟨-, most⟩
    · rw [zero, Nat.max_zero]
    · exact (Nat.max_eq_left most).symm

theorem worse_eq (best child : Option β) :
    worse rank best child = best ∨ worse rank best child = child := by
  unfold worse
  split
  · exact Or.inr rfl
  · exact Or.inl rfl

theorem worse_of_le {best child : Option β} (least : rankOf rank child ≤ rankOf rank best) :
    worse rank best child = best := by
  apply if_neg
  intro higher
  obtain ⟨filled, none | less⟩ := higher
  · rw [Option.isNone_iff_eq_none.mp none] at least
    exact filled (Nat.le_zero.mp least)
  · exact absurd least (Nat.not_le.mpr less)

/-- What is joined is one of the values. -/
theorem found_of_joins {keys : String → Prop} {value : Option β} {given : β}
    (joins : Joins (worstRules rows edges rank own) keys value) (same : value = some given) :
    ∃ key, keys key ∧ (worstRules rows edges rank own).own key = some (some given) := by
  apply joins.sound fun value => ∀ given, value = some given →
    ∃ key, keys key ∧ (worstRules rows edges rank own).own key = some (some given)
  · intro given none
    cases none
  · intro best child ofBest ofChild given same
    rcases @worse_eq β rank best child with isBest | isChild
    · exact ofBest given (isBest.symm.trans same)
    · exact ofChild given (isChild.symm.trans same)
  · intro key value listed isOwn given same
    exact ⟨key, listed, same ▸ isOwn⟩
  · exact same

/-- None of the values is of a higher rank than what is joined. -/
theorem highest_of_joins {keys : String → Prop} {value ofKey : Option β} {key : String}
    (joins : Joins (worstRules rows edges rank own) keys value) (listed : keys key)
    (isOwn : (worstRules rows edges rank own).own key = some ofKey) :
    rankOf rank ofKey ≤ rankOf rank value := by
  apply joins.complete (fun value => rankOf rank ofKey ≤ rankOf rank value) _ key _ listed isOwn le_rfl
  intro best child either
  change _ ≤ rankOf rank (worse rank best child)
  rw [rankOf_worse]
  exact le_max_iff.mpr either

/-- The value is that of a row under the resource, and of the highest rank there. -/
structure Worst (rows : List Resource) (edges : List ResourceEdge) (rank : β → Nat)
    (own : Resource → Option β) (row : Resource) (value : Option β) : Prop where
  found : ∀ given, value = some given → ∃ lower, Under rows edges row lower ∧ own lower = some given
  highest : ∀ lower, Under rows edges row lower → rankOf rank (own lower) ≤ rankOf rank value
  itself : (∀ lower, Under rows edges row lower → rankOf rank (own lower) ≤ rankOf rank (own row)) →
    value = own row

/-- A joined value is the worst one. -/
theorem worst_of_joins (distinct : (rows.map (·.id)).Nodup) (member : row ∈ rows) {value : Option β}
    (joins : Joins (worstRules rows edges rank own)
      (AtOrBelow (worstRules rows edges rank own) row.id) value)
    (starts : StartsWith (worstRules rows edges rank own) row.id value) :
    Worst rows edges rank own row value := by
  constructor
  · intro given same
    obtain ⟨other, below, isOwn⟩ := found_of_joins joins same
    obtain ⟨lower, under, -, isValue⟩ := (atOrBelow_own_iff distinct).mp ⟨below, isOwn⟩
    exact ⟨lower, under, isValue⟩
  · intro lower under
    have below : AtOrBelow (worstRules rows edges rank own) row.id lower.id ∧
        (worstRules rows edges rank own).own lower.id = some (own lower) :=
      (atOrBelow_own_iff distinct).mpr ⟨lower, under, rfl, rfl⟩
    exact highest_of_joins joins below.1 below.2
  · intro most
    have isRow := (findRow_eq_some distinct).mpr ⟨member, rfl⟩
    have isOwn : (worstRules rows edges rank own).own row.id = some (own row) :=
      Option.map_eq_some_iff.mpr ⟨row, isRow, rfl⟩
    apply starts _ isOwn (· = own row) fun value => rankOf rank value ≤ rankOf rank (own row)
    · rfl
    · intro best child isBest least
      rw [isBest]
      exact worse_of_le least
    · exact Nat.zero_le _
    · intro best child ofBest ofChild
      change rankOf rank (worse rank best child) ≤ _
      rw [rankOf_worse]
      exact max_le ofBest ofChild
    · intro other value below isOther
      obtain ⟨lower, under, -, rfl⟩ := (atOrBelow_own_iff distinct).mp ⟨below, isOther⟩
      exact most lower under

end Worst

/-! ## The claim of the source -/

/-- Under `key` the metadata hold the value of highest rank under the resource, and none where
there is none. -/
structure Bubbled (rows : List Resource) (edges : List ResourceEdge) (key : String)
    (rank : String → Nat) (own : Resource → Option String) (row out : Resource) : Prop where
  highest : ∀ lower given, Under rows edges row lower → own lower = some given →
    ∃ value, out.metadata.field key = .str value ∧ rank given ≤ rank value
  found : ∀ lower given, Under rows edges row lower → own lower = some given →
    ∃ source value, Under rows edges row source ∧ own source = some value ∧
      out.metadata.field key = .str value
  none : (∀ lower, Under rows edges row lower → own lower = none) →
    (out.metadata.field key).isTruthy = false

/-- The name is that of a resource of the worst status at or under this one. -/
def Blames (rows : List Resource) (edges : List ResourceEdge) (row : Resource) (name : Json) : Prop :=
  ∃ lower status, Under rows edges row lower ∧ statusOf lower = some status ∧
    (∀ other given, Under rows edges row other → statusOf other = some given →
      statusRank given ≤ statusRank status) ∧ name = .str (displayName lower)

/-- Environment, status and source are summed up as they are under the resource. -/
structure Summarised (rows : List Resource) (edges : List ResourceEdge) (row out : Resource) : Prop where
  environment : Bubbled rows edges "bubbled_environment" envRank environmentOf row out
  status : Bubbled rows edges "bubbled_status" statusRank statusOf row out
  source : (out.metadata.field "bubbled_status_from").isTruthy = true →
    Blames rows edges row (out.metadata.field "bubbled_status_from")

/-- What the stored metadata hold under the keys of the summary does not show through. -/
structure Unstained (rows : List Resource) (edges : List ResourceEdge) (row : Resource) : Prop where
  environment : (∀ lower, Under rows edges row lower → environmentOf lower = none) →
    (row.metadata.field "bubbled_environment").isTruthy = false
  status : (∀ lower, Under rows edges row lower → statusOf lower = none) →
    (row.metadata.field "bubbled_status").isTruthy = false
  source : (row.metadata.field "bubbled_status_from").isTruthy = true →
    (∃ lower, Under rows edges row lower ∧
      rankOf statusRank (statusOf row) < rankOf statusRank (statusOf lower)) ∨
    Blames rows edges row (row.metadata.field "bubbled_status_from")

/-! ## One resource -/

theorem envRank_of_environmentOf {environment : String} (given : environmentOf row = some environment) :
    envRank environment ≠ 0 :=
  bne_iff_ne.mp (Option.filter_eq_some_iff.mp given).2

theorem statusRank_of_statusOf {status : String} (given : statusOf row = some status) :
    statusRank status ≠ 0 :=
  bne_iff_ne.mp (Option.filter_eq_some_iff.mp given).2

/-- A key that is written where there is a worst value is right unless the stored one shows. -/
theorem bubbled_iff (out : Resource) (key : String) {rank : String → Nat} {own : Resource → Option String}
    {value : Option String} (worst : Worst rows edges rank own row value)
    (ranked : ∀ lower given, own lower = some given → rank given ≠ 0)
    (written : out.metadata.field key = (value.map Json.str).getD (row.metadata.field key)) :
    Bubbled rows edges key rank own row out ↔
      ((∀ lower, Under rows edges row lower → own lower = none) →
        (row.metadata.field key).isTruthy = false) := by
  constructor
  · intro bubbled none
    cases value with
    | none =>
        have blank := bubbled.none none
        rwa [written] at blank
    | some value =>
        obtain ⟨source, under, given⟩ := worst.found value rfl
        cases (none source under).symm.trans given
  · intro unstained
    have shown (lower : Resource) (given : String) (under : Under rows edges row lower)
        (isOwn : own lower = some given) : ∃ best, value = some best ∧ rank given ≤ rank best := by
      have most := worst.highest lower under
      rw [isOwn] at most
      cases value with
      | none => exact absurd (Nat.le_zero.mp most) (ranked lower given isOwn)
      | some best => exact ⟨best, rfl, most⟩
    constructor
    · intro lower given under isOwn
      obtain ⟨best, rfl, most⟩ := shown lower given under isOwn
      exact ⟨best, written, most⟩
    · intro lower given under isOwn
      obtain ⟨best, rfl, -⟩ := shown lower given under isOwn
      obtain ⟨source, isUnder, isSource⟩ := worst.found best rfl
      exact ⟨source, best, isUnder, isSource, written⟩
    · intro none
      cases value with
      | none =>
          rw [written]
          exact unstained none
      | some value =>
          obtain ⟨source, under, given⟩ := worst.found value rfl
          cases (none source under).symm.trans given

theorem statusFrom_bare (lower : Resource) : (statusFrom lower).map Prod.fst = statusOf lower := by
  unfold statusFrom
  rw [Option.map_map]
  exact Option.map_id'

theorem rankOf_bare (found : Option (String × Resource)) :
    rankOf statusRank (found.map Prod.fst) = rankOf (fun found => statusRank found.1) found := by
  unfold rankOf
  rw [Option.map_map]
  rfl

/-- The worst status without its source. -/
theorem worst_status {rolled : Option (String × Resource)}
    (worst : Worst rows edges (fun found => statusRank found.1) statusFrom row rolled) :
    Worst rows edges statusRank statusOf row (rolled.map Prod.fst) := by
  constructor
  · intro status given
    obtain ⟨found, isFound, rfl⟩ := Option.map_eq_some_iff.mp given
    obtain ⟨lower, under, isOwn⟩ := worst.found found isFound
    refine ⟨lower, under, ?_⟩
    rw [← statusFrom_bare lower, isOwn]
    rfl
  · intro lower under
    rw [← statusFrom_bare lower, rankOf_bare, rankOf_bare]
    exact worst.highest lower under
  · intro most
    rw [← statusFrom_bare row]
    congr 1
    apply worst.itself
    intro lower under
    have least := most lower under
    rwa [← statusFrom_bare lower, ← statusFrom_bare row, rankOf_bare, rankOf_bare] at least

/-- The name that is blamed is right unless a stored one shows. -/
theorem source_iff (out : Resource) (distinct : (rows.map (·.id)).Nodup) (member : row ∈ rows)
    {rolled : Option (String × Resource)}
    (worst : Worst rows edges (fun found => statusRank found.1) statusFrom row rolled)
    (written : out.metadata.field "bubbled_status_from" =
      (((rolled.filter fun found => found.2.id != row.id).map fun found =>
        displayName found.2).map Json.str).getD (row.metadata.field "bubbled_status_from")) :
    ((out.metadata.field "bubbled_status_from").isTruthy = true →
        Blames rows edges row (out.metadata.field "bubbled_status_from")) ↔
      ((row.metadata.field "bubbled_status_from").isTruthy = true →
        (∃ lower, Under rows edges row lower ∧
          rankOf statusRank (statusOf row) < rankOf statusRank (statusOf lower)) ∨
        Blames rows edges row (row.metadata.field "bubbled_status_from")) := by
  have bare := worst_status worst
  -- where the row is blamed itself, or nothing is, nothing under it is worse
  have kept (least : rolled = none ∨ rolled.map Prod.fst = statusOf row)
      (same : out.metadata.field "bubbled_status_from" = row.metadata.field "bubbled_status_from") :
      ((out.metadata.field "bubbled_status_from").isTruthy = true →
          Blames rows edges row (out.metadata.field "bubbled_status_from")) ↔
        ((row.metadata.field "bubbled_status_from").isTruthy = true →
          (∃ lower, Under rows edges row lower ∧
            rankOf statusRank (statusOf row) < rankOf statusRank (statusOf lower)) ∨
          Blames rows edges row (row.metadata.field "bubbled_status_from")) := by
    rw [same]
    apply imp_congr_right
    intro _
    refine (or_iff_right fun worse => ?_).symm
    obtain ⟨lower, under, higher⟩ := worse
    have most := bare.highest lower under
    rcases least with none | isOwn
    · rw [none] at most
      exact absurd (Nat.le_zero.mp most) (Nat.ne_of_gt (Nat.zero_lt_of_lt higher))
    · rw [isOwn] at most
      exact absurd higher (Nat.not_lt.mpr most)
  cases rolled with
  | none => exact kept (Or.inl rfl) written
  | some found =>
      obtain ⟨lower, under, isOwn⟩ := worst.found found rfl
      obtain ⟨status, isStatus, rfl⟩ := Option.map_eq_some_iff.mp isOwn
      by_cases same : lower.id = row.id
      · have isRow := List.inj_on_of_nodup_map distinct under.1 member same
        refine kept (Or.inr ?_) ?_
        · rw [← isRow, isStatus]
          rfl
        · rw [written, Option.filter_some, if_neg (by simpa using same)]
          rfl
      · have blamed : out.metadata.field "bubbled_status_from" = .str (displayName lower) := by
          rw [written, Option.filter_some, if_pos (by simpa using same)]
          rfl
        apply iff_of_true
        · intro _
          refine ⟨lower, status, under, isStatus, ?_, blamed⟩
          intro other given isUnder isGiven
          have most := bare.highest other isUnder
          rwa [isGiven] at most
        · intro _
          apply Or.inl
          by_contra noWorse
          have itself : some (status, lower) = statusFrom row := by
            apply worst.itself
            intro other isUnder
            rw [← rankOf_bare, ← rankOf_bare, statusFrom_bare, statusFrom_bare]
            exact Nat.not_lt.mp fun higher => noWorse ⟨other, isUnder, higher⟩
          obtain ⟨_, _, pair⟩ := Option.map_eq_some_iff.mp itself.symm
          exact same (congrArg (fun found => found.2.id) pair).symm

/-! ## The loop -/

/-- A call for a row gives its worst value, whatever the calls before it left in the cache. -/
theorem worst_measure {β : Type} {rank : β → Nat} {own : Resource → Option β}
    (distinct : (rows.map (·.id)).Nodup) (member : row ∈ rows) {cache : List (String × Option β)}
    (exact : Exact (worstRules rows edges rank own) ⟨[], cache⟩) :
    Worst rows edges rank own row
        (measure (worstRules rows edges rank own) (depthOf rows) row.id ⟨[], cache⟩).1.1 ∧
      Exact (worstRules rows edges rank own)
        ⟨[], (measure (worstRules rows edges rank own) (depthOf rows) row.id ⟨[], cache⟩).2.cache⟩ := by
  have enough : (rows.map (·.id)).length < depthOf rows := by
    rw [List.length_map]
    exact Nat.lt_succ_self _
  obtain ⟨kept, joins, starts⟩ := measure_call (fun _ there => mem_of_rulesOf there) exact enough
  exact ⟨worst_of_joins distinct member joins starts, kept⟩

theorem summarised_iff (distinct : (rows.map (·.id)).Nodup) (member : row ∈ rows) {caches : Caches}
    (environments : Exact (environmentRules rows edges) ⟨[], caches.environments⟩)
    (statuses : Exact (statusRules rows edges) ⟨[], caches.statuses⟩) :
    Summarised rows edges row (bubble rows edges caches row).1 ↔ Unstained rows edges row := by
  have environment := (worst_measure distinct member environments).1
  have status := (worst_measure distinct member statuses).1
  let out := (bubble rows edges caches row).1
  have ofEnvironment := bubbled_iff out "bubbled_environment" environment
    (fun _ _ given => envRank_of_environmentOf given) (field_withBubbled _ _ _ _ _)
  have ofStatus := bubbled_iff out "bubbled_status" (worst_status status)
    (fun _ _ given => statusRank_of_statusOf given) (field_withBubbled _ _ _ _ _)
  have ofSource := source_iff out distinct member status (field_withBubbled _ _ _ _ _)
  constructor
  · intro summarised
    exact ⟨ofEnvironment.mp summarised.environment, ofStatus.mp summarised.status,
      ofSource.mp summarised.source⟩
  · intro unstained
    exact ⟨ofEnvironment.mpr unstained.environment, ofStatus.mpr unstained.status,
      ofSource.mpr unstained.source⟩

/-- A host without an environment whose stored metadata hold a bubbled one. -/
def staleHost : Resource where
  id := "host"
  kind := "host"
  name := "dl380"
  slug := "dl380"
  description := none
  createdBy := none
  metadata := AList.insert "bubbled_environment" (.str "prod") ∅

end ThetaDirectory.Bubbling
