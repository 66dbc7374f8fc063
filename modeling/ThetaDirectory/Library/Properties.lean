import Mathlib.Data.List.Lex
import Mathlib.Data.List.Nodup
import Mathlib.Order.Basic
import ThetaDirectory.Library.Utf16

/-!
# Properties of an object

The properties of an ECMAScript object as a list of keys and values, in the order they were set.
A key reads as its first entry.  The own properties come with the array indices in front.
-/

namespace ThetaDirectory.Library.Properties

open Utf16

universe u v

variable {α : Type u} {β : Type v}

/-- The array index that a key is. -/
def indexOf (key : Units) : Option Nat :=
  let number := key.foldl (fun number unit => number * 10 + (unit.toNat - 48)) 0
  if key = ofString (toString number) ∧ number < 4294967295 then some number else none

/-- The first entry of each key. -/
def distinct : List (Units × α) → List (Units × α)
  | [] => []
  | field :: fields => field :: (distinct fields).filter (·.1 != field.1)

def leIndex (field other : Units × α) : Bool :=
  (indexOf field.1).getD 0 ≤ (indexOf other.1).getD 0

/-- `OrdinaryOwnPropertyKeys`: array indices in their order, then the others as they were set. -/
def ownFields (fields : List (Units × α)) : List (Units × α) :=
  let own := distinct fields
  (own.filter fun field => (indexOf field.1).isSome).mergeSort leIndex ++
    own.filter fun field => (indexOf field.1).isNone

/-- The order of `sort` on strings, by code units. -/
def leKey (field other : Units × α) : Bool :=
  field.1.map UInt16.toNat ≤ other.1.map UInt16.toNat

variable {fields others : List (Units × α)} {key : Units} {value : α}

/-! ## Reading -/

def keys (fields : List (Units × α)) : List Units := fields.map Prod.fst

theorem lookup_filter (keep : Units → Bool) :
    (fields.filter fun field => keep field.1).lookup key =
      if keep key then fields.lookup key else none := by
  induction fields with
  | nil => simp
  | cons field fields ih =>
      by_cases same : key = field.1
      · subst same
        cases kept : keep field.1 with
        | true =>
            rw [List.filter_cons_of_pos (by exact kept), List.lookup_cons, List.lookup_cons]
            simp
        | false =>
            rw [List.filter_cons_of_neg (by simp [kept]), ih, kept]
            simp
      · have other : (key == field.1) = false := beq_eq_false_iff_ne.mpr same
        have skip : (field :: fields).lookup key = fields.lookup key := by
          rw [List.lookup_cons, other]
        rw [skip, ← ih]
        cases kept : keep field.1 with
        | true => rw [List.filter_cons_of_pos (by exact kept), List.lookup_cons, other]
        | false => rw [List.filter_cons_of_neg (by simp [kept])]

theorem mem_of_lookup (found : fields.lookup key = some value) : (key, value) ∈ fields := by
  obtain ⟨front, back, listed, -⟩ := List.lookup_eq_some_iff.mp found
  rw [listed]
  exact List.mem_append_right front List.mem_cons_self

theorem lookup_distinct (fields : List (Units × α)) (key : Units) :
    (distinct fields).lookup key = fields.lookup key := by
  induction fields with
  | nil => rfl
  | cons field fields ih =>
      rw [distinct, List.lookup_cons, List.lookup_cons]
      cases same : key == field.1 with
      | true => rfl
      | false =>
          dsimp only
          rw [lookup_filter fun other => other != field.1, if_pos (by simp [bne, same]), ih]

theorem nodup_distinct (fields : List (Units × α)) : (keys (distinct fields)).Nodup := by
  induction fields with
  | nil => exact List.nodup_nil
  | cons field fields ih =>
      apply List.nodup_cons.mpr
      constructor
      · intro member
        obtain ⟨other, kept, same⟩ := List.mem_map.mp member
        have different := (List.mem_filter.mp kept).2
        rw [same] at different
        simp at different
      · exact ih.sublist (List.filter_sublist.map _)

theorem mem_iff_lookup (nodup : (keys fields).Nodup) :
    (key, value) ∈ fields ↔ fields.lookup key = some value := by
  induction fields with
  | nil => simp
  | cons field fields ih =>
      obtain ⟨fresh, rest⟩ := List.nodup_cons.mp nodup
      rw [List.mem_cons, List.lookup_cons]
      cases same : key == field.1 with
      | true =>
          have equal : key = field.1 := eq_of_beq same
          subst equal
          dsimp only
          constructor
          · rintro (here | later)
            · rw [← here]
            · exact absurd (List.mem_map.mpr ⟨_, later, rfl⟩) fresh
          · intro found
            cases found
            exact Or.inl rfl
      | false =>
          dsimp only
          rw [← ih rest]
          constructor
          · rintro (here | later)
            · rw [← here] at same
              simp at same
            · exact later
          · exact Or.inr

theorem lookup_perm (perm : fields.Perm others) (nodup : (keys fields).Nodup) :
    fields.lookup key = others.lookup key := by
  have both : (keys others).Nodup := (perm.map Prod.fst).nodup_iff.mp nodup
  apply Option.ext
  intro value
  rw [← mem_iff_lookup nodup, ← mem_iff_lookup both, perm.mem_iff]

theorem perm_ownFields (fields : List (Units × α)) : (ownFields fields).Perm (distinct fields) := by
  have split := List.filter_append_perm (fun field : Units × α => (indexOf field.1).isSome)
    (distinct fields)
  refine ((List.mergeSort_perm _ _).append_right _).trans (List.Perm.trans ?_ split)
  apply List.Perm.append_left
  apply List.Perm.of_eq
  apply List.filter_congr
  intro field _
  cases indexOf field.1 <;> rfl

theorem nodup_ownFields (fields : List (Units × α)) : (keys (ownFields fields)).Nodup :=
  ((perm_ownFields fields).map Prod.fst).nodup_iff.mpr (nodup_distinct fields)

theorem lookup_ownFields (fields : List (Units × α)) (key : Units) :
    (ownFields fields).lookup key = fields.lookup key :=
  (lookup_perm (perm_ownFields fields) (nodup_ownFields fields)).trans (lookup_distinct fields key)

/-! ## Values that are mapped -/

/-- Change the values. -/
def mapValues (change : α → β) (fields : List (Units × α)) : List (Units × β) :=
  fields.map fun field => (field.1, change field.2)

variable {change : α → β}

theorem lookup_mapValues (fields : List (Units × α)) (key : Units) :
    (mapValues change fields).lookup key = (fields.lookup key).map change := by
  induction fields with
  | nil => rfl
  | cons field fields ih =>
      change ((field.1, change field.2) :: mapValues change fields).lookup key = _
      rw [List.lookup_cons, List.lookup_cons, ih]
      cases key == field.1 <;> rfl

theorem filter_mapValues (keep : Units → Bool) (fields : List (Units × α)) :
    (mapValues change fields).filter (fun field => keep field.1) =
      mapValues change (fields.filter fun field => keep field.1) :=
  List.filter_map

theorem distinct_mapValues (fields : List (Units × α)) :
    distinct (mapValues change fields) = mapValues change (distinct fields) := by
  induction fields with
  | nil => rfl
  | cons field fields ih =>
      change (field.1, change field.2) :: (distinct (mapValues change fields)).filter _ = _
      rw [ih, filter_mapValues fun key => key != field.1]
      rfl

theorem ownFields_mapValues (fields : List (Units × α)) :
    ownFields (mapValues change fields) = mapValues change (ownFields fields) := by
  unfold ownFields
  dsimp only
  rw [distinct_mapValues, filter_mapValues fun key => (indexOf key).isSome,
    filter_mapValues fun key => (indexOf key).isNone]
  refine (congrArg (· ++ _) ?_).trans List.map_append.symm
  exact (@List.map_mergeSort _ _ leIndex leIndex (fun field : Units × α => (field.1, change field.2))
    _ fun _ _ _ _ => rfl).symm

/-! ## Setting -/

/-- A key that is there keeps its place. -/
def assign : List (Units × α) → Units × α → List (Units × α)
  | [], field => [field]
  | own :: fields, field => if own.1 = field.1 then field :: fields else own :: assign fields field

theorem lookup_assign (fields : List (Units × α)) (field : Units × α) :
    (assign fields field).lookup key =
      if key = field.1 then some field.2 else fields.lookup key := by
  induction fields with
  | nil =>
      rw [assign, List.lookup_cons, List.lookup_nil]
      cases same : key == field.1 with
      | true => rw [if_pos (eq_of_beq same)]
      | false => rw [if_neg (ne_of_beq_false same)]
  | cons own fields ih =>
      unfold assign
      split
      · rename_i found
        rw [List.lookup_cons, List.lookup_cons, found]
        cases same : key == field.1 with
        | true => rw [if_pos (eq_of_beq same)]
        | false => rw [if_neg (ne_of_beq_false same)]
      · rename_i other
        rw [List.lookup_cons, List.lookup_cons, ih]
        cases same : key == own.1 with
        | true => exact (if_neg fun equal => other ((eq_of_beq same).symm.trans equal)).symm
        | false => rfl

theorem lookup_foldl_assign (others fields : List (Units × α)) (key : Units) :
    (others.foldl assign fields).lookup key =
      (others.reverse.lookup key).or (fields.lookup key) := by
  induction others generalizing fields with
  | nil => rfl
  | cons field others ih =>
      rw [List.foldl_cons, ih, lookup_assign, List.reverse_cons, List.lookup_append, Option.or_assoc,
        List.lookup_cons, List.lookup_nil]
      cases same : key == field.1 with
      | true => rw [if_pos (eq_of_beq same)]; rfl
      | false => rw [if_neg (ne_of_beq_false same)]; rfl

/-! ## One order -/

theorem indexOf_inj {other : Units} {number : Nat} (own : indexOf key = some number)
    (same : indexOf other = some number) : key = other := by
  have text {key : Units} (index : indexOf key = some number) : key = ofString (toString number) := by
    unfold indexOf at index
    dsimp only at index
    split at index
    · rename_i canonical
      cases index
      exact canonical.1
    · cases index
  rw [text own, text same]

theorem map_toNat_inj {other : Units}
    (same : key.map UInt16.toNat = other.map UInt16.toNat) : key = other :=
  List.map_injective_iff.mpr (fun _ _ => UInt16.toNat_inj.mp) same

theorem leKey_antisymm {field other : Units × α} (le : leKey field other = true)
    (ge : leKey other field = true) : field.1 = other.1 :=
  map_toNat_inj (le_antisymm (of_decide_eq_true le) (of_decide_eq_true ge))

theorem pairwise_sorted (fields : List (Units × α)) :
    (fields.mergeSort leKey).Pairwise fun field other => leKey field other = true := by
  apply List.pairwise_mergeSort
  · intro field other last le next
    exact decide_eq_true (le_trans (of_decide_eq_true le) (of_decide_eq_true next))
  · intro field other
    rw [Bool.or_eq_true]
    exact (le_total _ _).imp decide_eq_true decide_eq_true

theorem pairwise_index (fields : List (Units × α)) :
    (fields.mergeSort leIndex).Pairwise fun field other => leIndex field other = true := by
  apply List.pairwise_mergeSort
  · intro field other last le next
    exact decide_eq_true (Nat.le_trans (of_decide_eq_true le) (of_decide_eq_true next))
  · intro field other
    rw [Bool.or_eq_true]
    exact (Nat.le_total _ _).imp decide_eq_true decide_eq_true

theorem sublist_distinct (fields : List (Units × α)) : (distinct fields).Sublist fields := by
  induction fields with
  | nil => exact List.Sublist.refl _
  | cons field fields ih => exact (List.filter_sublist.trans ih).cons_cons field

theorem eq_of_key (nodup : (keys fields).Nodup) {field other : Units × α} (member : field ∈ fields)
    (memberOther : other ∈ fields) (same : field.1 = other.1) : field = other := by
  obtain ⟨key, value⟩ := field
  obtain ⟨_, second⟩ := other
  cases same
  have found := (mem_iff_lookup nodup).mp member
  rw [(mem_iff_lookup nodup).mp memberOther] at found
  cases found
  rfl

theorem perm_distinct (same : ∀ key, fields.lookup key = others.lookup key) :
    (distinct fields).Perm (distinct others) := by
  apply (List.perm_ext_iff_of_nodup (List.Nodup.of_map _ (nodup_distinct fields))
    (List.Nodup.of_map _ (nodup_distinct others))).mpr
  rintro ⟨key, value⟩
  rw [mem_iff_lookup (nodup_distinct fields), mem_iff_lookup (nodup_distinct others),
    lookup_distinct, lookup_distinct, same]

/-- Sorted properties that read the same come as the same list. -/
theorem ownFields_eq
    (sorted : fields.Pairwise fun field other => leKey field other = true)
    (sortedOthers : others.Pairwise fun field other => leKey field other = true)
    (same : ∀ key, fields.lookup key = others.lookup key) : ownFields fields = ownFields others := by
  have perm := perm_distinct same
  have one {field other : Units × α} (member : field ∈ distinct fields)
      (memberOther : other ∈ distinct others) (sameKey : field.1 = other.1) : field = other :=
    eq_of_key (nodup_distinct fields) member (perm.mem_iff.mpr memberOther) sameKey
  unfold ownFields
  dsimp only
  congr 1
  · refine List.Perm.eq_of_pairwise ?_ (pairwise_index _) (pairwise_index _) ?_
    · intro field other member memberOther le ge
      obtain ⟨listed, index⟩ := List.mem_filter.mp (List.mem_mergeSort.mp member)
      obtain ⟨listedOther, indexOther⟩ := List.mem_filter.mp (List.mem_mergeSort.mp memberOther)
      obtain ⟨number, found⟩ := Option.isSome_iff_exists.mp index
      obtain ⟨second, foundOther⟩ := Option.isSome_iff_exists.mp indexOther
      have low := of_decide_eq_true le
      have high := of_decide_eq_true ge
      rw [found, foundOther] at low high
      have equal : second = number := Nat.le_antisymm high low
      subst equal
      exact one listed listedOther (indexOf_inj found foundOther)
    · exact (List.mergeSort_perm _ _).trans ((perm.filter _).trans (List.mergeSort_perm _ _).symm)
  · refine List.Perm.eq_of_pairwise ?_
      (sorted.sublist (List.filter_sublist.trans (sublist_distinct fields)))
      (sortedOthers.sublist (List.filter_sublist.trans (sublist_distinct others))) ?_
    · intro field other member memberOther le ge
      exact one (List.mem_filter.mp member).1 (List.mem_filter.mp memberOther).1
        (leKey_antisymm le ge)
    · exact perm.filter _

end ThetaDirectory.Library.Properties
