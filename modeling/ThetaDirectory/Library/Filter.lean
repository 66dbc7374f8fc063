import Mathlib.Data.List.Basic

/-!
# Search filters

Filters built from conjunction, disjunction, negation, equality and presence,
and their truth under a reading of the leaves.
-/

namespace ThetaDirectory.Library

/-- A search filter. -/
inductive Filter where
  | and (filters : List Filter)
  | or (filters : List Filter)
  | not (filter : Filter)
  | equality (attrName value : String)
  | presence (attrName : String)
  deriving Repr, Inhabited

/-- A reading of the leaves. -/
structure Reading where
  equality : String → String → Bool
  presence : String → Bool

namespace Filter

mutual

/-- The truth of a filter.  An empty conjunction is true and an empty disjunction
is false. -/
def eval (reading : Reading) : Filter → Bool
  | and filters => evalAll reading filters
  | or filters => evalAny reading filters
  | not filter => !eval reading filter
  | equality attrName value => reading.equality attrName value
  | presence attrName => reading.presence attrName

def evalAll (reading : Reading) : List Filter → Bool
  | [] => true
  | filter :: filters => eval reading filter && evalAll reading filters

def evalAny (reading : Reading) : List Filter → Bool
  | [] => false
  | filter :: filters => eval reading filter || evalAny reading filters

end

mutual

/-- Every equality leaf satisfies a condition. -/
def AllEqualities (P : String → String → Prop) : Filter → Prop
  | and filters | or filters => AllEqualitiesOf P filters
  | not filter => AllEqualities P filter
  | equality attrName value => P attrName value
  | presence _ => True

def AllEqualitiesOf (P : String → String → Prop) : List Filter → Prop
  | [] => True
  | filter :: filters => AllEqualities P filter ∧ AllEqualitiesOf P filters

end

/-- Two readings agree on presence and on the equalities that satisfy a
condition. -/
structure AgreeOn (P : String → String → Prop) (left right : Reading) : Prop where
  equality : ∀ attrName value, P attrName value →
    left.equality attrName value = right.equality attrName value
  presence : left.presence = right.presence

section Congruence

variable {P : String → String → Prop} {left right : Reading}

mutual

/-- Readings that agree on the leaves of a filter give it the same truth. -/
theorem eval_congr (agree : AgreeOn P left right) (filter : Filter)
    (leaves : filter.AllEqualities P) : eval left filter = eval right filter := by
  cases filter with
  | and filters =>
      simp only [AllEqualities] at leaves
      simp only [eval]
      exact evalAll_congr agree filters leaves
  | or filters =>
      simp only [AllEqualities] at leaves
      simp only [eval]
      exact evalAny_congr agree filters leaves
  | not filter =>
      simp only [AllEqualities] at leaves
      simp only [eval]
      rw [eval_congr agree filter leaves]
  | equality attrName value =>
      simp only [AllEqualities] at leaves
      simp only [eval]
      exact agree.equality attrName value leaves
  | presence attrName => simp only [eval, agree.presence]

theorem evalAll_congr (agree : AgreeOn P left right) (filters : List Filter)
    (leaves : AllEqualitiesOf P filters) : evalAll left filters = evalAll right filters := by
  cases filters with
  | nil => rfl
  | cons filter filters =>
      simp only [AllEqualitiesOf] at leaves
      simp only [evalAll]
      rw [eval_congr agree filter leaves.1, evalAll_congr agree filters leaves.2]

theorem evalAny_congr (agree : AgreeOn P left right) (filters : List Filter)
    (leaves : AllEqualitiesOf P filters) : evalAny left filters = evalAny right filters := by
  cases filters with
  | nil => rfl
  | cons filter filters =>
      simp only [AllEqualitiesOf] at leaves
      simp only [evalAny]
      rw [eval_congr agree filter leaves.1, evalAny_congr agree filters leaves.2]

end

end Congruence

end Filter

end ThetaDirectory.Library
