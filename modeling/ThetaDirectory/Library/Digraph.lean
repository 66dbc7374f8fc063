import Mathlib.Logic.Relation

/-!
# Acyclic relations

A relation stays acyclic when pairs are removed and when a pair is added whose end
does not lead back to its start.  A set closed under predecessors keeps away from the
pairs that end outside it.
-/

namespace ThetaDirectory.Library

open Relation

variable {α : Type*} {step bigger : α → α → Prop}

/-- No key leads back to itself. -/
def Acyclic (step : α → α → Prop) : Prop := ∀ key, ¬ TransGen step key key

/-- The set contains the predecessors of its members. -/
def UpClosed (above : α → Prop) (step : α → α → Prop) : Prop :=
  ∀ {start finish}, step start finish → above finish → above start

theorem Acyclic.mono (acyclic : Acyclic bigger) (sub : ∀ start finish, step start finish →
    bigger start finish) : Acyclic step :=
  fun key cycle => acyclic key (TransGen.mono sub _ _ cycle)

/-- A relation along which a rank falls is acyclic. -/
theorem Acyclic.of_rank (rank : α → Nat)
    (falls : ∀ start finish, step start finish → rank finish < rank start) : Acyclic step := by
  have lower : ∀ {start finish}, TransGen step start finish → rank finish < rank start := by
    intro start finish path
    induction path with
    | single edge => exact falls _ _ edge
    | tail _ last ih => exact Nat.lt_trans (falls _ _ last) ih
  exact fun key cycle => Nat.lt_irrefl _ (lower cycle)

theorem UpClosed.mono {above : α → Prop} (closed : UpClosed above bigger)
    (sub : ∀ start finish, step start finish → bigger start finish) : UpClosed above step :=
  fun edge member => closed (sub _ _ edge) member

/-- Whatever leads to a member of a closed set is a member. -/
theorem UpClosed.of_path {above : α → Prop} (closed : UpClosed above step) {start finish : α}
    (path : ReflTransGen step start finish) (member : above finish) : above start := by
  induction path with
  | refl => exact member
  | tail _ last ih => exact ih (closed last member)

/-- The keys that lead to a key are a closed set. -/
theorem upClosed_ancestors (step : α → α → Prop) (key : α) :
    UpClosed (fun start => ReflTransGen step start key) step :=
  fun edge path => .head edge path

/-- A path that may use one more pair avoids it, or first leads to its start and last
leaves its end. -/
theorem path_of_insert {parent child : α} (sub : ∀ start finish, bigger start finish →
    step start finish ∨ start = parent ∧ finish = child) {start finish : α}
    (path : TransGen bigger start finish) :
    TransGen step start finish ∨
      ReflTransGen step start parent ∧ ReflTransGen step child finish := by
  induction path with
  | single edge =>
      rcases sub _ _ edge with old | ⟨rfl, rfl⟩
      · exact Or.inl (.single old)
      · exact Or.inr ⟨.refl, .refl⟩
  | tail _ last ih =>
      rcases sub _ _ last with old | ⟨rfl, rfl⟩
      · rcases ih with direct | ⟨before, after⟩
        · exact Or.inl (direct.tail old)
        · exact Or.inr ⟨before, after.tail old⟩
      · rcases ih with direct | ⟨before, -⟩
        · exact Or.inr ⟨direct.to_reflTransGen, .refl⟩
        · exact Or.inr ⟨before, .refl⟩

/-- Adding a pair keeps a relation acyclic when its end does not lead to its start. -/
theorem Acyclic.insert {parent child : α} (acyclic : Acyclic step)
    (apart : ¬ ReflTransGen step child parent)
    (sub : ∀ start finish, bigger start finish →
      step start finish ∨ start = parent ∧ finish = child) : Acyclic bigger := by
  intro key cycle
  rcases path_of_insert sub cycle with old | ⟨before, after⟩
  · exact acyclic key old
  · exact apart (after.trans before)

/-- A set closed under predecessors stays closed when the added pairs end outside. -/
theorem UpClosed.insert {above : α → Prop} (closed : UpClosed above step)
    (sub : ∀ start finish, bigger start finish → step start finish ∨ ¬ above finish) :
    UpClosed above bigger := by
  intro start finish edge member
  rcases sub start finish edge with old | outside
  · exact closed old member
  · exact absurd member outside

/-- Adding any number of pairs that start in a closed set and end outside it keeps a
relation acyclic. -/
theorem Acyclic.insert_below {above : α → Prop} (acyclic : Acyclic step)
    (closed : UpClosed above step)
    (sub : ∀ start finish, bigger start finish →
      step start finish ∨ above start ∧ ¬ above finish) : Acyclic bigger := by
  have stillClosed : UpClosed above bigger :=
    closed.insert fun start finish edge => (sub start finish edge).imp_right And.right
  -- a path without added pairs, or one that leaves the set for good
  have split : ∀ {start finish}, TransGen bigger start finish →
      TransGen step start finish ∨ above start ∧ ¬ above finish := by
    intro start finish path
    induction path with
    | single edge => exact (sub _ _ edge).imp_left TransGen.single
    | @tail middle finish before last ih =>
        rcases sub _ _ last with old | ⟨inside, outside⟩
        · rcases ih with direct | ⟨inside, outside⟩
          · exact Or.inl (direct.tail old)
          · exact Or.inr ⟨inside, fun member => outside (closed old member)⟩
        · exact Or.inr ⟨stillClosed.of_path before.to_reflTransGen inside, outside⟩
  intro key cycle
  rcases split cycle with old | ⟨inside, outside⟩
  · exact acyclic key old
  · exact outside inside

end ThetaDirectory.Library
