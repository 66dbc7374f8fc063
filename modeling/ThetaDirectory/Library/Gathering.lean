import ThetaDirectory.Library.DepthFirst
import Mathlib.Data.List.Infix

/-!
# Values gathered over a graph

Recursions that join the own value of a key with the values of its successors, with a set of the
keys visited and a cache.  `gather` caches every value it finishes: it joins what is reached along
steps that do not turn back to a key the walk came through.  `measure` does not cache a value that
was cut short: it joins what is reached at all.
-/

namespace ThetaDirectory.Library

namespace Gathering

variable {κ α : Type*}

/-- What is gathered: the successors of a key, the own value of a key that is there, and how two
values are joined. -/
structure Rules (κ α : Type*) where
  next : κ → List κ
  own : κ → Option α
  join : α → α → α
  nothing : α

/-- The keys visited by one call and the values finished so far. -/
structure Memo (κ α : Type*) where
  visited : List κ
  cache : List (κ × α)

variable (rules : Rules κ α)

/-! ## Joined values -/

/-- The value joins the own values of the keys. -/
structure Joins (keys : κ → Prop) (value : α) : Prop where
  sound : ∀ holds : α → Prop, holds rules.nothing →
    (∀ first second, holds first → holds second → holds (rules.join first second)) →
      (∀ key own, keys key → rules.own key = some own → holds own) → holds value
  complete : ∀ holds : α → Prop,
    (∀ first second, holds first ∨ holds second → holds (rules.join first second)) →
      ∀ key own, keys key → rules.own key = some own → holds own → holds value

namespace Joins

variable {rules} {keys other : κ → Prop} {value more : α}

theorem congr (joins : Joins rules keys value) (same : ∀ key, keys key ↔ other key) :
    Joins rules other value :=
  funext (fun key => propext (same key)) ▸ joins

theorem nothing (missing : ∀ key, keys key → rules.own key = none) :
    Joins rules keys rules.nothing := by
  constructor
  · exact fun _ empty _ _ => empty
  · intro _ _ key _ listed own
    cases (missing key listed).symm.trans own

theorem single {key : κ} (own : rules.own key = some value) : Joins rules (· = key) value := by
  constructor
  · intro holds _ _ each
    exact each key value rfl own
  · intro holds _ other value' same own' has
    rw [same, own] at own'
    exact Option.some.inj own' ▸ has

theorem join (joins : Joins rules keys value) (further : Joins rules other more) :
    Joins rules (fun key => keys key ∨ other key) (rules.join value more) := by
  constructor
  · intro holds empty closed each
    exact closed _ _ (joins.sound holds empty closed fun key own listed => each key own (Or.inl listed))
      (further.sound holds empty closed fun key own listed => each key own (Or.inr listed))
  · intro holds up key own listed isOwn has
    rcases listed with inFirst | inSecond
    · exact up _ _ (Or.inl (joins.complete holds up key own inFirst isOwn has))
    · exact up _ _ (Or.inr (further.complete holds up key own inSecond isOwn has))

end Joins

/-! ## Steps -/

/-- A step that does not turn back. -/
def Onward (ways : List (List κ)) (start finish : κ) : Prop :=
  finish ∈ rules.next start ∧ ∃ way ∈ ways, way.head? = some start ∧ finish ∉ way

/-- A step down from a key that is there. -/
def Below (start finish : κ) : Prop :=
  (rules.own start).isSome = true ∧ finish ∈ rules.next start

/-- What is at or below a key. -/
def AtOrBelow (key other : κ) : Prop :=
  Relation.ReflTransGen (Below rules) key other

/-- The keys reached without turning back. -/
def Counts (ways : List (List κ)) (key other : κ) : Prop :=
  Relation.ReflTransGen (Onward rules ways) key other

/-- A way leads to the key. -/
def Entered (ways : List (List κ)) (key : κ) : Prop := ∃ way ∈ ways, way.head? = some key

/-- One way leads to each key that is entered, and the key is there. -/
structure Ways (ways : List (List κ)) : Prop where
  unique : ∀ way ∈ ways, ∀ other ∈ ways, way.head? = other.head? → way = other
  stored : ∀ key, Entered ways key → (rules.own key).isSome = true

/-- What is counted for a key is itself and what is counted for its successors, but for those that
turn back. -/
theorem counts_iff {rules : Rules κ α} {final : List (List κ)} (isFinal : Ways rules final) {key : κ}
    {stack : List κ} (way : key :: stack ∈ final) (other : κ) :
    Counts rules final key other ↔ other = key ∨
      ∃ child ∈ rules.next key, child ∉ key :: stack ∧ Counts rules final child other := by
  unfold Counts
  rw [Relation.ReflTransGen.cases_head_iff, eq_comm]
  apply or_congr_right
  apply exists_congr
  intro child
  rw [← and_assoc]
  apply and_congr_left
  intro _
  apply and_congr_right
  intro _
  constructor
  · intro onward
    obtain ⟨found, listed, leads, misses⟩ := onward
    rwa [isFinal.unique found listed _ way leads] at misses
  · intro misses
    exact ⟨_, way, rfl, misses⟩

theorem ways_nil {rules : Rules κ α} : Ways rules [] where
  unique := List.forall_mem_nil _
  stored := fun _ entered => Exists.elim entered fun _ listed => absurd listed.1 List.not_mem_nil

theorem atOrBelow_missing {rules : Rules κ α} {key other : κ} (missing : rules.own key = none)
    (below : AtOrBelow rules key other) : other = key := by
  rcases Relation.ReflTransGen.cases_head below with same | first
  · exact same.symm
  · obtain ⟨_, step, _⟩ := first
    have there := step.1
    rw [missing] at there
    cases there

theorem atOrBelow_iff {rules : Rules κ α} {key : κ} (there : (rules.own key).isSome = true)
    (other : κ) : AtOrBelow rules key other ↔ other = key ∨
      ∃ child ∈ rules.next key, AtOrBelow rules child other := by
  unfold AtOrBelow
  rw [Relation.ReflTransGen.cases_head_iff, eq_comm]
  apply or_congr_right
  apply exists_congr
  intro child
  exact and_congr_left fun _ => and_iff_right there

/-! ## Cycles -/

/-- The keys of each way are above the one it leads to. -/
def Leading (ways : List (List κ)) : Prop :=
  ∀ way ∈ ways, ∀ key, way.head? = some key → ∀ other ∈ way, AtOrBelow rules other key

theorem below_of_onward {rules : Rules κ α} {ways : List (List κ)} (isWays : Ways rules ways) {start finish : κ}
    (onward : Onward rules ways start finish) : Below rules start finish := by
  obtain ⟨next, way, listed, leads, -⟩ := onward
  exact ⟨isWays.stored start ⟨way, listed, leads⟩, next⟩

/-- What counts is at or below. -/
theorem atOrBelow_of_counts {rules : Rules κ α} {ways : List (List κ)} (isWays : Ways rules ways) {key other : κ}
    (counts : Counts rules ways key other) : AtOrBelow rules key other :=
  Relation.ReflTransGen.mono (fun _ _ onward => below_of_onward isWays onward) _ _ counts

/-- Without cycles everything that is below counts. -/
theorem counts_of_atOrBelow {rules : Rules κ α} {ways : List (List κ)} (leading : Leading rules ways)
    (entered : ∀ key, (rules.own key).isSome = true → Entered ways key)
    (acyclic : ∀ key, ¬ Relation.TransGen (Below rules) key key) {key other : κ}
    (below : AtOrBelow rules key other) : Counts rules ways key other := by
  refine Relation.ReflTransGen.mono ?_ _ _ below
  intro start finish step
  obtain ⟨way, listed, leads⟩ := entered start step.1
  refine ⟨step.2, way, listed, leads, fun turnsBack => acyclic finish ?_⟩
  exact Relation.TransGen.tail' (leading way listed start leads finish turnsBack) step

/-! ## The recursions -/

variable [DecidableEq κ]

/-- Gather, and cache every value. -/
def gather : Nat → κ → Memo κ α → α × Memo κ α
  | 0, _, memo => (rules.nothing, memo)
  | depth + 1, key, memo =>
      match memo.cache.lookup key with
      | some value => (value, memo)
      | none =>
          if key ∈ memo.visited then (rules.nothing, memo)
          else
            match rules.own key with
            | none => (rules.nothing, { memo with visited := key :: memo.visited })
            | some first =>
                let result := (rules.next key).foldl (fun (state : α × Memo κ α) child =>
                    let found := gather depth child state.2
                    (rules.join state.1 found.1, found.2))
                  (first, { memo with visited := key :: memo.visited })
                (result.1, { result.2 with cache := (key, result.1) :: result.2.cache })

/-- Gather, and cache the values that were not cut short. -/
def measure : Nat → κ → Memo κ α → (α × Bool) × Memo κ α
  | 0, _, memo => ((rules.nothing, true), memo)
  | depth + 1, key, memo =>
      match memo.cache.lookup key with
      | some value => ((value, false), memo)
      | none =>
          if key ∈ memo.visited then ((rules.nothing, true), memo)
          else
            match rules.own key with
            | none => ((rules.nothing, false), { memo with visited := key :: memo.visited })
            | some first =>
                let result := (rules.next key).foldl (fun (state : (α × Bool) × Memo κ α) child =>
                    let found := measure depth child state.2
                    ((rules.join state.1.1 found.1.1, state.1.2 || found.1.2), found.2))
                  ((first, false), { memo with visited := key :: memo.visited })
                if result.1.2 then result
                else (result.1, { result.2 with cache := (key, result.1.1) :: result.2.cache })

/-! ## The walk behind it -/

/-- The way to each key that is there, when it is entered first: the key and those the walk came
through. -/
def trail : Nat → List κ → κ → List (List κ) → List (List κ)
  | 0, _, _, ways => ways
  | depth + 1, stack, key, ways =>
      if (rules.own key).isNone ∨ ∃ way ∈ ways, way.head? = some key then ways
      else (rules.next key).foldl (fun ways child => trail depth (key :: stack) child ways)
        ((key :: stack) :: ways)

/-- The ways of calls for several keys. -/
def trails (depth : Nat) (keys : List κ) : List (List κ) :=
  keys.foldl (fun ways key => trail rules depth [] key ways) []

/-! ## What is gathered -/

/-- The memo of a walk that is below the keys of the stack. -/
structure Tracks (final : List (List κ)) (stack : List κ) (ways : List (List κ))
    (memo : Memo κ α) : Prop where
  cached : ∀ key, (memo.cache.lookup key).isSome = true ↔ Entered ways key ∧ key ∉ stack
  onStack : ∀ key ∈ stack, key ∈ memo.visited ∧ Entered ways key
  visited : ∀ key ∈ memo.visited, (rules.own key).isSome = true → Entered ways key
  exact : ∀ key value, memo.cache.lookup key = some value → Joins rules (Counts rules final key) value

/-- The walk along several successors. -/
def trailAll (depth : Nat) (stack keys : List κ) (ways : List (List κ)) : List (List κ) :=
  keys.foldl (fun ways key => trail rules depth stack key ways) ways

/-- The values of several successors, joined to a first one. -/
def gatherAll (depth : Nat) (keys : List κ) (state : α × Memo κ α) : α × Memo κ α :=
  keys.foldl (fun (state : α × Memo κ α) key =>
    let found := gather rules depth key state.2
    (rules.join state.1 found.1, found.2)) state

/-- What one call leaves behind. -/
structure Gathers (final : List (List κ)) (stack : List κ) (ways : List (List κ)) (before : Memo κ α)
    (keys : κ → Prop) (result : α × Memo κ α) : Prop where
  tracks : Tracks rules final stack ways result.2
  visited : before.visited ⊆ result.2.visited
  value : Joins rules keys result.1

variable {rules}

theorem trail_known {depth : Nat} {stack : List κ} {key : κ} {ways : List (List κ)}
    (known : (rules.own key).isNone = true ∨ Entered ways key) :
    trail rules depth stack key ways = ways := by
  cases depth with
  | zero => rfl
  | succ depth => exact if_pos known

theorem trail_new {depth : Nat} {stack : List κ} {key : κ} {ways : List (List κ)}
    (isNew : ¬ ((rules.own key).isNone = true ∨ Entered ways key)) :
    trail rules (depth + 1) stack key ways =
      trailAll rules depth (key :: stack) (rules.next key) ((key :: stack) :: ways) :=
  if_neg isNew

theorem trail_suffix (depth : Nat) (stack : List κ) (key : κ) (ways : List (List κ)) :
    ways <:+ trail rules depth stack key ways := by
  induction depth generalizing stack key ways with
  | zero => exact List.suffix_refl ways
  | succ depth ih =>
      by_cases known : (rules.own key).isNone = true ∨ Entered ways key
      · rw [trail_known known]
      · have along (keys : List κ) (ways : List (List κ)) :
            ways <:+ trailAll rules depth (key :: stack) keys ways := by
          induction keys generalizing ways with
          | nil => exact List.suffix_refl ways
          | cons child keys later => exact (ih _ child ways).trans (later _)
        rw [trail_new known]
        exact (List.suffix_cons _ ways).trans (along _ _)

theorem trailAll_suffix (depth : Nat) (stack keys : List κ) (ways : List (List κ)) :
    ways <:+ trailAll rules depth stack keys ways := by
  induction keys generalizing ways with
  | nil => exact List.suffix_refl ways
  | cons key keys ih => exact (trail_suffix depth stack key ways).trans (ih _)

/-- The ways of a walk lead to each key once. -/
theorem Ways.trail {depth : Nat} {stack : List κ} {key : κ} {ways : List (List κ)}
    (isWays : Ways rules ways) : Ways rules (Gathering.trail rules depth stack key ways) := by
  induction depth generalizing stack key ways with
  | zero => exact isWays
  | succ depth ih =>
      by_cases known : (rules.own key).isNone = true ∨ Entered ways key
      · rw [trail_known known]
        exact isWays
      · rw [trail_new known]
        have along (keys : List κ) (ways : List (List κ)) (isWays : Ways rules ways) :
            Ways rules (trailAll rules depth (key :: stack) keys ways) := by
          induction keys generalizing ways with
          | nil => exact isWays
          | cons child keys later => exact later _ (ih isWays)
        apply along
        rw [not_or] at known
        obtain ⟨stored, isNew⟩ := known
        have apart (way : List κ) (listed : way ∈ ways) : way.head? ≠ some key :=
          fun same => isNew ⟨way, listed, same⟩
        constructor
        · intro way listed other otherListed same
          rcases List.mem_cons.mp listed with rfl | old
          · rcases List.mem_cons.mp otherListed with rfl | otherOld
            · rfl
            · exact absurd same.symm (apart other otherOld)
          · rcases List.mem_cons.mp otherListed with rfl | otherOld
            · exact absurd same (apart way old)
            · exact isWays.unique way old other otherOld same
        · intro other entered
          obtain ⟨way, listed, leads⟩ := entered
          rcases List.mem_cons.mp listed with rfl | old
          · cases leads
            exact Option.isSome_iff_ne_none.mpr fun none => stored (Option.isNone_iff_eq_none.mpr none)
          · exact isWays.stored other ⟨way, old, leads⟩

theorem gather_cached {depth : Nat} {key : κ} {memo : Memo κ α} {value : α}
    (cached : memo.cache.lookup key = some value) :
    gather rules (depth + 1) key memo = (value, memo) := by
  rw [gather, cached]

theorem gather_visited {depth : Nat} {key : κ} {memo : Memo κ α}
    (uncached : memo.cache.lookup key = none) (visited : key ∈ memo.visited) :
    gather rules (depth + 1) key memo = (rules.nothing, memo) := by
  rw [gather, uncached]
  exact if_pos visited

theorem gather_missing {depth : Nat} {key : κ} {memo : Memo κ α}
    (uncached : memo.cache.lookup key = none) (fresh : key ∉ memo.visited)
    (missing : rules.own key = none) : gather rules (depth + 1) key memo =
      (rules.nothing, { memo with visited := key :: memo.visited }) := by
  simp only [gather, uncached, if_neg fresh, missing]

/-- A call that goes on to the successors. -/
theorem gather_new {depth : Nat} {key : κ} {memo : Memo κ α} {first : α}
    (uncached : memo.cache.lookup key = none) (fresh : key ∉ memo.visited)
    (own : rules.own key = some first) {value : α} {later : Memo κ α}
    (along : gatherAll rules depth (rules.next key)
      (first, { memo with visited := key :: memo.visited }) = (value, later)) :
    gather rules (depth + 1) key memo =
      (value, { later with cache := (key, value) :: later.cache }) := by
  unfold gatherAll at along
  simp only [gather, uncached, if_neg fresh, own, along]

variable {final : List (List κ)} {keys : List κ}

/-- The memo when a call goes on to the successors. -/
theorem Tracks.enter {stack : List κ} {key : κ} {ways : List (List κ)} {memo : Memo κ α}
    (tracks : Tracks rules final stack ways memo) (uncached : memo.cache.lookup key = none)
    (isNew : ¬ Entered ways key) : Tracks rules final (key :: stack) ((key :: stack) :: ways)
      { memo with visited := key :: memo.visited } := by
  have entered (other : κ) : Entered ((key :: stack) :: ways) other ↔
      other = key ∨ Entered ways other := by
    unfold Entered
    rw [List.exists_mem_cons_iff, List.head?_cons, Option.some_inj, eq_comm]
  constructor
  · intro other
    rw [entered, List.mem_cons, not_or]
    by_cases same : other = key
    · rw [same, uncached]
      exact iff_of_false Bool.false_ne_true fun both => both.2.1 rfl
    · rw [tracks.cached other]
      exact and_congr (or_iff_right same).symm (and_iff_right same).symm
  · intro other onStack
    rcases List.mem_cons.mp onStack with rfl | below
    · exact ⟨List.mem_cons_self, (entered other).mpr (Or.inl rfl)⟩
    · obtain ⟨old, was⟩ := tracks.onStack other below
      exact ⟨List.mem_cons_of_mem _ old, (entered other).mpr (Or.inr was)⟩
  · intro other member there
    rcases List.mem_cons.mp member with rfl | old
    · exact (entered other).mpr (Or.inl rfl)
    · exact (entered other).mpr (Or.inr (tracks.visited other old there))
  · exact tracks.exact

/-- The memo when a call is done. -/
theorem Tracks.leave {stack : List κ} {key : κ} {ways : List (List κ)} {memo : Memo κ α} {value : α}
    (tracks : Tracks rules final (key :: stack) ways memo)
    (notBelow : key ∉ stack) (joins : Joins rules (Counts rules final key) value) :
    Tracks rules final stack ways { memo with cache := (key, value) :: memo.cache } := by
  have entered := (tracks.onStack key List.mem_cons_self).2
  constructor
  · intro other
    rw [List.lookup_cons]
    by_cases same : other = key
    · rw [same, beq_self_eq_true]
      exact iff_of_true rfl ⟨entered, notBelow⟩
    · rw [beq_false_of_ne same]
      dsimp only
      rw [tracks.cached other, List.mem_cons, not_or]
      exact and_congr_right fun _ => and_iff_right same
  · exact fun other below => tracks.onStack other (List.mem_cons_of_mem _ below)
  · exact tracks.visited
  · intro other found given
    rw [List.lookup_cons] at given
    by_cases same : other = key
    · rw [same, beq_self_eq_true] at given
      cases given
      rw [same]
      exact joins
    · rw [beq_false_of_ne same] at given
      exact tracks.exact other found given

/-- One call joins what is counted for its key, unless it is below the key already. -/
theorem gather_spec (isFinal : Ways rules final)
    (stored : ∀ key, (rules.own key).isSome = true → key ∈ keys) {depth : Nat} {stack : List κ}
    {key : κ} {ways : List (List κ)} {memo : Memo κ α} (tracks : Tracks rules final stack ways memo)
    (enough : DepthFirst.unseen keys memo.visited < depth)
    (inFinal : trail rules depth stack key ways ⊆ final) :
    Gathers rules final stack (trail rules depth stack key ways) memo
      (fun other => key ∉ stack ∧ Counts rules final key other) (gather rules depth key memo) := by
  induction depth generalizing stack key ways memo with
  | zero => exact absurd enough (Nat.not_lt_zero _)
  | succ depth ih =>
      cases uncached : memo.cache.lookup key with
      | some value =>
          obtain ⟨entered, notBelow⟩ := (tracks.cached key).mp (Option.isSome_of_mem uncached)
          rw [gather_cached uncached, trail_known (Or.inr entered)]
          refine ⟨tracks, List.Subset.refl _, (tracks.exact key value uncached).congr ?_⟩
          exact fun other => (and_iff_right notBelow).symm
      | none =>
          have notCached : ¬ (Entered ways key ∧ key ∉ stack) := by
            rw [← tracks.cached key, uncached]
            exact Bool.false_ne_true
          cases own : rules.own key with
          | none =>
              have known : (rules.own key).isNone = true := by rw [own]; rfl
              have silent (other : κ) (counts : Counts rules final key other) :
                  rules.own other = none := by
                rcases Relation.ReflTransGen.cases_head counts with rfl | ⟨_, onward, _⟩
                · exact own
                · obtain ⟨way, listed, leads, _⟩ := onward.2
                  have there := isFinal.stored key ⟨way, listed, leads⟩
                  rw [own] at there
                  cases there
              rw [trail_known (Or.inl known)]
              have nothing : Joins rules (fun other => key ∉ stack ∧ Counts rules final key other)
                  rules.nothing := .nothing fun other counts => silent other counts.2
              by_cases visited : key ∈ memo.visited
              · rw [gather_visited uncached visited]
                exact ⟨tracks, List.Subset.refl _, nothing⟩
              · rw [gather_missing uncached visited own]
                refine ⟨⟨tracks.cached, ?_, ?_, tracks.exact⟩, List.subset_cons_self _ _, nothing⟩
                · intro other onStack
                  obtain ⟨old, entered⟩ := tracks.onStack other onStack
                  exact ⟨List.mem_cons_of_mem _ old, entered⟩
                · intro other member there
                  rcases List.mem_cons.mp member with rfl | old
                  · rw [own] at there
                    cases there
                  · exact tracks.visited other old there
          | some first =>
              by_cases visited : key ∈ memo.visited
              · have entered := tracks.visited key visited (by rw [own]; rfl)
                have below : key ∈ stack := by
                  by_contra notBelow
                  exact notCached ⟨entered, notBelow⟩
                rw [gather_visited uncached visited, trail_known (Or.inr entered)]
                exact ⟨tracks, List.Subset.refl _, .nothing fun _ counts => absurd below counts.1⟩
              · have notBelow : key ∉ stack := fun below => visited (tracks.onStack key below).1
                have isNew : ¬ Entered ways key := fun entered => notCached ⟨entered, notBelow⟩
                have unknown : ¬ ((rules.own key).isNone = true ∨ Entered ways key) := by
                  rw [own]
                  exact not_or.mpr ⟨Bool.false_ne_true, isNew⟩
                have isKey : key ∈ keys := stored key (by rw [own]; rfl)
                have along (children : List κ) (counted : κ → Prop) (value : α)
                    (ways : List (List κ)) (later : Memo κ α)
                    (tracks : Tracks rules final (key :: stack) ways later)
                    (further : key :: memo.visited ⊆ later.visited)
                    (joins : Joins rules counted value)
                    (inFinal : trailAll rules depth (key :: stack) children ways ⊆ final) :
                    Gathers rules final (key :: stack)
                      (trailAll rules depth (key :: stack) children ways) later
                      (fun other => counted other ∨ ∃ child ∈ children,
                        child ∉ key :: stack ∧ Counts rules final child other)
                      (gatherAll rules depth children (value, later)) := by
                  induction children generalizing counted value ways later with
                  | nil =>
                      refine ⟨tracks, List.Subset.refl _, joins.congr fun other => ?_⟩
                      simp only [List.not_mem_nil, false_and, exists_false, or_false]
                  | cons child children rest =>
                      have onward := @trailAll_suffix κ α rules _ depth (key :: stack) children
                        (trail rules depth (key :: stack) child ways)
                      have less : DepthFirst.unseen keys later.visited < depth := by
                        have fewer := DepthFirst.unseen_cons_lt isKey visited
                        have mono := DepthFirst.unseen_mono keys further
                        omega
                      obtain ⟨tracks, grows, found⟩ :=
                        ih tracks less (List.Subset.trans onward.subset inFinal)
                      obtain ⟨tracks, growsOn, all⟩ := rest _ _ _ _ tracks
                        (List.Subset.trans further grows) (joins.join found) inFinal
                      refine ⟨tracks, List.Subset.trans grows growsOn, all.congr fun other => ?_⟩
                      rw [List.exists_mem_cons_iff, or_assoc]
                have inFinal : trailAll rules depth (key :: stack) (rules.next key)
                    ((key :: stack) :: ways) ⊆ final := trail_new unknown ▸ inFinal
                have way : key :: stack ∈ final :=
                  inFinal ((trailAll_suffix depth _ _ _).subset List.mem_cons_self)
                obtain ⟨tracks, grows, all⟩ := along (rules.next key) _ first _ _
                  (tracks.enter uncached isNew) (List.Subset.refl _) (.single own) inFinal
                cases result : gatherAll rules depth (rules.next key)
                    (first, { memo with visited := key :: memo.visited }) with
                | mk value later =>
                    rw [result] at tracks grows all
                    have joins : Joins rules (Counts rules final key) value :=
                      all.congr fun other => (counts_iff isFinal way other).symm
                    rw [gather_new uncached visited own result, trail_new unknown]
                    exact ⟨tracks.leave notBelow joins, List.Subset.trans (List.subset_cons_self _ _) grows,
                      joins.congr fun other => (and_iff_right notBelow).symm⟩

/-- A call of its own, with nothing visited yet. -/
theorem gather_call (isFinal : Ways rules final)
    (stored : ∀ key, (rules.own key).isSome = true → key ∈ keys) {depth : Nat} {key : κ}
    {ways : List (List κ)} {cache : List (κ × α)} (tracks : Tracks rules final [] ways ⟨[], cache⟩)
    (enough : keys.length < depth) (inFinal : trail rules depth [] key ways ⊆ final) :
    Tracks rules final [] (trail rules depth [] key ways)
        ⟨[], (gather rules depth key ⟨[], cache⟩).2.cache⟩ ∧
      Joins rules (Counts rules final key) (gather rules depth key ⟨[], cache⟩).1 := by
  have less := Nat.lt_of_le_of_lt (DepthFirst.unseen_nil_le keys) enough
  obtain ⟨after, -, joins⟩ := gather_spec isFinal stored tracks less inFinal
  refine ⟨⟨after.cached, List.forall_mem_nil _, List.forall_mem_nil _, after.exact⟩, ?_⟩
  exact joins.congr fun other => and_iff_right List.not_mem_nil

theorem tracks_nil : Tracks rules final [] [] ⟨[], []⟩ where
  cached := fun _ => iff_of_false Bool.false_ne_true fun both =>
    Exists.elim both.1 fun _ listed => absurd listed.1 List.not_mem_nil
  onStack := List.forall_mem_nil _
  visited := List.forall_mem_nil _
  exact := fun _ _ given => nomatch given

theorem ways_trails (depth : Nat) (keys : List κ) : Ways rules (trails rules depth keys) := by
  have along (keys : List κ) (ways : List (List κ)) (isWays : Ways rules ways) :
      Ways rules (keys.foldl (fun ways key => trail rules depth [] key ways) ways) := by
    induction keys generalizing ways with
    | nil => exact isWays
    | cons key keys ih => exact ih _ isWays.trail
  exact along keys [] ways_nil

/-! ## Where the ways lead -/

theorem Leading.trail {depth : Nat} {stack : List κ} {key : κ} {ways : List (List κ)}
    (leading : Leading rules ways) (above : ∀ other ∈ stack, AtOrBelow rules other key) :
    Leading rules (Gathering.trail rules depth stack key ways) := by
  induction depth generalizing stack key ways with
  | zero => exact leading
  | succ depth ih =>
      by_cases known : (rules.own key).isNone = true ∨ Entered ways key
      · rw [trail_known known]
        exact leading
      · rw [trail_new known]
        have there : (rules.own key).isSome = true :=
          Option.isSome_iff_ne_none.mpr fun none => known (Or.inl (Option.isNone_iff_eq_none.mpr none))
        have onTop (other : κ) (listed : other ∈ key :: stack) : AtOrBelow rules other key := by
          rcases List.mem_cons.mp listed with rfl | below
          · exact .refl
          · exact above other below
        have along (children : List κ) (ways : List (List κ)) (leading : Leading rules ways)
            (next : ∀ child ∈ children, child ∈ rules.next key) :
            Leading rules (trailAll rules depth (key :: stack) children ways) := by
          induction children generalizing ways with
          | nil => exact leading
          | cons child children later =>
              obtain ⟨first, others⟩ := List.forall_mem_cons.mp next
              exact later _ (ih leading fun other listed => (onTop other listed).tail ⟨there, first⟩)
                others
        apply along _ _ _ fun _ listed => listed
        intro way listed other leads
        rcases List.mem_cons.mp listed with rfl | old
        · cases leads
          exact onTop
        · exact leading way old other leads

/-- The ways of the calls so far are ways of all calls. -/
theorem trails_subset (depth : Nat) (keys more : List κ) :
    trails rules depth keys ⊆ trails rules depth (keys ++ more) := by
  have grows (more : List κ) (ways : List (List κ)) :
      ways ⊆ more.foldl (fun ways key => trail rules depth [] key ways) ways := by
    induction more generalizing ways with
    | nil => exact List.Subset.refl ways
    | cons key more ih => exact List.Subset.trans (trail_suffix _ _ _ _).subset (ih _)
  unfold trails
  rw [List.foldl_append]
  exact grows more _

theorem trails_concat (depth : Nat) (keys : List κ) (key : κ) :
    trails rules depth (keys ++ [key]) = trail rules depth [] key (trails rules depth keys) := by
  unfold trails
  rw [List.foldl_append]
  rfl

theorem leading_trails (depth : Nat) (keys : List κ) : Leading rules (trails rules depth keys) := by
  have along (keys : List κ) (ways : List (List κ)) (leading : Leading rules ways) :
      Leading rules (keys.foldl (fun ways key => trail rules depth [] key ways) ways) := by
    induction keys generalizing ways with
    | nil => exact leading
    | cons key keys ih => exact ih _ (leading.trail (List.forall_mem_nil _))
  exact along keys [] (List.forall_mem_nil _)

/-- Every key that is there is entered when it is called. -/
theorem entered_trails {depth : Nat} {key : κ} (called : key ∈ keys)
    (there : (rules.own key).isSome = true) : Entered (trails rules (depth + 1) keys) key := by
  obtain ⟨before, after, rfl⟩ := List.append_of_mem called
  have now : Entered (trails rules (depth + 1) (before ++ [key])) key := by
    rw [trails_concat]
    by_cases known : Entered (trails rules (depth + 1) before) key
    · obtain ⟨way, listed, leads⟩ := known
      exact ⟨way, (trail_suffix _ _ _ _).subset listed, leads⟩
    · have isNew : ¬ ((rules.own key).isNone = true ∨ Entered (trails rules (depth + 1) before) key) :=
        not_or.mpr ⟨fun none => Option.not_isSome_iff_eq_none.mpr
          (Option.isNone_iff_eq_none.mp none) there, known⟩
      rw [trail_new isNew]
      exact ⟨[key], (trailAll_suffix _ _ _ _).subset List.mem_cons_self, rfl⟩
  obtain ⟨way, listed, leads⟩ := now
  refine ⟨way, ?_, leads⟩
  rw [List.append_cons]
  exact trails_subset _ _ after listed

/-! ## What is measured -/

/-- The values of several successors, joined to a first one. -/
def measureAll (rules : Rules κ α) (depth : Nat) (keys : List κ) (state : (α × Bool) × Memo κ α) :
    (α × Bool) × Memo κ α :=
  keys.foldl (fun (state : (α × Bool) × Memo κ α) key =>
    let found := measure rules depth key state.2
    ((rules.join state.1.1 found.1.1, state.1.2 || found.1.2), found.2)) state

/-- The value starts with the own value of the key and takes in values from below: it keeps what
the own value has and no value that is joined takes away. -/
def StartsWith (rules : Rules κ α) (key : κ) (value : α) : Prop :=
  ∀ own, rules.own key = some own → ∀ keeps holds : α → Prop, keeps own →
    (∀ first second, keeps first → holds second → keeps (rules.join first second)) →
      holds rules.nothing →
        (∀ first second, holds first → holds second → holds (rules.join first second)) →
          (∀ other own, AtOrBelow rules key other → rules.own other = some own → holds own) →
            keeps value

/-- The cached values are exact. -/
def Exact (rules : Rules κ α) (memo : Memo κ α) : Prop :=
  ∀ key value, memo.cache.lookup key = some value →
    Joins rules (AtOrBelow rules key) value ∧ StartsWith rules key value

theorem measure_cached {depth : Nat} {key : κ} {memo : Memo κ α} {value : α}
    (cached : memo.cache.lookup key = some value) :
    measure rules (depth + 1) key memo = ((value, false), memo) := by
  rw [measure, cached]

theorem measure_visited {depth : Nat} {key : κ} {memo : Memo κ α}
    (uncached : memo.cache.lookup key = none) (visited : key ∈ memo.visited) :
    measure rules (depth + 1) key memo = ((rules.nothing, true), memo) := by
  rw [measure, uncached]
  exact if_pos visited

theorem measure_missing {depth : Nat} {key : κ} {memo : Memo κ α}
    (uncached : memo.cache.lookup key = none) (fresh : key ∉ memo.visited)
    (missing : rules.own key = none) : measure rules (depth + 1) key memo =
      ((rules.nothing, false), { memo with visited := key :: memo.visited }) := by
  simp only [measure, uncached, if_neg fresh, missing]

/-- A call that goes on to the successors. -/
theorem measure_new {depth : Nat} {key : κ} {memo : Memo κ α} {first : α}
    (uncached : memo.cache.lookup key = none) (fresh : key ∉ memo.visited)
    (own : rules.own key = some first) {value : α} {short : Bool} {later : Memo κ α}
    (along : measureAll rules depth (rules.next key)
      ((first, false), { memo with visited := key :: memo.visited }) = ((value, short), later)) :
    measure rules (depth + 1) key memo = ((value, short),
      if short then later else { later with cache := (key, value) :: later.cache }) := by
  unfold measureAll at along
  simp only [measure, uncached, if_neg fresh, own, along]
  cases short <;> rfl

/-- What one call leaves behind, where its value joins the own values of `joined`. -/
structure Measures (rules : Rules κ α) (before : Memo κ α) (key : κ) (joined : κ → Prop)
    (result : (α × Bool) × Memo κ α) : Prop where
  exact : Exact rules result.2
  visited : before.visited ⊆ result.2.visited
  joins : Joins rules joined result.1.1
  below : ∀ other, joined other → AtOrBelow rules key other
  whole : result.1.2 = false → ∀ other, AtOrBelow rules key other → joined other
  entered : ∀ other ∈ result.2.visited, other ∉ before.visited → (rules.own other).isSome = true →
    joined other ∧ ∀ child ∈ rules.next other,
      child ∈ result.2.visited ∨ ∀ lower, AtOrBelow rules child lower → joined lower
  reached : key ∈ result.2.visited ∨ ∀ lower, AtOrBelow rules key lower → joined lower
  starts : key ∉ before.visited → StartsWith rules key result.1.1

/-- What the calls for several keys leave behind, where the value joined `joined` before. -/
structure MeasuresAll (rules : Rules κ α) (before : Memo κ α) (children : List κ)
    (joined : κ → Prop) (value : α) (short : Bool) (all : κ → Prop) (result : (α × Bool) × Memo κ α) : Prop where
  exact : Exact rules result.2
  visited : before.visited ⊆ result.2.visited
  joins : Joins rules all result.1.1
  grows : ∀ other, joined other → all other
  below : ∀ other, all other → joined other ∨ ∃ child ∈ children, AtOrBelow rules child other
  whole : result.1.2 = false →
    short = false ∧ ∀ child ∈ children, ∀ other, AtOrBelow rules child other → all other
  entered : ∀ other ∈ result.2.visited, other ∉ before.visited → (rules.own other).isSome = true →
    all other ∧ ∀ child ∈ rules.next other,
      child ∈ result.2.visited ∨ ∀ lower, AtOrBelow rules child lower → all lower
  reached : ∀ child ∈ children,
    child ∈ result.2.visited ∨ ∀ lower, AtOrBelow rules child lower → all lower
  starts : ∀ keeps holds : α → Prop, keeps value →
    (∀ first second, keeps first → holds second → keeps (rules.join first second)) →
      holds rules.nothing →
        (∀ first second, holds first → holds second → holds (rules.join first second)) →
          (∀ child ∈ children, ∀ other own, AtOrBelow rules child other →
            rules.own other = some own → holds own) → keeps result.1.1

/-- If each call does what it should, so do several. -/
theorem measureAll_spec {depth : Nat} (calls : ∀ (key : κ) (memo : Memo κ α), Exact rules memo →
      DepthFirst.unseen keys memo.visited < depth →
        ∃ joined, Measures rules memo key joined (measure rules depth key memo))
    (children : List κ) (short : Bool) (memo : Memo κ α) {joined : κ → Prop} {value : α}
    (exact : Exact rules memo) (enough : DepthFirst.unseen keys memo.visited < depth)
    (joins : Joins rules joined value) : ∃ all, MeasuresAll rules memo children joined value short all
      (measureAll rules depth children ((value, short), memo)) := by
  induction children generalizing short memo joined value with
  | nil =>
      exact ⟨joined, exact, List.Subset.refl _, joins, fun _ listed => listed,
        fun _ listed => Or.inl listed, fun whole => ⟨whole, List.forall_mem_nil _⟩,
        fun _ old fresh => absurd old fresh, List.forall_mem_nil _, fun _ _ keeps _ _ _ _ => keeps⟩
  | cons child children ih =>
      obtain ⟨own, first⟩ := calls child memo exact enough
      have less := Nat.lt_of_le_of_lt (DepthFirst.unseen_mono keys first.visited) enough
      obtain ⟨all, rest⟩ := ih (short || (measure rules depth child memo).1.2) _ first.exact less
        (joins.join first.joins)
      have inAll (other : κ) (listed : own other) : all other := rest.grows other (Or.inr listed)
      refine ⟨all, rest.exact, List.Subset.trans first.visited rest.visited, rest.joins,
        fun other listed => rest.grows other (Or.inl listed), ?_, ?_, ?_, ?_, ?_⟩
      · intro other listed
        rcases rest.below other listed with (before | now) | later
        · exact Or.inl before
        · exact Or.inr ⟨child, List.mem_cons_self, first.below other now⟩
        · obtain ⟨child, isChild, below⟩ := later
          exact Or.inr ⟨child, List.mem_cons_of_mem _ isChild, below⟩
      · intro whole
        obtain ⟨neither, others⟩ := rest.whole whole
        obtain ⟨before, now⟩ := Bool.or_eq_false_iff.mp neither
        refine ⟨before, List.forall_mem_cons.mpr ⟨fun other below => ?_, others⟩⟩
        exact inAll other (first.whole now other below)
      · intro other member fresh there
        by_cases early : other ∈ (measure rules depth child memo).2.visited
        · obtain ⟨listed, further⟩ := first.entered other early fresh there
          refine ⟨inAll other listed, fun next isNext => ?_⟩
          rcases further next isNext with visited | shown
          · exact Or.inl (rest.visited visited)
          · exact Or.inr fun lower below => inAll lower (shown lower below)
        · exact rest.entered other member early there
      · refine List.forall_mem_cons.mpr ⟨?_, rest.reached⟩
        rcases first.reached with visited | shown
        · exact Or.inl (rest.visited visited)
        · exact Or.inr fun lower below => inAll lower (shown lower below)
      · intro keeps holds kept join empty closed each
        obtain ⟨ofFirst, ofRest⟩ := List.forall_mem_cons.mp each
        have found := first.joins.sound holds empty closed fun other own listed =>
          ofFirst other own (first.below other listed)
        exact rest.starts keeps holds (join _ _ kept found) join empty closed ofRest

theorem measure_spec (stored : ∀ key, (rules.own key).isSome = true → key ∈ keys) {depth : Nat}
    {key : κ} {memo : Memo κ α} (exact : Exact rules memo)
    (enough : DepthFirst.unseen keys memo.visited < depth) :
    ∃ joined, Measures rules memo key joined (measure rules depth key memo) := by
  induction depth generalizing key memo with
  | zero => exact absurd enough (Nat.not_lt_zero _)
  | succ depth ih =>
      cases uncached : memo.cache.lookup key with
      | some value =>
          rw [measure_cached uncached]
          obtain ⟨joins, starts⟩ := exact key value uncached
          exact ⟨AtOrBelow rules key, exact, List.Subset.refl _, joins, fun _ below => below,
            fun _ _ below => below, fun _ old fresh => absurd old fresh,
            Or.inr fun _ below => below, fun _ => starts⟩
      | none =>
          by_cases visited : key ∈ memo.visited
          · rw [measure_visited uncached visited]
            exact ⟨fun _ => False, exact, List.Subset.refl _, .nothing fun _ none => none.elim,
              fun _ none => none.elim, (fun whole => nomatch whole),
              fun _ old fresh => absurd old fresh, Or.inl visited, fun fresh => absurd visited fresh⟩
          · cases own : rules.own key with
            | none =>
                rw [measure_missing uncached visited own]
                refine ⟨AtOrBelow rules key, exact, List.subset_cons_self _ _, .nothing ?_,
                  fun _ below => below, fun _ _ below => below, ?_, Or.inl List.mem_cons_self, ?_⟩
                · intro other below
                  rw [atOrBelow_missing own below, own]
                · intro other member fresh there
                  rcases List.mem_cons.mp member with rfl | old
                  · rw [own] at there
                    cases there
                  · exact absurd old fresh
                · intro _ value isOwn
                  cases own.symm.trans isOwn
            | some first =>
                have there : (rules.own key).isSome = true := by rw [own]; rfl
                have less : DepthFirst.unseen keys (key :: memo.visited) < depth := by
                  have fewer := DepthFirst.unseen_cons_lt (stored key there) visited
                  omega
                obtain ⟨all, done⟩ := measureAll_spec (fun key memo => @ih key memo)
                  (rules.next key) false { memo with visited := key :: memo.visited } exact less
                  (.single own)
                cases result : measureAll rules depth (rules.next key)
                    ((first, false), { memo with visited := key :: memo.visited }) with
                | mk state later =>
                    obtain ⟨value, short⟩ := state
                    rw [result] at done
                    rw [measure_new uncached visited own result]
                    have sameVisited : (if short then later
                        else { later with cache := (key, value) :: later.cache }).visited =
                          later.visited := by
                      cases short <;> rfl
                    have inBelow (other : κ) (listed : all other) : AtOrBelow rules key other := by
                      apply (atOrBelow_iff there other).mpr
                      exact done.below other listed
                    have whole (untruncated : short = false) (other : κ)
                        (below : AtOrBelow rules key other) : all other := by
                      rcases (atOrBelow_iff there other).mp below with same | lower
                      · exact done.grows other same
                      · obtain ⟨child, isChild, below⟩ := lower
                        exact (done.whole untruncated).2 child isChild other below
                    have starts : StartsWith rules key value := by
                      intro value' isOwn keeps holds kept join empty closed each
                      cases own.symm.trans isOwn
                      apply done.starts keeps holds kept join empty closed
                      intro child isChild other own below
                      exact each other own (.head ⟨there, isChild⟩ below)
                    refine ⟨all, ?_, ?_, done.joins, inBelow, whole, ?_, Or.inl ?_, fun _ => starts⟩
                    · cases short with
                      | true => exact done.exact
                      | false =>
                          intro other found given
                          rw [if_neg Bool.false_ne_true, List.lookup_cons] at given
                          by_cases same : other = key
                          · rw [same, beq_self_eq_true] at given
                            cases given
                            rw [same]
                            have joins := done.joins.congr fun lower =>
                              ⟨inBelow lower, whole rfl lower⟩
                            exact ⟨joins, starts⟩
                          · rw [beq_false_of_ne same] at given
                            exact done.exact other found given
                    · rw [sameVisited]
                      exact List.Subset.trans (List.subset_cons_self _ _) done.visited
                    · rw [sameVisited]
                      intro other member fresh present
                      by_cases same : other = key
                      · rw [same]
                        exact ⟨done.grows key rfl, done.reached⟩
                      · exact done.entered other member
                          (List.not_mem_cons_of_ne_of_not_mem same fresh) present
                    · rw [sameVisited]
                      exact done.visited List.mem_cons_self

/-- A call of its own joins everything at or below its key. -/
theorem measure_call (stored : ∀ key, (rules.own key).isSome = true → key ∈ keys) {depth : Nat}
    {key : κ} {cache : List (κ × α)} (exact : Exact rules ⟨[], cache⟩) (enough : keys.length < depth) :
    Exact rules ⟨[], (measure rules depth key ⟨[], cache⟩).2.cache⟩ ∧
      Joins rules (AtOrBelow rules key) (measure rules depth key ⟨[], cache⟩).1.1 ∧
        StartsWith rules key (measure rules depth key ⟨[], cache⟩).1.1 := by
  have less := Nat.lt_of_le_of_lt (DepthFirst.unseen_nil_le keys) enough
  obtain ⟨joined, done⟩ := measure_spec stored exact less
  refine ⟨done.exact, ?_, done.starts List.not_mem_nil⟩
  have onward (other : κ) (below : AtOrBelow rules key other) :
      other ∈ (measure rules depth key ⟨[], cache⟩).2.visited ∨
        ∀ lower, AtOrBelow rules other lower → joined lower := by
    induction below with
    | refl => exact done.reached
    | tail _ step ih =>
        rcases ih with visited | shown
        · exact (done.entered _ visited List.not_mem_nil step.1).2 _ step.2
        · exact Or.inr fun lower below => shown lower (.head step below)
  have all (other : κ) (own : α) (below : AtOrBelow rules key other)
      (there : rules.own other = some own) : joined other := by
    rcases onward other below with visited | shown
    · exact (done.entered other visited List.not_mem_nil (by rw [there]; rfl)).1
    · exact shown other .refl
  constructor
  · intro holds empty closed each
    exact done.joins.sound holds empty closed fun other own listed =>
      each other own (done.below other listed)
  · intro holds up other own below there has
    exact done.joins.complete holds up other own (all other own below there) there has

theorem exact_nil : Exact rules ⟨[], []⟩ := fun _ _ given => nomatch given

end Gathering

end ThetaDirectory.Library
