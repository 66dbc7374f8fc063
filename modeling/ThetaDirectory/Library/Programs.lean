import Mathlib.Data.List.Forall2
import ThetaDirectory.Library.Interleaving

/-!
# Asynchronous programs

An asynchronous function as the tree of what it waits for.  What it does between two waits is
ordinary Lean, exceptions are caught and thrown in the tree, and a call of it takes its turns in
an interleaving.  A property of all its operations, or a relation between two programs, is
proved along `bind` and `tryCatch` and then holds in every run.
-/

namespace ThetaDirectory.Library

open Interleaving

/-- What a call does next: end, throw, read its ambience at once, or wait for an operation. -/
inductive Program (η ε : Type) (Op : Type → Type) (α : Type) : Type 1 where
  | done (result : α)
  | thrown (error : ε)
  | ask (next : η → Program η ε Op α)
  | await {β : Type} (operation : Op β) (next : Except ε β → Program η ε Op α)

namespace Program

variable {η ε α β σ ω ι : Type} {Op : Type → Type}

def bind (program : Program η ε Op α) (next : α → Program η ε Op β) : Program η ε Op β :=
  match program with
  | done result => next result
  | thrown error => thrown error
  | ask rest => ask fun ambience => (rest ambience).bind next
  | await operation rest => await operation fun outcome => (rest outcome).bind next

/-- `try { program } catch` -/
def recover (program : Program η ε Op α) (handler : ε → Program η ε Op α) : Program η ε Op α :=
  match program with
  | done result => done result
  | thrown error => handler error
  | ask rest => ask fun ambience => (rest ambience).recover handler
  | await operation rest => await operation fun outcome => (rest outcome).recover handler

instance : Monad (Program η ε Op) where
  pure := done
  bind := bind

instance : MonadExceptOf ε (Program η ε Op) where
  throw := thrown
  tryCatch := recover

def ambience : Program η ε Op η := ask done

/-- `await operation` -/
def perform (operation : Op β) : Program η ε Op β :=
  await operation fun
    | .ok result => done result
    | .error error => thrown error

/-- The program up to its next wait. -/
def settle (ambience : η) : Program η ε Op α → Program η ε Op α
  | ask next => (next ambience).settle ambience
  | program => program

/-- What a call has come to, if it is over. -/
def answer? : Program η ε Op α → Option (Except ε α)
  | done result => some (.ok result)
  | thrown error => some (.error error)
  | _ => none

/-! ## Programs in an interleaving -/

/-- How operations act on the shared state, and what is at hand in a turn. -/
structure Host (η ε : Type) (Op : Type → Type) (σ ω : Type) where
  ambience : ω → η
  act : {β : Type} → Op β → ω → σ → σ × Except ε β

variable (host : Host η ε Op σ ω) (handler : ι → Program η ε Op α)

def turn (outcome : ω) (shared : σ) : Program η ε Op α → σ × Program η ε Op α
  | await operation next =>
      let (shared, result) := host.act operation outcome shared
      (shared, (next result).settle (host.ambience outcome))
  | program => (shared, program)

/-- A call runs up to its first wait when it is made, and in a turn up to the next one. -/
def protocol : Protocol σ (Program η ε Op α) (ι × η) ω where
  call := fun (input, ambience) shared => (shared, (handler input).settle ambience)
  turn := turn host

theorem apply_turn (outcome : ω) {pool : Pool σ (Program η ε Op α)} {index : Nat}
    {program : Program η ε Op α} (found : pool.calls[index]? = some program) :
    (protocol host handler).apply (.turn index outcome) pool =
      ⟨(program.turn host outcome pool.shared).1,
        pool.calls.set index (program.turn host outcome pool.shared).2⟩ :=
  Interleaving.apply_turn_of_some found

/-! ## One run -/

/-- Which operations programs may wait for, and what may come of them. -/
structure Bounds (ε : Type) (Op : Type → Type) where
  permitted : {β : Type} → Op β → Prop
  possible : {β : Type} → Op β → Except ε β → Prop

section Within

/-- Every operation is permitted and every result wanted, as far as what comes of the operations
is possible. -/
def Within (bounds : Bounds ε Op) (wanted : α → Prop) : Program η ε Op α → Prop
  | done result => wanted result
  | thrown _ => True
  | ask next => ∀ ambience, (next ambience).Within bounds wanted
  | await operation next => bounds.permitted operation ∧
      ∀ outcome, bounds.possible operation outcome → (next outcome).Within bounds wanted

variable {bounds : Bounds ε Op} {wanted : α → Prop}

theorem Within.bind {hoped : β → Prop} {program : Program η ε Op α}
    {next : α → Program η ε Op β} (within : program.Within bounds wanted)
    (goesOn : ∀ result, wanted result → (next result).Within bounds hoped) :
    (program >>= next).Within bounds hoped := by
  change (program.bind next).Within bounds hoped
  induction program with
  | done result => exact goesOn result within
  | thrown error => trivial
  | ask rest ih => exact fun ambience => ih ambience (within ambience)
  | await operation rest ih =>
      exact ⟨within.1, fun outcome may => ih outcome (within.2 outcome may)⟩

theorem Within.tryCatch {program : Program η ε Op α} {catcher : ε → Program η ε Op α}
    (within : program.Within bounds wanted)
    (catches : ∀ error, (catcher error).Within bounds wanted) :
    (tryCatch program catcher).Within bounds wanted := by
  change (program.recover catcher).Within bounds wanted
  induction program with
  | done result => exact within
  | thrown error => exact catches error
  | ask rest ih => exact fun ambience => ih ambience (within ambience)
  | await operation rest ih =>
      exact ⟨within.1, fun outcome may => ih outcome (within.2 outcome may)⟩

theorem within_perform {hoped : β → Prop} {operation : Op β}
    (may : bounds.permitted operation)
    (gives : ∀ result, bounds.possible operation (.ok result) → hoped result) :
    (perform (η := η) (ε := ε) operation).Within bounds hoped := by
  refine ⟨may, fun outcome comes => ?_⟩
  cases outcome with
  | ok result => exact gives result comes
  | error error => trivial

theorem Within.settle {program : Program η ε Op α}
    (within : program.Within bounds wanted) (ambience : η) :
    (program.settle ambience).Within bounds wanted := by
  induction program with
  | ask next ih => exact ih ambience (within ambience)
  | _ => exact within

/-- The operations keep an invariant when they are permitted, and only what is possible comes of
them. -/
def Host.Keeps (host : Host η ε Op σ ω) (inv : σ → Prop) (bounds : Bounds ε Op) : Prop :=
  ∀ {β : Type} (operation : Op β) (outcome : ω) (shared : σ), inv shared →
    bounds.permitted operation →
      inv (host.act operation outcome shared).1 ∧
        bounds.possible operation (host.act operation outcome shared).2

variable {host : Host η ε Op σ ω} {handler : ι → Program η ε Op α} {inv : σ → Prop}

theorem Within.turn (keeps : host.Keeps inv bounds) {program : Program η ε Op α}
    (within : program.Within bounds wanted) {shared : σ} (holds : inv shared)
    (outcome : ω) :
    inv (program.turn host outcome shared).1 ∧
      (program.turn host outcome shared).2.Within bounds wanted := by
  cases program with
  | await operation next =>
      obtain ⟨kept, comes⟩ := keeps operation outcome shared holds within.1
      exact ⟨kept, (within.2 _ comes).settle _⟩
  | _ => exact ⟨holds, within⟩

/-- In a run whose calls are all within bounds every call stays so. -/
theorem within_run (keeps : host.Keeps inv bounds)
    {events : List (Event (ι × η) ω)} {pool : Pool σ (Program η ε Op α)} (holds : inv pool.shared)
    (within : ∀ program ∈ pool.calls, program.Within bounds wanted)
    (handles : ∀ input ambience, .call (input, ambience) ∈ events →
      (handler input).Within bounds wanted) :
    inv (Runs.run (protocol host handler).apply events pool).shared ∧
      ∀ program ∈ (Runs.run (protocol host handler).apply events pool).calls,
        program.Within bounds wanted := by
  induction events generalizing pool with
  | nil => exact ⟨holds, within⟩
  | cons event events ih =>
      have later : ∀ input ambience, .call (input, ambience) ∈ events →
          (handler input).Within bounds wanted := fun input ambience listed =>
        handles input ambience (List.mem_cons_of_mem _ listed)
      cases event with
      | call input =>
          refine ih holds (fun program listed => ?_) later
          rcases List.mem_append.mp listed with old | new
          · exact within program old
          · rw [List.mem_singleton.mp new]
            exact (handles input.1 input.2 List.mem_cons_self).settle input.2
      | turn index outcome =>
          cases found : pool.calls[index]? with
          | none =>
              have same : (protocol host handler).apply (.turn index outcome) pool = pool :=
                Interleaving.apply_turn_of_none found
              exact ih (by rwa [same]) (by rwa [same]) later
          | some program =>
              have same := apply_turn host handler outcome found
              obtain ⟨kept, goesOn⟩ :=
                (within program (List.mem_of_getElem? found)).turn keeps holds outcome
              refine ih (by rwa [same]) (fun other listed => ?_) later
              rw [same] at listed
              rcases List.mem_or_eq_of_mem_set listed with old | rfl
              · exact within other old
              · exact goesOn

end Within

/-! ## Two runs -/

/-- Which operations of two runs count as the same, and which of their results match. -/
structure Likeness (ε : Type) (Op : Type → Type) where
  same : {β : Type} → Op β → Op β → Prop
  matching : {β : Type} → Op β → Except ε β → Except ε β → Prop

section Alike

/-- Two programs that wait for the same operations, and go on alike if the results match. -/
inductive Alike (likeness : Likeness ε Op) (wanted : α → α → Prop) :
    Program η ε Op α → Program η ε Op α → Prop where
  | done {result other : α} (agree : wanted result other) :
      Alike likeness wanted (done result) (done other)
  | thrown (error : ε) : Alike likeness wanted (thrown error) (thrown error)
  | ask {next rest : η → Program η ε Op α}
      (goOn : ∀ ambience, Alike likeness wanted (next ambience) (rest ambience)) :
      Alike likeness wanted (ask next) (ask rest)
  | await {β : Type} {operation other : Op β} {next rest : Except ε β → Program η ε Op α}
      (agree : likeness.same operation other)
      (goOn : ∀ result found, likeness.matching operation result found →
        Alike likeness wanted (next result) (rest found)) :
      Alike likeness wanted (await operation next) (await other rest)

variable {likeness : Likeness ε Op} {wanted : α → α → Prop} {program other : Program η ε Op α}

theorem Alike.bind {hoped : β → β → Prop} {next rest : α → Program η ε Op β}
    (alike : program.Alike likeness wanted other)
    (goOn : ∀ result found, wanted result found →
      (next result).Alike likeness hoped (rest found)) :
    (program >>= next).Alike likeness hoped (other >>= rest) := by
  change (program.bind next).Alike likeness hoped (other.bind rest)
  induction alike with
  | done agree => exact goOn _ _ agree
  | thrown error => exact .thrown error
  | ask _ ih => exact .ask ih
  | await agree _ ih => exact .await agree ih

theorem Alike.andThen {hoped : β → β → Prop} {next rest : α → Program η ε Op β}
    (alike : program.Alike likeness Eq other)
    (goOn : ∀ result, (next result).Alike likeness hoped (rest result)) :
    (program >>= next).Alike likeness hoped (other >>= rest) :=
  alike.bind fun result _ same => same ▸ goOn result

theorem Alike.tryCatch {catcher handler : ε → Program η ε Op α}
    (alike : program.Alike likeness wanted other)
    (catch_ : ∀ error, (catcher error).Alike likeness wanted (handler error)) :
    (tryCatch program catcher).Alike likeness wanted (tryCatch other handler) := by
  change (program.recover catcher).Alike likeness wanted (other.recover handler)
  induction alike with
  | done agree => exact .done agree
  | thrown error => exact catch_ error
  | ask _ ih => exact .ask ih
  | await agree _ ih => exact .await agree ih

theorem Alike.settle (alike : program.Alike likeness wanted other) (ambience : η) :
    (program.settle ambience).Alike likeness wanted (other.settle ambience) := by
  induction alike with
  | done agree => exact .done agree
  | thrown error => exact .thrown error
  | ask _ ih => exact ih ambience
  | await agree goOn _ => exact .await agree goOn

theorem Alike.answer? (alike : program.Alike likeness (· = ·) other) :
    program.answer? = other.answer? := by
  cases alike with
  | done agree => rw [agree]
  | _ => rfl

/-- The same operations lead from related states to related states with matching results. -/
def Host.Respects (host : Host η ε Op σ ω) (related : σ → σ → Prop)
    (likeness : Likeness ε Op) : Prop :=
  ∀ {β : Type} (operation other : Op β) (outcome : ω) (shared beside : σ), related shared beside →
    likeness.same operation other →
      related (host.act operation outcome shared).1 (host.act other outcome beside).1 ∧
        likeness.matching operation (host.act operation outcome shared).2
          (host.act other outcome beside).2

variable {host : Host η ε Op σ ω} {handler : ι → Program η ε Op α} {related : σ → σ → Prop}

theorem Alike.turn (respects : host.Respects related likeness)
    (alike : program.Alike likeness wanted other) {shared beside : σ}
    (initial : related shared beside) (outcome : ω) :
    related (program.turn host outcome shared).1 (other.turn host outcome beside).1 ∧
      (program.turn host outcome shared).2.Alike likeness wanted
        (other.turn host outcome beside).2 := by
  cases alike with
  | await agree goOn =>
      obtain ⟨kept, match_⟩ := respects _ _ outcome shared beside initial agree
      exact ⟨kept, (goOn _ _ match_).settle _⟩
  | done agree => exact ⟨initial, .done agree⟩
  | thrown error => exact ⟨initial, .thrown error⟩
  | ask goOn => exact ⟨initial, .ask goOn⟩

/-- Events of two runs: calls that the handler answers alike, and the same turns. -/
inductive SameEvent (handler : ι → Program η ε Op α) (likeness : Likeness ε Op)
    (wanted : α → α → Prop) : Event (ι × η) ω → Event (ι × η) ω → Prop where
  | call {input other : ι} (ambience : η)
      (alike : (handler input).Alike likeness wanted (handler other)) :
      SameEvent handler likeness wanted (.call (input, ambience)) (.call (other, ambience))
  | turn (index : Nat) (outcome : ω) :
      SameEvent handler likeness wanted (.turn index outcome) (.turn index outcome)

theorem forall₂_getElem? {τ : Type*} {relation : τ → τ → Prop} {calls others : List τ}
    (alike : List.Forall₂ relation calls others) (index : Nat) :
    Option.Rel relation calls[index]? others[index]? := by
  induction alike generalizing index with
  | nil => exact .none
  | cons first _ ih =>
      cases index with
      | zero => exact .some first
      | succ index => exact ih index

theorem forall₂_set {τ : Type*} {relation : τ → τ → Prop} {calls others : List τ} {call other : τ}
    (alike : List.Forall₂ relation calls others) (agree : relation call other) (index : Nat) :
    List.Forall₂ relation (calls.set index call) (others.set index other) := by
  induction alike generalizing index with
  | nil => exact .nil
  | cons first rest ih =>
      cases index with
      | zero => exact .cons agree rest
      | succ index => exact .cons first (ih index)

/-- Two runs with the same turns, of calls answered alike, stay related and alike. -/
theorem alike_run (respects : host.Respects related likeness)
    {events others : List (Event (ι × η) ω)} {pool beside : Pool σ (Program η ε Op α)}
    (initial : related pool.shared beside.shared)
    (calls : List.Forall₂ (Alike likeness wanted) pool.calls beside.calls)
    (alike : List.Forall₂ (SameEvent handler likeness wanted) events others) :
    related (Runs.run (protocol host handler).apply events pool).shared
        (Runs.run (protocol host handler).apply others beside).shared ∧
      List.Forall₂ (Alike likeness wanted)
        (Runs.run (protocol host handler).apply events pool).calls
        (Runs.run (protocol host handler).apply others beside).calls := by
  induction alike generalizing pool beside with
  | nil => exact ⟨initial, calls⟩
  | cons first _ ih =>
      cases first with
      | call ambience alike =>
          exact ih initial (List.rel_append calls (.cons (alike.settle ambience) .nil))
      | turn index outcome =>
          have here := forall₂_getElem? calls index
          cases found : pool.calls[index]? with
          | none =>
              cases foundBeside : beside.calls[index]? with
              | none =>
                  have same : (protocol host handler).apply (.turn index outcome) pool = pool :=
                    Interleaving.apply_turn_of_none found
                  have sameBeside :
                      (protocol host handler).apply (.turn index outcome) beside = beside :=
                    Interleaving.apply_turn_of_none foundBeside
                  exact ih (by rwa [same, sameBeside]) (by rwa [same, sameBeside])
              | some other =>
                  rw [found, foundBeside] at here
                  cases here
          | some program =>
              cases foundBeside : beside.calls[index]? with
              | none =>
                  rw [found, foundBeside] at here
                  cases here
              | some other =>
                  rw [found, foundBeside] at here
                  cases here with
                  | some agree =>
                      have same := apply_turn host handler outcome found
                      have sameBeside := apply_turn host handler outcome foundBeside
                      obtain ⟨kept, goesOn⟩ := agree.turn respects initial outcome
                      refine ih (by rwa [same, sameBeside]) ?_
                      rw [same, sameBeside]
                      exact forall₂_set calls goesOn index

end Alike

end Program

end ThetaDirectory.Library
