import ThetaDirectory.Replication.Reconcile

/-!
# No trigger is lost

Behind every call there is a full pass that starts after it, in every run in which no call comes
when the loop is not going to look at the flag again.
-/

namespace ThetaDirectory.Replication.Reconcile

open Library Library.Interleaving

variable {ρ : Type} {pool : Run ρ} {index : Nat} {phase : Phase ρ} {flags : Flags}

/-! ## The invariant -/

/-- A loop on its way is the one in flight, and going to look at the flag if that is set. -/
def Own (flags : Flags) (phase : Phase ρ) : Prop :=
  phase.running = true → flags.inFlight = true ∧ (flags.dirty = true → phase.closing = false)

/-- Two loops are not on their way together. -/
def Apart (phase called : Phase ρ) : Prop := ¬ (phase.running = true ∧ called.running = true)

structure Sound (pool : Run ρ) : Prop where
  outline : Outlined (fun flags => flags.dirty = true → flags.inFlight = true) Own Apart pool
  present : pool.shared.inFlight = true → pool.Has fun phase => phase.running = true

theorem apart_symm {phase called : Phase ρ} (apart : Apart phase called) : Apart called phase :=
  fun both => apart both.symm

theorem own_of_idle (idle : phase.running = false) : Own flags phase := by
  intro running
  rw [idle] at running
  cases running

theorem callback_of_idle {result : Except String ρ} (idle : phase.running = false) :
    callback result flags phase = (flags, phase) := by
  cases phase <;> first | rfl | cases idle

theorem sound_loaded : Sound (loaded : Run ρ) where
  outline := {
    shared := fun dirty => by cases dirty
    each := fun _ _ found => by cases found
    apart := fun _ _ _ _ _ found => by cases found }
  present := fun flying => by cases flying

/-- Beside a loop on its way the calls are idle. -/
theorem Sound.idle (sound : Sound pool) (found : pool.calls[index]? = some phase)
    (running : phase.running = true) {other : Nat} {called : Phase ρ} (different : other ≠ index)
    (foundOther : pool.calls[other]? = some called) : called.running = false := by
  have apart := sound.outline.apart index other phase called different.symm found foundOther
  cases called_running : called.running with
  | false => rfl
  | true => exact absurd ⟨running, called_running⟩ apart

theorem sound_call {reason : String} (sound : Sound pool)
    (orderly : Orderly (.call reason) pool) : Sound (reconciler.apply (.call reason) pool) := by
  cases flying : pool.shared.inFlight with
  | true =>
      have joins : (reconciler : Protocol Flags (Phase ρ) _ _).call reason pool.shared =
          ({ pool.shared with dirty := true, dirtyReason := some reason }, .joined) :=
        if_pos flying
      constructor
      · apply sound.outline.apply_call (fun _ _ => apart_symm)
        · rw [joins]
          exact ⟨fun _ => flying, own_of_idle rfl⟩
        · intro index called found
          rw [joins]
          refine ⟨fun running => ⟨flying, fun _ => ?_⟩, fun both => by cases both.1⟩
          exact orderly called (List.mem_of_getElem? found)
      · exact fun _ => has_apply_call (sound.present flying)
  | false =>
      have starts : (reconciler : Protocol Flags (Phase ρ) _ _).call reason pool.shared =
          ({ pool.shared with inFlight := true }, .passing reason) := if_neg (by simp [flying])
      have idle : ∀ (index : Nat) (called : Phase ρ), pool.calls[index]? = some called →
          called.running = false := by
        intro index called found
        cases running : called.running with
        | false => rfl
        | true =>
            have inFlight := (sound.outline.each index called found running).1
            rw [flying] at inFlight
            cases inFlight
      constructor
      · apply sound.outline.apply_call (fun _ _ => apart_symm)
        · rw [starts]
          exact ⟨fun _ => rfl, fun _ => ⟨rfl, fun _ => rfl⟩⟩
        · intro index called found
          rw [starts]
          refine ⟨own_of_idle (idle index called found), fun both => ?_⟩
          rw [idle index called found] at both
          cases both.2
      · intro _
        refine ⟨pool.calls.length, .passing reason, ?_, rfl⟩
        simp only [Protocol.apply, starts]
        exact List.getElem?_concat_length

/-- What the next callback of a loop on its way leaves. -/
structure Leaves (flags : Flags) (next : Phase ρ) : Prop where
  shared : flags.dirty = true → flags.inFlight = true
  own : Own flags next
  present : flags.inFlight = true → next.running = true

theorem leaves_callback {result : Except String ρ} (own : Own flags phase)
    (running : phase.running = true)
    (resolves : ∀ error, result = .error error → phase.inPass = true → flags.dirty = false) :
    Leaves (callback result flags phase).1 (callback result flags phase).2 := by
  obtain ⟨flying, looks⟩ := own running
  cases phase with
  | passing reason =>
      refine ⟨fun _ => flying, fun _ => ⟨flying, fun dirty => ?_⟩, fun _ => rfl⟩
      cases result with
      | ok result => rfl
      | error error =>
          cases (resolves error rfl rfl).symm.trans dirty
  | settled reason result =>
      cases result with
      | ok result =>
          simp only [callback]
          split
          · exact ⟨fun _ => flying, fun _ => ⟨flying, fun _ => rfl⟩, fun _ => rfl⟩
          · rename_i clean
            exact ⟨fun _ => flying, fun _ => ⟨flying, fun dirty => absurd dirty clean⟩, fun _ => rfl⟩
      | error error =>
          refine ⟨fun _ => flying, fun _ => ⟨flying, fun dirty => ?_⟩, fun _ => rfl⟩
          cases looks dirty
  | leaving result =>
      refine ⟨fun dirty => ?_, own_of_idle rfl, fun flying => by cases flying⟩
      cases looks dirty
  | ended result => cases running
  | joined => cases running

theorem sound_turn {outcome : Except String ρ} (sound : Sound pool)
    (orderly : Orderly (.turn index outcome) pool) :
    Sound (reconciler.apply (.turn index outcome) pool) := by
  cases found : pool.calls[index]? with
  | none => rwa [apply_turn_of_none found]
  | some phase =>
      cases running : phase.running with
      | false =>
          have same : reconciler.turn outcome pool.shared phase = (pool.shared, phase) :=
            callback_of_idle running
          obtain ⟨inside, here⟩ := List.getElem?_eq_some_iff.mp found
          have unchanged : pool.calls.set index phase = pool.calls := by
            rw [← here]
            exact List.set_getElem_self inside
          rw [apply_turn_of_some found, same, unchanged]
          exact sound
      | true =>
          have leaves : Leaves (reconciler.turn outcome pool.shared phase).1
              (reconciler.turn outcome pool.shared phase).2 := by
            apply leaves_callback (sound.outline.each index phase found) running
            intro error same inPass
            rw [same] at orderly
            exact orderly (by rw [found]; exact inPass)
          constructor
          · apply sound.outline.apply_turn (fun _ _ => apart_symm)
            intro turning here
            cases found.symm.trans here
            refine ⟨leaves.shared, leaves.own, fun other called different foundOther => ?_⟩
            have idle := sound.idle found running different foundOther
            refine ⟨own_of_idle idle, fun both => ?_⟩
            rw [idle] at both
            cases both.2
          · rw [apply_turn_of_some found]
            exact fun flying => has_set_self found (leaves.present flying)

theorem sound_apply (event : Trigger ρ) (pool : Run ρ) (sound : Sound pool)
    (orderly : Orderly event pool) : Sound (reconciler.apply event pool) := by
  cases event with
  | call reason => exact sound_call sound orderly
  | turn index outcome => exact sound_turn sound orderly

/-! ## Up to the next turn of the loop -/

variable {events earlier later : List (Trigger ρ)} {wants : Bool} {outcome : Except String ρ}

/-- The loop stands at a phase, with the flag set where one wants it. -/
structure Waiting (index : Nat) (phase : Phase ρ) (wants : Bool) (pool : Run ρ) : Prop where
  found : pool.calls[index]? = some phase
  dirty : wants = true → pool.shared.dirty = true

theorem waiting_apply {event : Trigger ρ} (sound : Sound pool) (running : phase.running = true)
    (waiting : Waiting index phase wants pool) (other : isTurn index event = false) :
    Waiting index phase wants (reconciler.apply event pool) := by
  cases event with
  | call reason =>
      refine ⟨getElem?_apply_call_of_some waiting.found, fun _ => ?_⟩
      have flying := (sound.outline.each index phase waiting.found running).1
      simp only [Protocol.apply, reconciler, reconcile, flying, reduceIte]
  | turn turning outcome =>
      have different : turning ≠ index := of_decide_eq_false other
      refine ⟨(getElem?_apply_turn_of_ne different).trans waiting.found, fun wanted => ?_⟩
      cases found : pool.calls[turning]? with
      | none =>
          rw [apply_turn_of_none found]
          exact waiting.dirty wanted
      | some called =>
          have idle := sound.idle waiting.found running different found
          have same : reconciler.turn outcome pool.shared called = (pool.shared, called) :=
            callback_of_idle idle
          rw [shared_apply_turn found, same]
          exact waiting.dirty wanted

/-- The loop stays where it is up to its next turn. -/
theorem waits (sound : Sound pool)
    (orderly : ∀ step ∈ Runs.steps reconciler.apply events pool,
      Orderly step.operation step.before)
    (running : phase.running = true) (waiting : Waiting index phase wants pool) :
    (∃ earlier outcome later, events = earlier ++ .turn index outcome :: later ∧
      earlier.countP (isTurn index) = 0 ∧
      Sound (Runs.run reconciler.apply earlier pool) ∧
      Waiting index phase wants (Runs.run reconciler.apply earlier pool) ∧
      ∀ step ∈ Runs.steps reconciler.apply (.turn index outcome :: later)
        (Runs.run reconciler.apply earlier pool), Orderly step.operation step.before) ∨
    events.countP (isTurn index) = 0 ∧
      Waiting index phase wants (Runs.run reconciler.apply events pool) := by
  induction events generalizing pool with
  | nil => exact Or.inr ⟨rfl, waiting⟩
  | cons event events ih =>
      cases turns : isTurn index event with
      | true =>
          cases event with
          | call reason => cases turns
          | turn other outcome =>
              have same : other = index := of_decide_eq_true turns
              subst same
              exact Or.inl ⟨[], outcome, events, rfl, rfl, sound, waiting, orderly⟩
      | false =>
          have next := sound_apply event pool sound (orderly _ List.mem_cons_self)
          have stays := waiting_apply sound running waiting turns
          rcases ih next (fun step member => orderly step (List.mem_cons_of_mem _ member)) stays with
            ⟨earlier, outcome, later, rfl, none, rest⟩ | ⟨none, rest⟩
          · refine Or.inl ⟨event :: earlier, outcome, later, rfl, ?_, rest⟩
            rw [List.countP_cons_of_neg (by simp [turns]), none]
          · refine Or.inr ⟨?_, rest⟩
            rw [List.countP_cons_of_neg (by simp [turns]), none]

/-! ## What the turns mark -/

/-- The marks come in this order, or the loop has not had so many turns and is on its way. -/
def Answered (turns : Nat) (index : Nat) (wanted : List Mark) (events : List (Trigger ρ))
    (pool : Run ρ) : Prop :=
  wanted.Sublist (log events pool) ∨ events.countP (isTurn index) < turns ∧
    ∃ phase, (Runs.run reconciler.apply events pool).calls[index]? = some phase ∧
      phase.running = true

theorem log_append (earlier later : List (Trigger ρ)) (pool : Run ρ) :
    log (earlier ++ later) pool =
      log earlier pool ++ log later (Runs.run reconciler.apply earlier pool) := by
  unfold log
  rw [Runs.steps_append, List.flatMap_append]

theorem log_cons (event : Trigger ρ) (later : List (Trigger ρ)) (pool : Run ρ) :
    log (event :: later) pool = marks ⟨pool, event, reconciler.apply event pool⟩ ++
      log later (reconciler.apply event pool) := rfl

theorem answered_turn {turns : Nat} {wanted rest : List Mark}
    (none : earlier.countP (isTurn index) = 0)
    (covers : wanted.Sublist (marks ⟨Runs.run reconciler.apply earlier pool, .turn index outcome,
      reconciler.apply (.turn index outcome) (Runs.run reconciler.apply earlier pool)⟩ ++ rest))
    (answered : Answered turns index rest later
      (reconciler.apply (.turn index outcome) (Runs.run reconciler.apply earlier pool))) :
    Answered (turns + 1) index wanted (earlier ++ .turn index outcome :: later) pool := by
  rcases answered with marked | ⟨fewer, phase, found, running⟩
  · refine Or.inl ?_
    rw [log_append, log_cons]
    exact (covers.trans (List.Sublist.append_left marked _)).trans
      (List.sublist_append_right _ _)
  · refine Or.inr ⟨?_, phase, ?_, running⟩
    · rw [List.countP_append, none, List.countP_cons_of_pos (by simp [isTurn])]
      omega
    · rw [Runs.run_append]
      exact found

theorem marks_passing {reason : String} (found : pool.calls[index]? = some (.passing reason)) :
    marks ⟨pool, .turn index outcome, reconciler.apply (.turn index outcome) pool⟩ =
      [.ended index] := by
  simp only [marks, found]
  rfl

theorem marks_entering {reason : String} (found : pool.calls[index]? = some phase)
    (outside : phase.inPass = false)
    (enters : (reconciler.turn outcome pool.shared phase).2 = .passing reason) :
    marks ⟨pool, .turn index outcome, reconciler.apply (.turn index outcome) pool⟩ =
      [.started index] := by
  have after : (reconciler.apply (.turn index outcome) pool).calls[index]? =
      some (reconciler.turn outcome pool.shared phase).2 := getElem?_apply_turn_self found
  simp only [marks, Reconcile.enters, found, after, enters, Option.any_some, outside]
  rfl

variable {reason : String}

/-- A pass that runs ends at the loop's next turn. -/
theorem answered_ended (sound : Sound pool)
    (orderly : ∀ step ∈ Runs.steps reconciler.apply events pool,
      Orderly step.operation step.before)
    (found : pool.calls[index]? = some (.passing reason)) :
    Answered 1 index [.ended index] events pool := by
  have waiting : Waiting index (.passing reason) false pool := ⟨found, fun wants => by cases wants⟩
  rcases waits sound orderly rfl waiting with
    ⟨earlier, outcome, later, rfl, none, -, there, -⟩ | ⟨none, there⟩
  · apply @answered_turn _ _ _ _ _ _ 0 _ [] none
    · rw [marks_passing there.found]
      exact List.Sublist.refl _
    · exact Or.inl (List.nil_sublist _)
  · exact Or.inr ⟨by omega, _, there.found, rfl⟩

/-- A loop that has not looked at the set flag yet starts a pass at its next turn. -/
theorem answered_started {result : ρ} (sound : Sound pool)
    (orderly : ∀ step ∈ Runs.steps reconciler.apply events pool,
      Orderly step.operation step.before)
    (waiting : Waiting index (.settled reason (.ok result)) true pool) :
    Answered 2 index [.started index, .ended index] events pool := by
  rcases waits sound orderly rfl waiting with
    ⟨earlier, outcome, later, rfl, none, here, there, rest⟩ | ⟨none, there⟩
  · have enters : (reconciler.turn outcome (Runs.run reconciler.apply earlier pool).shared
        (.settled reason (.ok result))).2 = .passing ((truthy
          (Runs.run reconciler.apply earlier pool).shared.dirtyReason).getD reason) :=
      congrArg Prod.snd (if_pos (there.dirty rfl))
    apply answered_turn none
    · rw [marks_entering there.found rfl enters]
      exact List.Sublist.refl _
    · apply answered_ended (sound_apply _ _ here (rest _ List.mem_cons_self))
      · exact fun step member => rest step (List.mem_cons_of_mem _ member)
      · rw [getElem?_apply_turn_self there.found, enters]
  · exact Or.inr ⟨by omega, _, there.found, rfl⟩

/-- A pass during which a call came is followed by another one. -/
theorem answered_again (sound : Sound pool)
    (orderly : ∀ step ∈ Runs.steps reconciler.apply events pool,
      Orderly step.operation step.before)
    (waiting : Waiting index (.passing reason) true pool) :
    Answered 3 index [.started index, .ended index] events pool := by
  rcases waits sound orderly rfl waiting with
    ⟨earlier, outcome, later, rfl, none, here, there, rest⟩ | ⟨none, there⟩
  · apply answered_turn none (List.sublist_append_right _ _)
    have next := sound_apply _ _ here (rest _ List.mem_cons_self)
    have settled : (reconciler.apply (.turn index outcome)
        (Runs.run reconciler.apply earlier pool)).calls[index]? = some (.settled reason outcome) :=
      getElem?_apply_turn_self there.found
    have dirty : (reconciler.apply (.turn index outcome)
        (Runs.run reconciler.apply earlier pool)).shared.dirty = true := by
      rw [shared_apply_turn there.found]
      exact there.dirty rfl
    cases outcome with
    | ok result =>
        exact answered_started next (fun step member => rest step (List.mem_cons_of_mem _ member))
          ⟨settled, fun _ => dirty⟩
    | error error =>
        -- the loop would be left with the flag set
        have looks := (next.outline.each index _ settled rfl).2 dirty
        cases looks
  · exact Or.inr ⟨by omega, _, there.found, rfl⟩

/-! ## Every call -/

/-- A call starts a pass itself, or comes while the loop is still going to look at the flag. -/
theorem answered_call (sound : Sound pool)
    (orderly : ∀ step ∈ Runs.steps reconciler.apply (.call reason :: later) pool,
      Orderly step.operation step.before) :
    ∃ index, List.Sublist [.started index, .ended index] (log (.call reason :: later) pool) ∨
      later.countP (isTurn index) < 3 ∧ ∃ phase,
        (Runs.run reconciler.apply (.call reason :: later) pool).calls[index]? = some phase ∧
          phase.running = true := by
  have first := orderly _ List.mem_cons_self
  have next := sound_apply _ _ sound first
  have behind : ∀ step ∈ Runs.steps reconciler.apply later
      (reconciler.apply (.call reason) pool), Orderly step.operation step.before :=
    fun step member => orderly step (List.mem_cons_of_mem _ member)
  -- what comes behind the call comes in the run that begins with it
  have answers {turns index : Nat} (few : turns ≤ 3)
      (answered : Answered turns index [.started index, .ended index] later
        (reconciler.apply (.call reason) pool)) :
      List.Sublist [.started index, .ended index] (log (.call reason :: later) pool) ∨
        later.countP (isTurn index) < 3 ∧ ∃ phase,
          (Runs.run reconciler.apply (.call reason :: later) pool).calls[index]? = some phase ∧
            phase.running = true := by
    rcases answered with marked | ⟨fewer, going⟩
    · exact Or.inl (marked.trans (List.sublist_append_right _ _))
    · exact Or.inr ⟨by omega, going⟩
  cases flying : pool.shared.inFlight with
  | true =>
      obtain ⟨index, phase, found, running⟩ := sound.present flying
      have looks := first phase (List.mem_of_getElem? found)
      have dirty : (reconciler.apply (.call reason) pool).shared.dirty = true := by
        simp only [Protocol.apply, reconciler, reconcile, flying, reduceIte]
      have there : (reconciler.apply (.call reason) pool).calls[index]? = some phase :=
        getElem?_apply_call_of_some found
      refine ⟨index, ?_⟩
      cases phase with
      | passing reason =>
          exact answers (Nat.le_refl 3) (answered_again next behind ⟨there, fun _ => dirty⟩)
      | settled reason result =>
          cases result with
          | ok result =>
              exact answers (by omega) (answered_started next behind ⟨there, fun _ => dirty⟩)
          | error error => cases looks
      | leaving result => cases looks
      | ended result => cases running
      | joined => cases running
  | false =>
      have starts : (reconciler : Protocol Flags (Phase ρ) _ _).call reason pool.shared =
          ({ pool.shared with inFlight := true }, .passing reason) := if_neg (by simp [flying])
      have found : (reconciler.apply (.call reason) pool).calls[pool.calls.length]? =
          some (.passing reason) := by
        simp only [Protocol.apply, starts]
        exact List.getElem?_concat_length
      refine ⟨pool.calls.length, ?_⟩
      rcases answered_ended next behind found with marked | ⟨fewer, going⟩
      · refine Or.inl ?_
        have mark : marks ⟨pool, .call reason, reconciler.apply (.call reason) pool⟩ =
            [.called, .started pool.calls.length] := by
          have absent : pool.calls[pool.calls.length]? = none := List.getElem?_eq_none (Nat.le_refl _)
          simp only [marks, enters, absent, found]
          rfl
        rw [log_cons, mark]
        exact (marked.cons_cons _).cons _
      · exact Or.inr ⟨by omega, going⟩

theorem sound_run (orderly : ∀ step ∈ Runs.steps reconciler.apply events (loaded : Run ρ),
    Orderly step.operation step.before) : Sound (Runs.run reconciler.apply events loaded) := by
  apply Runs.run_of_forall_steps sound_loaded
  exact fun step member => (Runs.forall_steps_inv sound_loaded orderly sound_apply step member).2

theorem not_enters {event : Trigger ρ} (flying : pool.shared.inFlight = true) :
    ¬ (reconciler : Protocol Flags (Phase ρ) _ _).Enters Phase.running event pool := by
  intro enters
  cases event with
  | call reason =>
      have joins : (reconciler : Protocol Flags (Phase ρ) _ _).call reason pool.shared =
          ({ pool.shared with dirty := true, dirtyReason := some reason }, .joined) :=
        if_pos flying
      rw [Protocol.Enters, joins] at enters
      cases enters
  | turn index outcome =>
      obtain ⟨phase, -, idle, runs⟩ := enters
      have same : reconciler.turn outcome pool.shared phase = (pool.shared, phase) :=
        callback_of_idle idle
      rw [same, idle] at runs
      cases runs

/-- A loop only starts when none is on its way. -/
theorem within_run (orderly : ∀ step ∈ Runs.steps reconciler.apply events (loaded : Run ρ),
      Orderly step.operation step.before) :
    ∀ step ∈ Runs.steps reconciler.apply events (loaded : Run ρ),
      step.after.Within Phase.inPass 1 := by
  have running : ∀ step ∈ Runs.steps reconciler.apply events (loaded : Run ρ),
      step.after.Within Phase.running 1 := by
    apply count_run_le_one rfl
    intro step member enters called listed
    have sound := (Runs.forall_steps_inv sound_loaded orderly sound_apply step member).1
    obtain ⟨index, found⟩ := List.mem_iff_getElem?.mp listed
    cases running : called.running with
    | false => rfl
    | true =>
        -- with a call on its way the promise is in flight, and nothing starts
        have flying := (sound.outline.each index called found running).1
        exact absurd enters (not_enters flying)
  intro step member
  apply Nat.le_trans (Pool.count_mono _) (running step member)
  intro phase inPass
  cases phase <;> first | rfl | cases inPass

/-- Behind every call the loop starts a pass and ends it, or it is on its way and has not had
three turns since the call. -/
def Served (events : List (Trigger ρ)) : Prop :=
  ∀ earlier reason later, events = earlier ++ .call reason :: later →
    ∃ index, List.Sublist [.started index, .ended index]
        (log (.call reason :: later) (Runs.run reconciler.apply earlier loaded)) ∨
      later.countP (isTurn index) < 3 ∧ ∃ phase,
        (Runs.run reconciler.apply events (loaded : Run ρ)).calls[index]? = some phase ∧
          phase.running = true

def resolves (index count : Nat) : List (Trigger Bool) :=
  List.replicate count (.turn index (.ok true))

def Mark.isStart : Mark → Bool
  | .started _ => true
  | .called | .ended _ => false

/-- A call is not served when no pass starts behind it and all comes to rest. -/
theorem not_served_of_rest {earlier later : List (Trigger ρ)}
    (unmarked : (log (.call reason :: later) (Runs.run reconciler.apply earlier loaded)).all
      (fun mark => !mark.isStart) = true)
    (rest : (Runs.run reconciler.apply (earlier ++ .call reason :: later) (loaded : Run ρ)).calls.all
      (fun phase => !phase.running) = true) : ¬ Served (earlier ++ .call reason :: later) := by
  intro served
  obtain ⟨index, marked | ⟨-, phase, found, running⟩⟩ := served earlier reason later rfl
  · have start := List.all_eq_true.mp unmarked _ (marked.subset List.mem_cons_self)
    cases start
  · have idle := List.all_eq_true.mp rest phase (List.mem_of_getElem? found)
    rw [running] at idle
    cases idle

end ThetaDirectory.Replication.Reconcile
