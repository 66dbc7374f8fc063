import ThetaDirectory.Agents.JoinKeys

/-!
# How many agents a join key enrolls

The check of a join key reads a count that is written only after the enrolment, and only at the
site of the connection; a copy of the key does not carry its limit.
-/

namespace ThetaDirectory.Agents

open Library Library.Interleaving

/-- The call has enrolled an agent with the key. -/
def Call.enrolledWith (id : String) : Call → Bool
  | .connection _ (.counting joinKey _ enrolled) => enrolled && joinKey.id == id
  | .connection _ (.connected (some joinKey) _ enrolled) => enrolled && joinKey.id == id
  | _ => false

/-- The call was let in on the key, and has enrolled an agent or may still do so. -/
def Call.letIn (id : String) : Call → Bool
  | .connection _ (.placing joinKey) => joinKey.id == id
  | .connection _ (.matching joinKey _) => joinKey.id == id
  | .connection _ (.enrolling joinKey _) => joinKey.id == id
  | call => call.enrolledWith id

/-- The key on which the event lets a call in. -/
def passed (hash : String → String) (event : Event Input Outcome) (pool : Pool Sites Call) :
    Option AgentJoinKey :=
  match event with
  | .turn index outcome =>
      match pool.calls[index]? with
      | some (.connection request .joining) =>
          if outcome.ok then
            AgentJoinKey.authenticate hash (pool.shared request.site).joinKeys outcome.now
              request.token
          else none
      | _ => none
  | .call _ => none

/-- When the key lets a call in, the row at that site carries its limit and has counted all calls
let in before. -/
def Counts (hash : String → String) (id : String) (uses : Nat) (event : Event Input Outcome)
    (pool : Pool Sites Call) : Prop :=
  ∀ joinKey ∈ passed hash event pool, joinKey.id = id →
    joinKey.limit = some uses ∧ pool.count (Call.letIn id) ≤ joinKey.use_count

instance (hash : String → String) (id : String) (uses : Nat) (event : Event Input Outcome)
    (pool : Pool Sites Call) : Decidable (Counts hash id uses event pool) := by
  unfold Counts
  infer_instance

theorem usedUp_of_authenticate {hash : String → String} {keys : List AgentJoinKey} {now : Nat}
    {rawKey : String} {joinKey : AgentJoinKey}
    (authenticated : AgentJoinKey.authenticate hash keys now rawKey = some joinKey) :
    joinKey.usedUp = false := by
  unfold AgentJoinKey.authenticate at authenticated
  split at authenticated
  · cases authenticated
  · split at authenticated
    · split at authenticated
      · cases authenticated
      · rename_i usable
        cases authenticated
        simp only [Bool.or_eq_true, not_or, Bool.not_eq_true] at usable
        exact usable.2
    · cases authenticated

theorem use_count_lt {joinKey : AgentJoinKey} {uses : Nat} (limited : joinKey.limit = some uses)
    (usable : joinKey.usedUp = false) : joinKey.use_count < uses := by
  unfold AgentJoinKey.usedUp at usable
  rw [limited] at usable
  exact Nat.lt_of_not_le (of_decide_eq_false usable)

/-- A turn lets a call in only through the check. -/
theorem letIn_turn {hash : String → String} {id : String} {outcome : Outcome} {request : Request}
    {sites : Sites} {phase : Phase} (outside : Call.letIn id (.connection request phase) = false)
    (inside : Call.letIn id (.connection request (request.turn hash outcome sites phase).2) = true) :
    phase = .joining ∧ outcome.ok = true ∧
      ∃ joinKey, AgentJoinKey.authenticate hash (sites request.site).joinKeys outcome.now
        request.token = some joinKey ∧ joinKey.id = id := by
  cases phase with
  | joining =>
      refine ⟨rfl, ?_⟩
      simp only [Request.turn] at inside
      split at inside
      · rename_i ok
        split at inside
        · rename_i joinKey authenticated
          exact ⟨ok, joinKey, authenticated, eq_of_beq inside⟩
        · cases inside
      · cases inside
  | authenticating =>
      simp only [Request.turn] at inside
      repeat' split at inside
      all_goals cases inside
  | placing joinKey | matching joinKey _ =>
      simp only [Request.turn] at inside
      repeat' split at inside
      all_goals first
        | exact absurd (outside.symm.trans inside) Bool.false_ne_true
        | cases inside
  | enrolling joinKey _ =>
      simp only [Request.turn] at inside
      split at inside
      · exact absurd (outside.symm.trans inside) Bool.false_ne_true
      · cases inside
  | rotating _ _ =>
      simp only [Request.turn] at inside
      split at inside <;> cases inside
  | counting _ _ _ => exact absurd (outside.symm.trans inside) Bool.false_ne_true
  | connected _ _ _ | closed _ _ => exact absurd (outside.symm.trans inside) Bool.false_ne_true

theorem passed_of_enters {hash : String → String} {id : String} {event : Event Input Outcome}
    {pool : Pool Sites Call} (enters : (enrolment hash).Enters (Call.letIn id) event pool) :
    ∃ joinKey ∈ passed hash event pool, joinKey.id = id ∧ joinKey.usedUp = false := by
  cases event with
  | call input => cases input <;> cases enters
  | turn index outcome =>
      obtain ⟨call, found, outside, inside⟩ := enters
      cases call with
      | connection request phase =>
          obtain ⟨rfl, ok, joinKey, authenticated, same⟩ := letIn_turn outside inside
          refine ⟨joinKey, ?_, same, usedUp_of_authenticate authenticated⟩
          simp only [passed, found]
          rw [if_pos ok, authenticated]
          rfl
      | adoption _ _ | done => exact absurd (outside.symm.trans inside) Bool.false_ne_true

theorem letIn_of_enrolledWith {id : String} {call : Call} (enrolled : call.enrolledWith id = true) :
    call.letIn id = true := by
  cases call with
  | connection request phase =>
      cases phase with
      | counting _ _ _ | connected _ _ _ => exact enrolled
      | authenticating | joining | placing _ | matching _ _ | rotating _ _ | enrolling _ _
      | closed _ _ => cases enrolled
  | adoption _ _ | done => cases enrolled

/-- No call has been made. -/
def start (sites : Sites) : Pool Sites Call := ⟨sites, []⟩

/-- A key enrolls no more agents than it allows, in every run in which each row that lets a
connection in carries the limit and has counted all that were let in before. -/
theorem enrolled_run {hash : String → String} {id : String} {uses : Nat} {sites : Sites}
    {events : List (Event Input Outcome)}
    (counts : ∀ step ∈ Runs.steps (enrolment hash).apply events (start sites),
      Counts hash id uses step.operation step.before) :
    ∀ step ∈ Runs.steps (enrolment hash).apply events (start sites),
      step.after.count (Call.enrolledWith id) ≤ uses := by
  intro step member
  have initial : (start sites).Within (Call.letIn id) uses := Nat.zero_le uses
  have within : step.after.Within (Call.letIn id) uses := by
    apply count_run_le initial ?_ step member
    intro step member enters
    obtain ⟨joinKey, lets, same, usable⟩ := passed_of_enters enters
    obtain ⟨limited, counted⟩ := counts step member joinKey lets same
    exact Nat.lt_of_le_of_lt counted (use_count_lt limited usable)
  calc step.after.count (Call.enrolledWith id)
      ≤ step.after.count (Call.letIn id) :=
        List.countP_mono_left fun call _ => letIn_of_enrolledWith
    _ ≤ uses := within

private def onceKey : AgentJoinKey :=
  ⟨"k1", "lab", "hash of tjk_lab", "tjk_lab", false, some "ada", some 100, none, some 1, 0, none⟩

/-- The master has a key for one use, and a spoke nothing. -/
private def labSites : Sites := fun site => if site = 0 then ⟨[], [onceKey]⟩ else ⟨[], []⟩

private def labHash (text : String) : String := "hash of " ++ text

private def connecting (site : Nat) (hostname : String) : Event Input Outcome :=
  .call (.connect ⟨site, "tjk_lab", hostname, "", none⟩)

private def goesOn (index : Nat) : Event Input Outcome :=
  .turn index ⟨true, 200, some "s1", "u" ++ toString index, "secret", some "r1", "x"⟩

/-- One connection after the other: the second is turned away. -/
private def inTurn : List (Event Input Outcome) :=
  [connecting 0 "web", goesOn 0, goesOn 0, goesOn 0, goesOn 0, goesOn 0, goesOn 0,
    connecting 0 "db", goesOn 1, goesOn 1]

theorem enrolled_in_turn :
    List.Forall (fun step : Runs.Step (Event Input Outcome) (Pool Sites Call) =>
      step.after.count (Call.enrolledWith "k1") ≤ 1)
      (Runs.steps (enrolment labHash).apply inTurn (start labSites)) ∧
    (Runs.run (enrolment labHash).apply inTurn (start labSites)).count
      (Call.enrolledWith "k1") = 1 := by
  constructor
  · apply List.forall_iff_forall_mem.mpr
    apply enrolled_run
    decide +kernel
  · decide +kernel

/-- Two connections that overlap enroll two agents with a key for one, and so do two that follow
each other at a spoke, whose copy has no limit. -/
theorem not_enrolled_overlapping :
    (¬ ∀ (hash : String → String) (sites : Sites) (joinKey : AgentJoinKey) (uses : Nat),
      joinKey ∈ (sites 0).joinKeys → joinKey.limit = some uses →
        ∀ events, ∀ step ∈ Runs.steps (enrolment hash).apply events (start sites),
          step.after.count (Call.enrolledWith joinKey.id) ≤ uses) ∧
    (Runs.run (enrolment labHash).apply
      [.call (.adopt 0 1), goesOn 0, goesOn 0, goesOn 0,
        connecting 1 "web", goesOn 1, goesOn 1, goesOn 1, goesOn 1, goesOn 1, goesOn 1,
        connecting 1 "db", goesOn 2, goesOn 2, goesOn 2, goesOn 2, goesOn 2, goesOn 2]
      (start labSites)).count (Call.enrolledWith "k1") = 2 := by
  constructor
  · intro always
    have bound := List.forall_iff_forall_mem.mpr <| always labHash labSites onceKey 1
      (by decide +kernel) (by decide +kernel)
      [connecting 0 "web", connecting 0 "db", goesOn 0, goesOn 1, goesOn 0, goesOn 1,
        goesOn 0, goesOn 0, goesOn 0, goesOn 1, goesOn 1, goesOn 1]
    revert bound
    decide +kernel
  · decide +kernel

end ThetaDirectory.Agents
