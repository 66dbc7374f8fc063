import ThetaDirectory.Access.Requests

/-!
# Access requests settle once

The handlers check the status of a request and write it later, with other operations in
between.  What holds of the requests and the handlers through every run in which no two
handlers have passed that check for one request.
-/

namespace ThetaDirectory.Access.Requests

open Library Library.Interleaving

/-! ## What a call is about to write, and has done -/

/-- The row that a handler has checked and will decide. -/
def Deciding.snapshot : Deciding → Option AccessRequest
  | .gettingResource request | .authorizing request _ | .gettingGroup request
  | .gettingUser request | .adding request | .saving request _ => some request
  | .getting | .decided _ _ | .refused _ _ => none

def Deciding.membership : Deciding → Option Membership
  | .saving _ membership | .decided _ membership | .refused _ membership => membership
  | _ => none

/-- The user and group of the request that the call will create. -/
def Call.opens : Call → Option (String × String)
  | .creation input (.creating _ groupCn) => some (input.uid, groupCn)
  | _ => none

def Call.snapshot : Call → Option AccessRequest
  | .decision _ phase => phase.snapshot
  | _ => none

/-- The row that the call will deny or cancel. -/
def Call.rejects : Call → Option AccessRequest
  | .decision input phase => if input.verdict = .approve then none else phase.snapshot
  | _ => none

/-- The request in whose approval the call has added a user to a group. -/
def Call.added : Call → Option String
  | .decision input phase => if phase.membership = some .added then some input.id else none
  | _ => none

/-- The request that the call has approved, after its user was in the group. -/
def Call.granted : Call → Option AccessRequest
  | .decision _ (.decided request (some _)) => some request
  | _ => none

/-! ## The property -/

def OnePending (rows : List AccessRequest) : Prop :=
  ∀ row ∈ rows, ∀ other ∈ rows, row.status = .pending → other.status = .pending →
    row.uid = other.uid → row.groupCn = other.groupCn → row = other

/-- At most one request of a user for a group is pending, the user of an approved request was
in the group by then, and the user of a denied or cancelled one was not added for it. -/
structure Consistent (pool : Pool Directory Call) : Prop where
  onePending : OnePending pool.shared.requests.rows
  approved : ∀ row ∈ pool.shared.requests.rows, row.status = .approved →
    ∃ call ∈ pool.calls, ∃ request ∈ call.granted,
      request.id = row.id ∧ request.uid = row.uid ∧ request.groupCn = row.groupCn
  spared : ∀ row ∈ pool.shared.requests.rows, row.status = .denied ∨ row.status = .cancelled →
    ∀ call ∈ pool.calls, call.added ≠ some row.id

/-- A decided request stays as it is. -/
def Final (step : Runs.Step (Event Input Outcome) (Pool Directory Call)) : Prop :=
  ∀ row ∈ step.before.shared.requests.rows, row.status ≠ .pending →
    row ∈ step.after.shared.requests.rows

/-- No other handler of the request has passed its check, and for a denial or withdrawal none
has added the user. -/
def Decision.Alone (decision : Decision) (request : AccessRequest) (calls : List Call) : Prop :=
  ∀ call ∈ calls, (∀ other ∈ call.snapshot, other.id ≠ request.id) ∧
    (decision.verdict = .approve ∨ call.added ≠ some request.id)

/-- A call passes its check only alone. -/
def Alone (event : Event Input Outcome) (pool : Pool Directory Call) : Prop :=
  match event with
  | .turn index outcome =>
      match pool.calls[index]? with
      | some (.creation creation (.opening _ groupCn)) =>
          outcome.ok = true → findOpen pool.shared.requests.rows creation.uid groupCn = none →
            ∀ call ∈ pool.calls, call.opens ≠ some (creation.uid, groupCn)
      | some (.decision decision .getting) =>
          match decision.check pool.shared.requests.rows with
          | .ok request => outcome.ok = true → decision.Alone request pool.calls
          | .error _ => True
      | _ => True
  | .call _ => True

instance (decision : Decision) (request : AccessRequest) (calls : List Call) :
    Decidable (decision.Alone request calls) := by
  unfold Decision.Alone
  infer_instance

instance (event : Event Input Outcome) (pool : Pool Directory Call) :
    Decidable (Alone event pool) := by
  unfold Alone
  split
  · split
    · infer_instance
    · split <;> infer_instance
    · infer_instance
  · infer_instance

instance (pool : Pool Directory Call) : Decidable (Consistent pool) :=
  decidable_of_iff (
    (∀ row ∈ pool.shared.requests.rows, ∀ other ∈ pool.shared.requests.rows,
      row.status = .pending → other.status = .pending →
        row.uid = other.uid → row.groupCn = other.groupCn → row = other) ∧
    (∀ row ∈ pool.shared.requests.rows, row.status = .approved →
      ∃ call ∈ pool.calls, ∃ request ∈ call.granted,
        request.id = row.id ∧ request.uid = row.uid ∧ request.groupCn = row.groupCn) ∧
    ∀ row ∈ pool.shared.requests.rows, row.status = .denied ∨ row.status = .cancelled →
      ∀ call ∈ pool.calls, call.added ≠ some row.id)
    ⟨fun ⟨one, approved, spared⟩ => ⟨one, approved, spared⟩,
      fun ⟨one, approved, spared⟩ => ⟨one, approved, spared⟩⟩

/-! ## The invariant -/

/-- A handler gets as far as the group only to approve. -/
def Deciding.Coherent (verdict : Verdict) : Deciding → Prop
  | .gettingGroup _ | .gettingUser _ | .adding _ => verdict = .approve
  | .saving _ membership | .decided _ membership => membership.isSome = true ↔ verdict = .approve
  | _ => True

def Call.Coherent : Call → Prop
  | .decision input phase => phase.Coherent input.verdict ∧
      ∀ request ∈ phase.snapshot, request.id = input.id
  | _ => True

/-- What a call relies on in the rows. -/
structure Own (directory : Directory) (call : Call) : Prop where
  coherent : call.Coherent
  snapshot : ∀ request ∈ call.snapshot,
    request ∈ directory.requests.rows ∧ request.status = .pending
  opens : ∀ key ∈ call.opens, ∀ row ∈ directory.requests.rows, row.status = .pending →
    (row.uid, row.groupCn) ≠ key
  added : ∀ id ∈ call.added, ∀ row ∈ directory.requests.rows, row.id = id →
    row.status = .pending ∨ row.status = .approved

/-- What one call relies on in another. -/
structure Beside (call called : Call) : Prop where
  snapshot : ∀ request ∈ call.snapshot, ∀ other ∈ called.snapshot, request.id ≠ other.id
  opens : ∀ key ∈ call.opens, called.opens ≠ some key
  rejects : ∀ request ∈ call.rejects, called.added ≠ some request.id

def Apart (call called : Call) : Prop := Beside call called ∧ Beside called call

theorem apart_symm {call called : Call} (apart : Apart call called) : Apart called call :=
  apart.symm

/-- The next state of a call relies on nothing new, and has added a user at most for the
request it holds. -/
structure Narrows (call next : Call) : Prop where
  coherent : call.Coherent → next.Coherent
  snapshot : ∀ request ∈ next.snapshot, request ∈ call.snapshot
  opens : ∀ key ∈ next.opens, key ∈ call.opens
  rejects : ∀ request ∈ next.rejects, request ∈ call.rejects
  added : ∀ id ∈ next.added, id ∈ call.added ∨ ∃ request ∈ call.snapshot, request.id = id
  granted : ∀ request ∈ call.granted, request ∈ next.granted

/-- What a turn does to the rows.  A call that has written is done with what it held. -/
inductive Effect (call next : Call) (rows after : List AccessRequest) : Prop where
  | same (unchanged : after = rows)
  | opened (row : AccessRequest) (pending : row.status = .pending)
      (opens : call.opens = some (row.uid, row.groupCn))
      (members : ∀ other, other ∈ after ↔ other ∈ rows ∨ other = row) (ends : Beside call next)
  | settled (request row : AccessRequest) (held : call.snapshot = some request)
      (sameId : row.id = request.id)
      (status : row.status = .approved ∧ next.granted = some row ∨
        (row.status = .denied ∨ row.status = .cancelled) ∧ call.rejects = some request)
      (members : ∀ other, other ∈ after ↔ other ∈ rows ∧ other.id ≠ request.id ∨ other = row)
      (ends : Beside call next)

variable {call next called : Call} {directory after : Directory}

theorem rejects_held {request : AccessRequest} (rejects : request ∈ call.rejects) :
    request ∈ call.snapshot := by
  cases call with
  | decision input phase =>
      change request ∈ (if input.verdict = .approve then none else phase.snapshot) at rejects
      split at rejects
      · cases rejects
      · exact rejects
  | creation _ _ | done => cases rejects

theorem Narrows.apart (narrows : Narrows call next) (apart : Apart call called) :
    Apart next called := by
  obtain ⟨forth, back⟩ := apart
  constructor
  · constructor
    · exact fun request held => forth.snapshot request (narrows.snapshot request held)
    · exact fun key held => forth.opens key (narrows.opens key held)
    · exact fun request held => forth.rejects request (narrows.rejects request held)
  · constructor
    · exact fun request held other held' =>
        back.snapshot request held other (narrows.snapshot other held')
    · intro key held same
      exact back.opens key held (narrows.opens key same)
    · intro request rejected added
      rcases narrows.added request.id added with before | ⟨other, held, same⟩
      · exact back.rejects request rejected before
      · exact back.snapshot request (rejects_held rejected) other held same.symm

/-- A held row is the only one with its id. -/
theorem eq_of_held {request row : AccessRequest} (own : Own directory call)
    (held : request ∈ call.snapshot) (member : row ∈ directory.requests.rows)
    (same : row.id = request.id) : row = request :=
  Table.eq_of_column AccessRequest.id List.mem_cons_self member (own.snapshot request held).1 same

theorem Narrows.own (narrows : Narrows call next) (own : Own directory call)  :
    Own directory next where
  coherent := narrows.coherent own.coherent
  snapshot := fun request held => own.snapshot request (narrows.snapshot request held)
  opens := fun key held => own.opens key (narrows.opens key held)
  added := by
    intro id added row member same
    rcases narrows.added id added with before | ⟨request, held, rfl⟩
    · exact own.added id before row member same
    · rw [eq_of_held own held member same]
      exact Or.inl (own.snapshot request held).2

/-! ## Turns -/

theorem narrows_decision {input : Decision} {phase after : Deciding}
    (coherent : Call.Coherent (.decision input phase)) (kept : after.Coherent input.verdict)
    (snapshot : ∀ request ∈ after.snapshot, request ∈ phase.snapshot)
    (added : after.membership = some .added →
      phase.membership = some .added ∨ phase.snapshot.isSome = true)
    (granted : ∀ request ∈ Call.granted (.decision input phase),
      request ∈ Call.granted (.decision input after)) :
    Narrows (.decision input phase) (.decision input after) where
  coherent := fun _ => ⟨kept, fun request held => coherent.2 request (snapshot request held)⟩
  snapshot := snapshot
  opens := fun _ opens => by cases opens
  rejects := by
    intro request rejects
    change request ∈ (if input.verdict = .approve then none else after.snapshot) at rejects
    change request ∈ (if input.verdict = .approve then none else phase.snapshot)
    split at rejects
    · cases rejects
    · rename_i rejecting
      rw [if_neg rejecting]
      exact snapshot request rejects
  added := by
    intro id member
    change id ∈ (if after.membership = some .added then some input.id else none) at member
    split at member
    · rename_i joined
      cases member
      refine (added joined).imp (fun before => ?_) fun holds => ?_
      · change input.id ∈ (if phase.membership = some .added then some input.id else none)
        rw [if_pos before]
        rfl
      · obtain ⟨request, held⟩ := Option.isSome_iff_exists.mp holds
        exact ⟨request, held, coherent.2 request held⟩
    · cases member
  granted := granted

/-- A refused handler has written nothing since. -/
theorem narrows_refused {input : Decision} {phase : Deciding} {refusal : Refusal}
    (coherent : Call.Coherent (.decision input phase))
    (undecided : Call.granted (.decision input phase) = none) :
    Narrows (.decision input phase) (.decision input (.refused refusal phase.membership)) :=
  narrows_decision coherent trivial (fun _ held => by cases held) Or.inl fun request granted => by
    rw [undecided] at granted
    cases granted

theorem onto_id (input : Decision) (now : Nat) (row : AccessRequest) :
    (input.onto now row).id = row.id ∧ (input.onto now row).uid = row.uid ∧
      (input.onto now row).groupCn = row.groupCn := by
  unfold Decision.onto
  split <;> exact ⟨rfl, rfl, rfl⟩

theorem onto_status (input : Decision) (now : Nat) (row : AccessRequest) :
    (input.onto now row).status = input.verdict.status := by
  unfold Decision.onto
  split
  · rename_i cancels
    rw [cancels]
    rfl
  · rfl
  · rfl

theorem settled_of_update {input : Decision} {request : AccessRequest}
    {membership : Option Membership} {now : Nat} {requests : RequestTable}
    (own : Own directory (.decision input (.saving request membership)))
    (updated : directory.requests.update (fun row => row.id == request.id) (input.onto now) =
      some requests) :
    Effect (.decision input (.saving request membership))
      (.decision input (.decided (input.onto now request) membership))
      directory.requests.rows requests.rows := by
  have held : request ∈ Call.snapshot (.decision input (.saving request membership)) := rfl
  have joins : membership.isSome = true ↔ input.verdict = .approve := own.coherent.1
  have members : ∀ other, other ∈ requests.rows ↔
      other ∈ directory.requests.rows ∧ other.id ≠ request.id ∨
        other = input.onto now request := by
    intro other
    rw [Table.mem_update List.mem_cons_self updated]
    apply or_congr_right
    constructor
    · rintro ⟨row, member, same, rfl⟩
      rw [eq_of_held own held member same]
    · exact fun same => ⟨request, (own.snapshot request held).1, rfl, same⟩
  cases membership with
  | some membership =>
      have approves := joins.mp rfl
      refine .settled request _ rfl (onto_id input now request).1 (Or.inl ⟨?_, rfl⟩) members ?_
      · rw [onto_status, approves]
        rfl
      · exact ⟨fun _ _ _ held => (by cases held), fun _ opens => (by cases opens),
          fun _ rejects => by
            rw [Call.rejects, if_pos approves] at rejects
            cases rejects⟩
  | none =>
      have rejects : input.verdict ≠ .approve := fun approves => by cases joins.mpr approves
      refine .settled request _ rfl (onto_id input now request).1
        (Or.inr ⟨?_, if_neg rejects⟩) members ?_
      · rw [onto_status]
        cases verdict : input.verdict with
        | approve => exact absurd verdict rejects
        | deny => exact Or.inl rfl
        | cancel => exact Or.inr rfl
      · exact ⟨fun _ _ _ held => (by cases held), fun _ opens => (by cases opens),
          fun _ _ added => (by cases added)⟩

/-- After its check a handler narrows down to its decision. -/
theorem decision_turn {input : Decision} {phase : Deciding} (outcome : Outcome)
    (own : Own directory (.decision input phase)) (checked : phase ≠ .getting) :
    Narrows (.decision input phase)
        (.decision input (input.turn outcome directory phase).2) ∧
      Effect (.decision input phase) (.decision input (input.turn outcome directory phase).2)
        directory.requests.rows (input.turn outcome directory phase).1.requests.rows := by
  have coherent := own.coherent
  cases phase with
  | getting => exact absurd rfl checked
  | gettingResource request =>
      simp only [Decision.turn]
      split
      · exact ⟨narrows_decision coherent trivial (fun _ held => held)
          (fun joined => by cases joined) (fun _ granted => by cases granted), .same rfl⟩
      · exact ⟨narrows_refused coherent rfl, .same rfl⟩
  | authorizing request resource =>
      simp only [Decision.turn]
      split
      · refine ⟨?_, .same rfl⟩
        cases verdict : input.verdict with
        | approve =>
            exact narrows_decision coherent verdict (fun _ held => held)
              (fun joined => by cases joined) (fun _ granted => by cases granted)
        | deny | cancel =>
            refine narrows_decision coherent ?_ (fun _ held => held)
              (fun joined => by cases joined) (fun _ granted => by cases granted)
            rw [verdict]
            exact ⟨fun joined => (by cases joined), fun same => (by cases same)⟩
      · exact ⟨narrows_refused coherent rfl, .same rfl⟩
  | gettingGroup request | gettingUser request =>
      simp only [Decision.turn]
      split
      · exact ⟨narrows_decision coherent coherent.1 (fun _ held => held)
          (fun joined => by cases joined) (fun _ granted => by cases granted), .same rfl⟩
      · exact ⟨narrows_refused coherent rfl, .same rfl⟩
  | adding request =>
      have approves : input.verdict = .approve := coherent.1
      have joins : ∀ membership : Membership,
          Narrows (.decision input (.adding request))
            (.decision input (.saving request (some membership))) := fun membership =>
        narrows_decision coherent ⟨fun _ => approves, fun _ => rfl⟩ (fun _ held => held)
          (fun _ => Or.inr rfl) (fun _ granted => by cases granted)
      simp only [Decision.turn]
      split
      · split
        · exact ⟨joins .already, .same rfl⟩
        · exact ⟨joins .added, .same rfl⟩
      · exact ⟨narrows_refused coherent rfl, .same rfl⟩
  | saving request membership =>
      have unsaved : ∀ failure, Narrows (.decision input (.saving request membership))
          (.decision input (.refused failure membership)) :=
        fun failure => narrows_refused coherent rfl
      simp only [Decision.turn]
      split
      · split
        · rename_i requests updated
          refine ⟨narrows_decision coherent coherent.1 (fun _ held => by cases held) Or.inl
            (fun _ granted => by cases granted), ?_⟩
          exact settled_of_update own updated
        · exact ⟨unsaved _, .same rfl⟩
      · exact ⟨unsaved _, .same rfl⟩
  | decided request membership =>
      exact ⟨narrows_decision coherent coherent.1 (fun _ held => held) Or.inl (fun _ granted => granted),
        .same rfl⟩
  | refused refusal membership => exact ⟨narrows_refused coherent rfl, .same rfl⟩

theorem narrows_creation {input : Creation} {phase after : Creating}
    (opens : ∀ key ∈ Call.opens (.creation input after),
      key ∈ Call.opens (.creation input phase)) :
    Narrows (.creation input phase) (.creation input after) where
  coherent := fun _ => trivial
  snapshot := fun _ held => by cases held
  opens := opens
  rejects := fun _ rejects => by cases rejects
  added := fun _ added => by cases added
  granted := fun _ granted => by cases granted

/-- Apart from the check a creation only gives up, or creates its request. -/
theorem creation_turn {input : Creation} {phase : Creating} (outcome : Outcome)
    (checked : ∀ resource groupCn, phase ≠ .opening resource groupCn) :
    Narrows (.creation input phase)
        (.creation input (input.turn outcome directory phase).2) ∧
      Effect (.creation input phase) (.creation input (input.turn outcome directory phase).2)
        directory.requests.rows (input.turn outcome directory phase).1.requests.rows := by
  have gone : ∀ after : Creating, Call.opens (.creation input after) = none →
      Narrows (.creation input phase) (.creation input after) := fun after none =>
    narrows_creation fun key opens => by
      rw [none] at opens
      cases opens
  cases phase with
  | opening resource groupCn => exact absurd rfl (checked resource groupCn)
  | finding | linking _ | memberships _ _ | reaching _ _ =>
      simp only [Creation.turn]
      repeat' split
      all_goals exact ⟨gone _ rfl, .same rfl⟩
  | creating resource groupCn =>
      simp only [Creation.turn]
      split
      · split
        · rename_i requests inserted
          refine ⟨gone _ rfl, .opened (input.row outcome resource groupCn) rfl rfl
            (fun _ => Table.mem_insert inserted) ?_⟩
          exact ⟨fun _ held => (by cases held), fun _ _ opens => (by cases opens),
            fun _ rejects => (by cases rejects)⟩
        · exact ⟨gone _ rfl, .same rfl⟩
      · exact ⟨gone _ rfl, .same rfl⟩
  | created _ | refused _ => exact ⟨gone _ rfl, .same rfl⟩

/-! ## Rows that change -/

theorem Own.of_rows (own : Own directory called)
    (same : after.requests.rows = directory.requests.rows) : Own after called where
  coherent := own.coherent
  snapshot := by
    rw [same]
    exact own.snapshot
  opens := by
    rw [same]
    exact own.opens
  added := by
    rw [same]
    exact own.added

variable (effect : Effect call next directory.requests.rows after.requests.rows)
  (held : Own directory call)
include effect

/-- A write of one call leaves alone what a call beside it relies on. -/
theorem Effect.own (own : Own directory called) (beside : Beside call called) :
    Own after called := by
  cases effect with
  | same unchanged => exact own.of_rows unchanged
  | opened row pending opens members ends =>
      constructor
      · exact own.coherent
      · intro request snapshot
        obtain ⟨member, waits⟩ := own.snapshot request snapshot
        exact ⟨(members request).mpr (Or.inl member), waits⟩
      · intro key opening other member waits same
        rcases (members other).mp member with before | rfl
        · exact own.opens key opening other before waits same
        · exact beside.opens key (same ▸ opens) opening
      · intro id added other member same
        rcases (members other).mp member with before | rfl
        · exact own.added id added other before same
        · exact Or.inl pending
  | settled request row snapshot sameId status members ends =>
      have decided : row.status ≠ .pending := by
        rcases status with ⟨approved, -⟩ | ⟨denied | cancelled, -⟩
        · rw [approved]
          exact Status.noConfusion
        · rw [denied]
          exact Status.noConfusion
        · rw [cancelled]
          exact Status.noConfusion
      constructor
      · exact own.coherent
      · intro other otherHeld
        obtain ⟨member, waits⟩ := own.snapshot other otherHeld
        exact ⟨(members other).mpr (Or.inl ⟨member,
          (beside.snapshot request snapshot other otherHeld).symm⟩), waits⟩
      · intro key opening other member waits
        rcases (members other).mp member with ⟨before, -⟩ | rfl
        · exact own.opens key opening other before waits
        · exact absurd waits decided
      · intro id added other member same
        rcases (members other).mp member with ⟨before, -⟩ | rfl
        · exact own.added id added other before same
        · rcases status with ⟨approved, -⟩ | ⟨-, rejects⟩
          · exact Or.inr approved
          · refine absurd ?_ (beside.rejects request rejects)
            rw [← sameId, same]
            exact added

include held

theorem Effect.onePending (one : OnePending directory.requests.rows) :
    OnePending after.requests.rows := by
  intro row member other memberOther waits waitsOther uid groupCn
  cases effect with
  | same unchanged =>
      rw [unchanged] at member memberOther
      exact one row member other memberOther waits waitsOther uid groupCn
  | opened fresh pending opens members ends =>
      have alone : ∀ old ∈ directory.requests.rows, old.status = .pending →
          ¬ (old.uid = fresh.uid ∧ old.groupCn = fresh.groupCn) := fun old before waits same =>
        held.opens _ opens old before waits (Prod.ext same.1 same.2)
      rcases (members row).mp member with before | rfl
      · rcases (members other).mp memberOther with beforeOther | rfl
        · exact one row before other beforeOther waits waitsOther uid groupCn
        · exact absurd ⟨uid, groupCn⟩ (alone row before waits)
      · rcases (members other).mp memberOther with beforeOther | rfl
        · exact absurd ⟨uid.symm, groupCn.symm⟩ (alone other beforeOther waitsOther)
        · rfl
  | settled request decided snapshot sameId status members ends =>
      have before : ∀ row ∈ after.requests.rows, row.status = .pending →
          row ∈ directory.requests.rows := by
        intro row member waits
        rcases (members row).mp member with ⟨before, -⟩ | rfl
        · exact before
        · rw [waits] at status
          rcases status with ⟨approved, -⟩ | ⟨denied | cancelled, -⟩
          · cases approved
          · cases denied
          · cases cancelled
      exact one row (before row member waits) other (before other memberOther waitsOther)
        waits waitsOther uid groupCn

/-- A row that is not pending stays. -/
theorem Effect.final {row : AccessRequest} (member : row ∈ directory.requests.rows)
    (decided : row.status ≠ .pending) : row ∈ after.requests.rows := by
  cases effect with
  | same unchanged => rwa [unchanged]
  | opened fresh pending opens members ends => exact (members row).mpr (Or.inl member)
  | settled request changed snapshot sameId status members ends =>
      refine (members row).mpr (Or.inl ⟨member, fun same => decided ?_⟩)
      rw [eq_of_held held snapshot member same]
      exact (held.snapshot request snapshot).2

omit effect held

/-! ## Runs -/

/-- The rows and the calls fit each other. -/
abbrev Sound : Pool Directory Call → Prop :=
  Outlined (fun directory => OnePending directory.requests.rows) Own Apart

/-- What a turn of a call comes to, before the rows change. -/
structure Turned (pool : Pool Directory Call) (index : Nat) (call next : Call)
    (after : Directory) : Prop where
  effect : Effect call next pool.shared.requests.rows after.requests.rows
  granted : ∀ request ∈ call.granted, request ∈ next.granted
  own : Own pool.shared next
  apart : ∀ other called, other ≠ index → pool.calls[other]? = some called → Apart next called

variable {pool : Pool Directory Call} {index : Nat} {outcome : Outcome}

theorem turned_of_narrows (sound : Sound pool) (found : pool.calls[index]? = some call)
    (turn : Narrows call next ∧ Effect call next pool.shared.requests.rows after.requests.rows) :
    Turned pool index call next after where
  effect := turn.2
  granted := turn.1.granted
  own := turn.1.own (sound.each index call found)
  apart := fun other called different foundOther =>
    turn.1.apart (sound.apart index other call called (Ne.symm different) found foundOther)

theorem not_pending_of_findOpen {rows : List AccessRequest} {uid groupCn : String}
    (none : findOpen rows uid groupCn = none) {row : AccessRequest} (member : row ∈ rows)
    (waits : row.status = .pending) : (row.uid, row.groupCn) ≠ (uid, groupCn) := by
  intro same
  obtain ⟨rfl, rfl⟩ := Prod.mk.inj same
  have passed := List.find?_eq_none.mp none row member
  simp [waits] at passed

theorem of_check {decision : Decision} {rows : List AccessRequest} {request : AccessRequest}
    (checked : decision.check rows = .ok request) :
    request ∈ rows ∧ request.id = decision.id ∧ request.status = .pending := by
  unfold Decision.check at checked
  split at checked
  · cases checked
  · rename_i found
    split at checked
    · cases checked
    · split at checked
      · cases checked
      · rename_i waits
        cases checked
        have same := List.find?_some found
        exact ⟨List.mem_of_find?_eq_some found, eq_of_beq same, not_not.mp waits⟩

/-- A creation that finds no open request will open one, alone. -/
theorem turned_opening {input : Creation} {resource : Resource} {groupCn : String}
    (sound : Sound pool)
    (found : pool.calls[index]? = some (.creation input (.opening resource groupCn)))
    (alone : Alone (.turn index outcome) pool) :
    Turned pool index (.creation input (.opening resource groupCn))
      (.creation input (input.turn outcome pool.shared (.opening resource groupCn)).2)
      (input.turn outcome pool.shared (.opening resource groupCn)).1 := by
  have refuses : ∀ refusal, Turned pool index (.creation input (.opening resource groupCn))
      (.creation input (.refused refusal)) pool.shared := fun refusal =>
    turned_of_narrows sound found ⟨narrows_creation fun _ opens => (by cases opens), .same rfl⟩
  simp only [Alone, found] at alone
  simp only [Creation.turn]
  split
  · rename_i ok
    split
    · exact refuses _
    · rename_i none
      refine ⟨.same rfl, fun _ granted => (by cases granted), ?_, ?_⟩
      · exact ⟨trivial, fun _ held => (by cases held), fun key opens row member waits => by
          cases opens
          exact not_pending_of_findOpen none member waits, fun _ added => (by cases added)⟩
      · intro other called different foundOther
        have free := alone ok none called (List.mem_of_getElem? foundOther)
        constructor
        · exact ⟨fun _ held => (by cases held), fun key opens => by cases opens; exact free,
            fun _ rejects => (by cases rejects)⟩
        · exact ⟨fun _ _ _ held => (by cases held), fun key opens same => by
            cases same
            exact free opens, fun _ _ added => (by cases added)⟩
  · exact refuses _

/-- A handler that passes its check holds the row, alone. -/
theorem turned_getting {input : Decision} (sound : Sound pool)
    (found : pool.calls[index]? = some (.decision input .getting))
    (alone : Alone (.turn index outcome) pool) :
    Turned pool index (.decision input .getting)
      (.decision input (input.turn outcome pool.shared .getting).2)
      (input.turn outcome pool.shared .getting).1 := by
  have own := sound.each index _ found
  have refuses : ∀ refusal, Turned pool index (.decision input .getting)
      (.decision input (.refused refusal none)) pool.shared := fun refusal =>
    turned_of_narrows sound found ⟨narrows_refused own.coherent rfl, .same rfl⟩
  simp only [Alone, found] at alone
  simp only [Decision.turn]
  split
  · rename_i ok
    split
    · exact refuses _
    · rename_i request checked
      obtain ⟨member, same, waits⟩ := of_check checked
      rw [checked] at alone
      have only := alone ok
      -- the phase after the check holds the row, and has no membership yet
      have holds : ∀ next : Deciding, next.Coherent input.verdict → next.snapshot = some request →
          next.membership = none → Turned pool index (.decision input .getting)
            (.decision input next) pool.shared := by
        intro next coherent snapshot unjoined
        have held : ∀ other ∈ Call.snapshot (.decision input next), other = request := by
          intro other held
          change other ∈ next.snapshot at held
          rw [snapshot] at held
          exact (Option.some.inj held).symm
        have unadded : Call.added (.decision input next) = none := by
          rw [Call.added, unjoined]
          rfl
        have rejected : ∀ other ∈ Call.rejects (.decision input next),
            other = request ∧ input.verdict ≠ .approve := by
          intro other rejects
          refine ⟨held other (rejects_held rejects), fun approves => ?_⟩
          rw [Call.rejects, if_pos approves] at rejects
          cases rejects
        refine ⟨.same rfl, fun _ granted => (by cases granted), ?_, ?_⟩
        · refine ⟨⟨coherent, fun other snapshot => ?_⟩, fun other snapshot => ?_,
            fun _ opens => (by cases opens), fun _ added => by rw [unadded] at added; cases added⟩
          · rw [held other snapshot]
            exact same
          · rw [held other snapshot]
            exact ⟨member, waits⟩
        · intro other called different foundOther
          obtain ⟨free, spared⟩ := only called (List.mem_of_getElem? foundOther)
          constructor
          · constructor
            · intro snapshot mine theirs heldOther
              rw [held snapshot mine]
              exact (free theirs heldOther).symm
            · exact fun _ opens => by cases opens
            · intro snapshot rejects
              obtain ⟨rfl, rejecting⟩ := rejected snapshot rejects
              exact spared.resolve_left rejecting
          · constructor
            · intro theirs heldOther snapshot mine
              rw [held snapshot mine]
              exact free theirs heldOther
            · exact fun _ _ opens => by cases opens
            · intro theirs rejects
              rw [unadded]
              exact fun same => by cases same
      cases verdict : input.verdict with
      | approve | deny => exact holds _ trivial rfl rfl
      | cancel =>
          refine holds _ ?_ rfl rfl
          rw [verdict]
          exact ⟨fun joined => (by cases joined), fun same => (by cases same)⟩
  · exact refuses _

theorem turned_turn (sound : Sound pool) (found : pool.calls[index]? = some call)
    (alone : Alone (.turn index outcome) pool) :
    Turned pool index call (handlers.turn outcome pool.shared call).2
      (handlers.turn outcome pool.shared call).1 := by
  cases call with
  | creation input phase =>
      cases phase with
      | opening resource groupCn => exact turned_opening sound found alone
      | finding | linking _ | memberships _ _ | reaching _ _ | creating _ _ | created _
      | refused _ =>
          exact turned_of_narrows sound found
            (creation_turn outcome fun _ _ same => by cases same)
  | decision input phase =>
      have own := sound.each index _ found
      cases phase with
      | getting => exact turned_getting sound found alone
      | gettingResource _ | authorizing _ _ | gettingGroup _ | gettingUser _ | adding _
      | saving _ _ | decided _ _ | refused _ _ =>
          exact turned_of_narrows sound found
            (decision_turn outcome own fun same => by cases same)
  | done =>
      refine turned_of_narrows sound found ⟨?_, .same rfl⟩
      exact ⟨id, fun _ held => held, fun _ held => held, fun _ held => held, fun _ => Or.inl,
        fun _ held => held⟩

theorem Effect.beside (effect : Effect call next directory.requests.rows after.requests.rows) :
    after.requests.rows = directory.requests.rows ∨ Beside call next := by
  cases effect with
  | same unchanged => exact Or.inl unchanged
  | opened _ _ _ _ ends | settled _ _ _ _ _ _ ends => exact Or.inr ends

theorem sound_turn (sound : Sound pool) (alone : Alone (.turn index outcome) pool) :
    Sound (handlers.apply (.turn index outcome) pool) := by
  apply Outlined.apply_turn sound (fun _ _ => apart_symm)
  intro call found
  have turned := turned_turn sound found alone
  have held := sound.each index call found
  refine ⟨turned.effect.onePending held sound.shared, ?_, fun other called different foundOther => ?_⟩
  · rcases turned.effect.beside with same | ends
    · exact turned.own.of_rows same
    · exact turned.effect.own turned.own ends
  · have apart := sound.apart index other call called (Ne.symm different) found foundOther
    exact ⟨turned.effect.own (sound.each other called foundOther) apart.1,
      turned.apart other called different foundOther⟩

/-- A call that holds nothing and has added nobody. -/
structure Call.Idle (call : Call) : Prop where
  coherent : call.Coherent
  snapshot : call.snapshot = none
  opens : call.opens = none
  added : call.added = none

theorem Call.Idle.own (idle : call.Idle) : Own directory call where
  coherent := idle.coherent
  snapshot := fun request held => absurd (idle.snapshot ▸ held) (Option.not_mem_none request)
  opens := fun key opens => absurd (idle.opens ▸ opens) (Option.not_mem_none key)
  added := fun id added => absurd (idle.added ▸ added) (Option.not_mem_none id)

theorem Call.Idle.apart (idle : call.Idle) : Apart call called := by
  have free : ∀ request, request ∉ call.snapshot := fun request held =>
    absurd (idle.snapshot ▸ held) (Option.not_mem_none request)
  constructor
  · constructor
    · exact fun request held => absurd held (free request)
    · exact fun key opens => absurd (idle.opens ▸ opens) (Option.not_mem_none key)
    · exact fun request rejects => absurd (rejects_held rejects) (free request)
  · constructor
    · exact fun _ _ other held => absurd held (free other)
    · exact fun key _ same => absurd (idle.opens.symm.trans same) (Option.some_ne_none key).symm
    · exact fun request _ same =>
        absurd (idle.added.symm.trans same) (Option.some_ne_none request.id).symm

/-- What a call does when it comes in. -/
theorem idle_call (input : Input) (directory : Directory) :
    (handlers.call input directory).1.requests = directory.requests ∧
      (handlers.call input directory).2.Idle := by
  cases input with
  | create creation =>
      refine ⟨rfl, ?_⟩
      change Call.Idle (.creation creation creation.start)
      unfold Creation.start
      split <;> exact ⟨trivial, rfl, rfl, rfl⟩
  | decide decision => exact ⟨rfl, ⟨trivial, fun _ held => by cases held⟩, rfl, rfl, rfl⟩
  | setMembers members => exact ⟨rfl, trivial, rfl, rfl, rfl⟩

theorem sound_call {input : Input} (sound : Sound pool) :
    Sound (handlers.apply (.call input) pool) := by
  obtain ⟨same, idle⟩ := idle_call input pool.shared
  apply Outlined.apply_call sound (fun _ _ => apart_symm)
  · rw [same]
    exact ⟨sound.shared, idle.own⟩
  · exact fun index called found =>
      ⟨(sound.each index called found).of_rows (by rw [same]), idle.apart⟩

/-- Each approved row has a call that has approved it. -/
def Granted (pool : Pool Directory Call) : Prop :=
  ∀ row ∈ pool.shared.requests.rows, row.status = .approved →
    ∃ (index : Nat) (call : Call), pool.calls[index]? = some call ∧ call.granted = some row

theorem granted_apply {event : Event Input Outcome} (sound : Sound pool)
    (alone : Alone event pool) (granted : Granted pool) :
    Granted (handlers.apply event pool) := by
  intro row member approved
  cases event with
  | call input =>
      have before : row ∈ pool.shared.requests.rows := by
        cases input <;> exact member
      obtain ⟨index, call, found, holds⟩ := granted row before approved
      exact ⟨index, call, getElem?_apply_call_of_some found, holds⟩
  | turn index outcome =>
      cases found : pool.calls[index]? with
      | none =>
          rw [apply_turn_of_none found] at member ⊢
          exact granted row member approved
      | some call =>
          have turned := turned_turn sound found alone
          have here : (handlers.apply (.turn index outcome) pool).calls[index]? =
              some (handlers.turn outcome pool.shared call).2 := getElem?_apply_turn_self found
          rw [shared_apply_turn found] at member
          -- a row from before keeps its call, whose own turn keeps what it has granted
          have kept : row ∈ pool.shared.requests.rows → ∃ (position : Nat) (call : Call),
              (handlers.apply (.turn index outcome) pool).calls[position]? = some call ∧
                call.granted = some row := by
            intro before
            obtain ⟨position, earlier, foundEarlier, holds⟩ := granted row before approved
            by_cases same : index = position
            · subst same
              cases found.symm.trans foundEarlier
              exact ⟨index, _, here, turned.granted row holds⟩
            · exact ⟨position, earlier, (getElem?_apply_turn_of_ne same).trans foundEarlier, holds⟩
          cases turned.effect with
          | same unchanged => exact kept (unchanged ▸ member)
          | opened fresh pending opens members ends =>
              rcases (members row).mp member with before | rfl
              · exact kept before
              · cases pending.symm.trans approved
          | settled request decided snapshot sameId status members ends =>
              rcases (members row).mp member with ⟨before, -⟩ | rfl
              · exact kept before
              · rcases status with ⟨-, holds⟩ | ⟨denied | cancelled, -⟩
                · exact ⟨index, _, here, holds⟩
                · cases denied.symm.trans approved
                · cases cancelled.symm.trans approved

def Settled (pool : Pool Directory Call) : Prop := Sound pool ∧ Granted pool

theorem consistent_of_sound (sound : Sound pool) (granted : Granted pool) : Consistent pool where
  onePending := sound.shared
  approved := by
    intro row member approved
    obtain ⟨index, call, found, holds⟩ := granted row member approved
    exact ⟨call, List.mem_of_getElem? found, row, holds, rfl, rfl, rfl⟩
  spared := by
    intro row member rejected call listed added
    obtain ⟨index, found⟩ := List.mem_iff_getElem?.mp listed
    have spared := (sound.each index call found).added row.id added row member rfl
    rcases rejected with denied | cancelled
    · rw [denied] at spared
      exact spared.elim Status.noConfusion Status.noConfusion
    · rw [cancelled] at spared
      exact spared.elim Status.noConfusion Status.noConfusion

private def wiki : Resource := ⟨"r1", some "bob", true⟩

/-- Everything works, and the resource is Bob's. -/
private def replies (now : Nat) : Outcome :=
  ⟨true, "", now, "u" ++ toString now, some wiki, [⟨"app_wiki_access", "member"⟩], [], false⟩

private def asks : Event Input Outcome := .call (.create ⟨"ada", false, none, none⟩)

private def decides (verdict : Verdict) (id : String) : Event Input Outcome :=
  .call (.decide ⟨verdict, id, "bob", none⟩)

/-- A call takes so many turns at some time. -/
private def takes (index turns now : Nat) : List (Event Input Outcome) :=
  List.replicate turns (.turn index (replies now))

/-- A request is approved after its approval has failed to save, and denying it then is
refused; a second one is denied. -/
private def oneByOne : List (Event Input Outcome) :=
  [asks] ++ takes 0 6 1 ++ [decides .approve "u1"] ++ takes 1 6 2 ++
    [.turn 1 { replies 2 with ok := false }, decides .approve "u1"] ++ takes 2 7 3 ++
    [decides .deny "u1"] ++ takes 3 4 4 ++ [asks] ++ takes 4 6 5 ++ [decides .deny "u5"] ++
    takes 5 4 6

end ThetaDirectory.Access.Requests
