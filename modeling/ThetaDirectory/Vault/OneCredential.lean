import ThetaDirectory.Vault.AppTokens

/-!
# One live credential per app

A mint replaces the row of the app's accessor in steps.  Which tokens are live, and whose
accessors are stored, through every run in which no two calls replace the row of one app at once.
-/

namespace ThetaDirectory.Vault.AppTokens

open Library Library.Interleaving

/-! ## Where a call stands -/

/-- The token that a call has minted and not stored yet. -/
def Phase.pending : Phase → Option Nat
  | .looking accessor | .revoking accessor _ | .deleting accessor _ | .storing accessor =>
      some accessor
  | _ => none

/-- The row that a call is about to delete. -/
def Phase.existing : Phase → Option VaultAppToken
  | .revoking _ existing | .deleting _ existing => some existing
  | _ => none

/-- The row whose token a call has revoked. -/
def Phase.deletes : Phase → Option VaultAppToken
  | .deleting _ existing => some existing
  | _ => none

def Phase.stores : Phase → Bool
  | .storing _ => true
  | _ => false

def Phase.hasReturned : Phase → Bool
  | .returned _ => true
  | _ => false

/-- The call replaces the app's row. -/
def Phase.replaces : Phase → Bool
  | .revoking _ _ | .deleting _ _ | .storing _ => true
  | _ => false

def Phase.ended : Phase → Bool
  | .returned _ | .thrown _ => true
  | _ => false

/-! ## The property -/

/-- The accessors of the tokens of an app that are not revoked. -/
def live (minted : List Token) (name : String) : List Nat :=
  (List.range minted.length).filter fun accessor => minted[accessor]? == some ⟨name, false⟩

/-- When all calls have ended, an app that a token was minted for has one live token, and its
accessor is stored. -/
def OneLive (pool : Pool State Call) : Prop :=
  (∀ call ∈ pool.calls, call.phase.ended = true) →
    ∀ call ∈ pool.calls, call.phase.hasReturned = true →
      ∃ row ∈ pool.shared.rows.rows, row.name = call.name ∧
        live pool.shared.minted call.name = [row.accessor]

instance (pool : Pool State Call) : Decidable (OneLive pool) := by
  unfold OneLive
  infer_instance

/-- The requests to OpenBao succeed. -/
def Served : Event Input Outcome → Prop
  | .turn _ outcome => outcome.bao = .ok
  | .call _ => True

instance : (event : Event Input Outcome) → Decidable (Served event)
  | .turn _ _ => by
      unfold Served
      infer_instance
  | .call _ => isTrue trivial

/-- A new row has an id of its own. -/
def FreshUuid (event : Event Input Outcome) (pool : Pool State Call) : Prop :=
  match event with
  | .turn _ outcome => ∀ row ∈ pool.shared.rows.rows, row.id ≠ outcome.uuid
  | .call _ => True

/-- A call looks up the app's row only when no other one replaces it, and the database does not
fail a call that replaces it. -/
def Alone (event : Event Input Outcome) (pool : Pool State Call) : Prop :=
  match event with
  | .turn index outcome =>
      match pool.calls[index]? with
      | some ⟨name, _, .looking _⟩ => outcome.db = true ∧
          ∀ call ∈ pool.calls, call.name = name → call.phase.replaces = false
      | some ⟨_, _, .deleting _ _⟩ | some ⟨_, _, .storing _⟩ => outcome.db = true
      | _ => True
  | .call _ => True

instance (event : Event Input Outcome) (pool : Pool State Call) :
    Decidable (FreshUuid event pool) := by
  unfold FreshUuid
  split <;> infer_instance

instance (event : Event Input Outcome) (pool : Pool State Call) : Decidable (Alone event pool) := by
  unfold Alone
  split
  · split <;> infer_instance
  · infer_instance

/-- What a run is to meet. -/
def Meets (event : Event Input Outcome) (pool : Pool State Call) : Prop :=
  Served event ∧ FreshUuid event pool ∧ Alone event pool

/-! ## The invariant -/

/-- The accessor of a row is that of a token of its app. -/
def Known (state : State) : Prop :=
  ∀ row ∈ state.rows.rows, ∃ revoked, state.minted[row.accessor]? = some ⟨row.name, revoked⟩

/-- What a call relies on: its own token is live and not stored, and the row it replaces is that
of its app, or gone. -/
structure Own (state : State) (call : Call) : Prop where
  pending : ∀ accessor ∈ call.phase.pending, state.minted[accessor]? = some ⟨call.name, false⟩ ∧
    ∀ row ∈ state.rows.rows, row.accessor ≠ accessor
  existing : ∀ row ∈ call.phase.existing, row ∈ state.rows.rows ∧ row.name = call.name
  deletes : ∀ row ∈ call.phase.deletes, state.minted[row.accessor]? = some ⟨row.name, true⟩
  stores : call.phase.stores = true → ∀ row ∈ state.rows.rows, row.name ≠ call.name

/-- Two calls have different tokens and do not replace the row of the same app. -/
structure Apart (call called : Call) : Prop where
  pending : ∀ accessor ∈ call.phase.pending, called.phase.pending ≠ some accessor
  replaces : call.phase.replaces = true → called.phase.replaces = true → call.name ≠ called.name

theorem apart_symm {call called : Call} (apart : Apart call called) : Apart called call where
  pending := fun accessor held same => apart.pending accessor same held
  replaces := fun replaces replacesOther same =>
    apart.replaces replacesOther replaces same.symm

/-- Every live token is stored or about to be, every row whose token is revoked is about to be
deleted, and an app whose call has returned has a row or is about to have one. -/
structure Accounted (pool : Pool State Call) : Prop where
  live : ∀ (accessor : Nat) (name : String), pool.shared.minted[accessor]? = some ⟨name, false⟩ →
    (∃ row ∈ pool.shared.rows.rows, row.name = name ∧ row.accessor = accessor) ∨
      pool.Has fun call => call.phase.pending = some accessor
  revoked : ∀ row ∈ pool.shared.rows.rows,
    pool.shared.minted[row.accessor]? = some ⟨row.name, true⟩ →
      pool.Has fun call => call.phase.deletes = some row
  returned : ∀ call ∈ pool.calls, call.phase.hasReturned = true →
    (∃ row ∈ pool.shared.rows.rows, row.name = call.name) ∨
      pool.Has fun called => called.phase.stores = true ∧ called.name = call.name

/-- What a turn does when OpenBao and the database work. -/
inductive Turned (state : State) (name : String) : Phase → State → Phase → Prop where
  | idle {phase next : Phase} (before : phase.pending = none) (idle : next.pending = none)
      (returned : next.hasReturned = true → phase.hasReturned = true) :
      Turned state name phase state next
  | minted {fallback : Bool} :
      Turned state name (.minting fallback)
        { state with minted := state.minted ++ [⟨name, false⟩] } (.looking state.minted.length)
  | found {accessor : Nat} {existing : VaultAppToken} (member : existing ∈ state.rows.rows)
      (same : existing.name = name) :
      Turned state name (.looking accessor) state (.revoking accessor existing)
  | absent {accessor : Nat} (none : ∀ row ∈ state.rows.rows, row.name ≠ name) :
      Turned state name (.looking accessor) state (.storing accessor)
  | revoked {accessor : Nat} {existing : VaultAppToken} :
      Turned state name (.revoking accessor existing)
        { state with minted := revoke existing.accessor state.minted }
        (.deleting accessor existing)
  | deleted {accessor : Nat} {existing : VaultAppToken} :
      Turned state name (.deleting accessor existing)
        { state with rows := state.rows.remove fun row => row.id == existing.id }
        (.storing accessor)
  | stored {accessor : Nat} {rows : TokenTable} {row : VaultAppToken}
      (inserted : state.rows.insert row = some rows) (names : row.name = name)
      (keeps : row.accessor = accessor) :
      Turned state name (.storing accessor) { state with rows := rows } (.returned accessor)

variable {pool : Pool State Call} {index : Nat} {outcome : Outcome} {call : Call}

theorem turned_turn (found : pool.calls[index]? = some call) (own : Own pool.shared call)
    (meets : Meets (.turn index outcome) pool) :
    Turned pool.shared call.name call.phase
      (call.phase.turn outcome call.name call.actorUid pool.shared).1
      (call.phase.turn outcome call.name call.actorUid pool.shared).2 := by
  obtain ⟨served, fresh, alone⟩ := meets
  change outcome.bao = .ok at served
  simp only [Alone, found] at alone
  obtain ⟨name, actorUid, phase⟩ := call
  cases phase with
  | preparing =>
      simp only [Phase.turn]
      split <;> exact .idle rfl rfl fun returned => by cases returned
  | minting fallback =>
      simp only [Phase.turn, served, if_true]
      exact .minted
  | looking accessor =>
      simp only [Phase.turn, alone.1, if_true]
      split
      · rename_i existing looked
        have same := List.find?_some looked
        exact .found (List.mem_of_find?_eq_some looked) (eq_of_beq same)
      · rename_i looked
        exact .absent fun row member => by simpa using List.find?_eq_none.mp looked row member
  | revoking accessor existing =>
      simp only [Phase.turn, served]
      exact .revoked
  | deleting accessor existing =>
      have works : outcome.db = true := alone
      simp only [Phase.turn, works, if_true]
      exact .deleted
  | storing accessor =>
      have works : outcome.db = true := alone
      have fits : ∀ row ∈ pool.shared.rows.rows, Differ [VaultAppToken.id, VaultAppToken.name] row
          ⟨outcome.uuid, name, accessor, actorUid⟩ := by
        intro row member column listed
        rcases List.mem_cons.mp listed with rfl | rest
        · exact fresh row member
        · rw [List.mem_singleton.mp rest]
          exact own.stores rfl row member
      obtain ⟨rows, inserted⟩ := Option.isSome_iff_exists.mp (Table.insert_isSome.mpr fits)
      simp only [Phase.turn, works, if_true]
      rw [inserted]
      exact .stored inserted rfl rfl
  | returned accessor => exact .idle rfl rfl fun returned => returned
  | thrown error => exact .idle rfl rfl fun returned => returned

/-! ## One turn -/

variable {state after : State} {name : String} {actorUid : Option String} {phase next : Phase}

theorem existing_eq_none (idle : phase.pending = none) : phase.existing = none := by
  cases phase <;> first | rfl | cases idle

theorem deletes_eq_none (idle : phase.pending = none) : phase.deletes = none := by
  cases phase <;> first | rfl | cases idle

theorem stores_eq_false (idle : phase.pending = none) : phase.stores = false := by
  cases phase <;> first | rfl | cases idle

theorem replaces_eq_false (idle : phase.pending = none) : phase.replaces = false := by
  cases phase <;> first | rfl | cases idle

theorem replaces_of_existing {row : VaultAppToken} (held : row ∈ phase.existing) :
    phase.replaces = true := by
  cases phase <;> first | rfl | cases held

theorem replaces_of_stores (stores : phase.stores = true) : phase.replaces = true := by
  cases phase <;> first | rfl | cases stores

theorem pending_of_ended (ended : phase.ended = true) : phase.pending = none := by
  cases phase <;> first | rfl | cases ended

theorem own_of_idle (idle : call.phase.pending = none) : Own state call where
  pending := fun accessor held => by
    rw [idle] at held
    cases held
  existing := fun row held => by
    rw [existing_eq_none idle] at held
    cases held
  deletes := fun row held => by
    rw [deletes_eq_none idle] at held
    cases held
  stores := fun stores => by
    rw [stores_eq_false idle] at stores
    cases stores

theorem apart_of_idle {called : Call} (idle : call.phase.pending = none) : Apart call called where
  pending := fun accessor held => by
    rw [idle] at held
    cases held
  replaces := fun replaces => by
    rw [replaces_eq_false idle] at replaces
    cases replaces

theorem getElem?_append {minted : List Token} {accessor : Nat} {token : Token}
    (found : minted[accessor]? = some token) (added : Token) :
    (minted ++ [added])[accessor]? = some token :=
  (List.getElem?_append_left (List.getElem?_eq_some_iff.mp found).1).trans found

theorem getElem?_revoke {minted : List Token} {accessor : Nat} (revoked : Nat) :
    (revoke revoked minted)[accessor]? =
      if revoked = accessor then
        minted[accessor]?.map fun token => { token with revoked := true }
      else minted[accessor]? := by
  rw [revoke, List.getElem?_modify]
  split <;> simp

theorem known_turned (known : Known state) (own : Own state ⟨name, actorUid, phase⟩)
    (turned : Turned state name phase after next) : Known after := by
  cases turned with
  | idle | found | absent => exact known
  | minted =>
      intro row member
      obtain ⟨revoked, found⟩ := known row member
      exact ⟨revoked, getElem?_append found _⟩
  | revoked =>
      intro row member
      obtain ⟨revoked, found⟩ := known row member
      rw [getElem?_revoke, found]
      split
      · exact ⟨true, rfl⟩
      · exact ⟨revoked, rfl⟩
  | deleted => exact fun row member => known row (Table.mem_remove.mp member).1
  | stored inserted names keeps =>
      intro row member
      rcases (Table.mem_insert inserted).mp member with old | rfl
      · exact known row old
      · rw [names, keeps]
        exact ⟨false, (own.pending _ rfl).1⟩

theorem own_turned (known : Known state) (own : Own state ⟨name, actorUid, phase⟩)
    (turned : Turned state name phase after next) : Own after ⟨name, actorUid, next⟩ := by
  cases turned with
  | idle _ idle => exact own_of_idle idle
  | minted =>
      constructor
      · intro accessor held
        cases held
        refine ⟨List.getElem?_concat_length, ?_⟩
        intro row member same
        obtain ⟨revoked, found⟩ := known row member
        rw [same] at found
        exact Nat.lt_irrefl _ (List.getElem?_eq_some_iff.mp found).1
      · exact fun row held => by cases held
      · exact fun row held => by cases held
      · exact fun stores => by cases stores
  | found member same =>
      constructor
      · exact own.pending
      · intro row held
        cases held
        exact ⟨member, same⟩
      · exact fun row held => by cases held
      · exact fun stores => by cases stores
  | absent none =>
      constructor
      · exact own.pending
      · exact fun row held => by cases held
      · exact fun row held => by cases held
      · exact fun _ => none
  | @revoked accessor existing =>
      obtain ⟨live, unstored⟩ := own.pending accessor rfl
      obtain ⟨member, same⟩ := own.existing existing rfl
      constructor
      · intro held at_held
        cases at_held
        rw [getElem?_revoke, if_neg (unstored existing member)]
        exact ⟨live, unstored⟩
      · exact own.existing
      · intro row held
        cases held
        obtain ⟨revoked, found⟩ := known existing member
        rw [getElem?_revoke, if_pos rfl, found]
        rfl
      · exact fun stores => by cases stores
  | @deleted accessor existing =>
      obtain ⟨member, same⟩ := own.existing existing rfl
      constructor
      · intro held at_held
        obtain ⟨live, unstored⟩ := own.pending held at_held
        exact ⟨live, fun row kept => unstored row (Table.mem_remove.mp kept).1⟩
      · exact fun row held => by cases held
      · exact fun row held => by cases held
      · intro _ row kept names
        obtain ⟨old, different⟩ := Table.mem_remove.mp kept
        have one : row = existing :=
          Table.eq_of_column VaultAppToken.name (by simp) old member (names.trans same.symm)
        simp [one] at different
  | stored => exact own_of_idle rfl

/-- A turn leaves what the other calls rely on. -/
theorem own_turned_other {called : Call} (own : Own state ⟨name, actorUid, phase⟩)
    (turned : Turned state name phase after next) (other : Own state called)
    (apart : Apart ⟨name, actorUid, phase⟩ called) : Own after called := by
  cases turned with
  | idle | found | absent => exact other
  | minted =>
      exact { other with
        pending := fun accessor held =>
          ⟨getElem?_append (other.pending accessor held).1 _, (other.pending accessor held).2⟩
        deletes := fun row held => getElem?_append (other.deletes row held) _ }
  | @revoked accessor existing =>
      exact { other with
        pending := by
          intro held at_held
          obtain ⟨live, unstored⟩ := other.pending held at_held
          rw [getElem?_revoke, if_neg (unstored existing (own.existing existing rfl).1)]
          exact ⟨live, unstored⟩
        deletes := by
          intro row held
          rw [getElem?_revoke, other.deletes row held]
          split <;> rfl }
  | @deleted accessor existing =>
      exact { other with
        pending := fun held at_held =>
          ⟨(other.pending held at_held).1, fun row kept =>
            (other.pending held at_held).2 row (Table.mem_remove.mp kept).1⟩
        existing := by
          intro row held
          obtain ⟨member, names⟩ := other.existing row held
          refine ⟨Table.mem_remove.mpr ⟨member, ?_⟩, names⟩
          apply beq_false_of_ne
          intro same
          obtain ⟨there, named⟩ := own.existing existing rfl
          have one : row = existing :=
            Table.eq_of_column VaultAppToken.id (by simp) member there same
          apply apart.replaces rfl (replaces_of_existing held)
          rw [← names, one, named]
        stores := fun stores row kept => other.stores stores row (Table.mem_remove.mp kept).1 }
  | @stored accessor rows row inserted names keeps =>
      exact { other with
        pending := by
          intro held at_held
          obtain ⟨live, unstored⟩ := other.pending held at_held
          refine ⟨live, ?_⟩
          intro kept member
          rcases (Table.mem_insert inserted).mp member with old | rfl
          · exact unstored kept old
          · intro same
            rw [keeps] at same
            exact apart.pending accessor rfl (same ▸ at_held)
        existing := fun kept held =>
          ⟨(Table.mem_insert inserted).mpr (Or.inl (other.existing kept held).1),
            (other.existing kept held).2⟩
        stores := by
          intro stores kept member
          rcases (Table.mem_insert inserted).mp member with old | rfl
          · exact other.stores stores kept old
          · intro same
            exact apart.replaces rfl (replaces_of_stores stores) (names.symm.trans same) }

/-- A turn keeps two calls apart if a call begins to replace a row only alone. -/
theorem apart_turned {called : Call} (turned : Turned state name phase after next)
    (alone : ∀ accessor, phase = .looking accessor → called.name = name →
      called.phase.replaces = false)
    (other : Own state called) (apart : Apart ⟨name, actorUid, phase⟩ called) :
    Apart ⟨name, actorUid, next⟩ called := by
  have single : ∀ accessor, phase = .looking accessor → called.phase.replaces = true →
      name ≠ called.name := by
    intro accessor looking replaces same
    rw [alone accessor looking same.symm] at replaces
    cases replaces
  cases turned with
  | idle _ idle => exact apart_of_idle idle
  | minted =>
      constructor
      · intro accessor held same
        cases held
        exact Nat.lt_irrefl _
          (List.getElem?_eq_some_iff.mp (other.pending _ same).1).1
      · exact fun replaces => by cases replaces
  | found | absent => exact ⟨apart.pending, fun _ => single _ rfl⟩
  | revoked | deleted => exact ⟨apart.pending, apart.replaces⟩
  | stored => exact apart_of_idle rfl

/-! ## Every event -/

structure Sound (pool : Pool State Call) : Prop where
  outlined : Outlined Known Own Apart pool
  accounted : Accounted pool

theorem start_idle (input : Input) : input.start.pending = none ∧ input.start.hasReturned = false := by
  unfold Input.start
  split <;> exact ⟨rfl, rfl⟩

theorem sound_call {input : Input} (sound : Sound pool) :
    Sound (mints.apply (.call input) pool) where
  outlined := by
    apply sound.outlined.apply_call fun _ _ => apart_symm
    · exact ⟨sound.outlined.shared, own_of_idle (start_idle input).1⟩
    · exact fun index called found =>
        ⟨sound.outlined.each index called found, apart_of_idle (start_idle input).1⟩
  accounted := by
    constructor
    · exact fun accessor name found =>
        (sound.accounted.live accessor name found).imp_right has_apply_call
    · exact fun row member revoked =>
        has_apply_call (sound.accounted.revoked row member revoked)
    · intro call listed returned
      rcases List.mem_append.mp listed with old | new
      · exact (sound.accounted.returned call old returned).imp_right has_apply_call
      · rw [List.mem_singleton.mp new] at returned
        rw [(start_idle input).2] at returned
        cases returned

theorem outlined_turn (sound : Sound pool) (meets : Meets (.turn index outcome) pool) :
    Outlined Known Own Apart (mints.apply (.turn index outcome) pool) := by
  apply sound.outlined.apply_turn fun _ _ => apart_symm
  intro call found
  have own := sound.outlined.each index call found
  have turned := turned_turn found own meets
  refine ⟨known_turned sound.outlined.shared own turned,
    own_turned sound.outlined.shared own turned, ?_⟩
  intro other called different there
  have apart := sound.outlined.apart index other call called different.symm found there
  have otherOwn := sound.outlined.each other called there
  refine ⟨own_turned_other own turned otherOwn apart, apart_turned turned ?_ otherOwn apart⟩
  obtain ⟨-, -, alone⟩ := meets
  intro accessor looking same
  obtain ⟨name, actorUid, phase⟩ := call
  change phase = .looking accessor at looking
  subst looking
  simp only [Alone, found] at alone
  exact alone.2 called (List.mem_of_getElem? there) same

theorem live_turned {next : Phase} (sound : Sound pool)
    (found : pool.calls[index]? = some call)
    (turned : Turned pool.shared call.name call.phase after next) {accessor : Nat}
    (live : after.minted[accessor]? = some ⟨name, false⟩) :
    (∃ row ∈ after.rows.rows, row.name = name ∧ row.accessor = accessor) ∨
      Pool.Has (fun call : Call => call.phase.pending = some accessor)
        ⟨after, pool.calls.set index { call with phase := next }⟩ := by
  have own := sound.outlined.each index call found
  obtain ⟨called, actorUid, phase⟩ := call
  cases turned with
  | idle before =>
      apply (sound.accounted.live accessor name live).imp_right (has_set found _)
      intro held
      rw [before] at held
      cases held
  | minted =>
      rcases Positions.getElem?_concat_iff.mp live with old | ⟨rfl, -⟩
      · apply (sound.accounted.live accessor name old).imp_right (has_set found _)
        exact fun held => by cases held
      · exact Or.inr (has_set_self found rfl)
  | found | absent => exact (sound.accounted.live accessor name live).imp_right (has_set found id)
  | @revoked replaced existing =>
      have old : pool.shared.minted[accessor]? = some ⟨name, false⟩ := by
        rw [getElem?_revoke] at live
        split at live
        · obtain ⟨token, -, same⟩ := Option.map_eq_some_iff.mp live
          cases same
        · exact live
      exact (sound.accounted.live accessor name old).imp_right (has_set found id)
  | @deleted replaced existing =>
      refine (sound.accounted.live accessor name live).imp ?_ (has_set found fun held => held)
      rintro ⟨row, member, names, rfl⟩
      refine ⟨row, Table.mem_remove.mpr ⟨member, beq_false_of_ne ?_⟩, names, rfl⟩
      intro same
      have one : row = existing :=
        Table.eq_of_column VaultAppToken.id (by simp) member (own.existing existing rfl).1 same
      rw [one, own.deletes existing rfl] at live
      cases live
  | @stored stored rows row inserted names keeps =>
      rcases sound.accounted.live accessor name live with ⟨old, member, same⟩ | pending
      · exact Or.inl ⟨old, (Table.mem_insert inserted).mpr (Or.inl member), same⟩
      · by_cases mine : stored = accessor
        · subst mine
          have same := (own.pending stored rfl).1.symm.trans live
          refine Or.inl ⟨row, (Table.mem_insert inserted).mpr (Or.inr rfl), ?_, keeps⟩
          rw [names]
          exact congrArg Token.name (Option.some.inj same)
        · apply Or.inr (has_set found _ pending)
          exact fun held => absurd (Option.some.inj held) mine

theorem revoked_turned {next : Phase} (sound : Sound pool)
    (found : pool.calls[index]? = some call)
    (turned : Turned pool.shared call.name call.phase after next) {row : VaultAppToken}
    (member : row ∈ after.rows.rows)
    (revoked : after.minted[row.accessor]? = some ⟨row.name, true⟩) :
    Pool.Has (fun call : Call => call.phase.deletes = some row)
      ⟨after, pool.calls.set index { call with phase := next }⟩ := by
  have own := sound.outlined.each index call found
  obtain ⟨called, actorUid, phase⟩ := call
  cases turned with
  | idle before =>
      apply has_set found _ (sound.accounted.revoked row member revoked)
      intro held
      rw [deletes_eq_none before] at held
      cases held
  | minted =>
      obtain ⟨gone, known⟩ := sound.outlined.shared row member
      have same := (getElem?_append known _).symm.trans revoked
      cases same
      exact has_set found (fun held => by cases held) (sound.accounted.revoked row member known)
  | found | absent =>
      exact has_set found (fun held => by cases held) (sound.accounted.revoked row member revoked)
  | @revoked replaced existing =>
      obtain ⟨there, names⟩ := own.existing existing rfl
      obtain ⟨gone, known⟩ := sound.outlined.shared row member
      by_cases same : existing.accessor = row.accessor
      · obtain ⟨other, knownOther⟩ := sound.outlined.shared existing there
        rw [same, known] at knownOther
        have sameName : row.name = existing.name := congrArg Token.name (Option.some.inj knownOther)
        have one : row = existing :=
          Table.eq_of_column VaultAppToken.name (by simp) member there sameName
        exact has_set_self found (congrArg some one.symm)
      · rw [getElem?_revoke, if_neg same] at revoked
        exact has_set found (fun held => by cases held) (sound.accounted.revoked row member revoked)
  | @deleted replaced existing =>
      obtain ⟨old, different⟩ := Table.mem_remove.mp member
      apply has_set found _ (sound.accounted.revoked row old revoked)
      intro held
      cases held
      simp at different
  | @stored stored rows new inserted names keeps =>
      rcases (Table.mem_insert inserted).mp member with old | rfl
      · exact has_set found (fun held => by cases held) (sound.accounted.revoked row old revoked)
      · have live := (own.pending stored rfl).1
        rw [keeps] at revoked
        exact absurd (live.symm.trans revoked) (by simp)

theorem returned_turned {next : Phase} (sound : Sound pool)
    (found : pool.calls[index]? = some call)
    (turned : Turned pool.shared call.name call.phase after next) {other : Call}
    (listed : other ∈ pool.calls.set index { call with phase := next })
    (returned : other.phase.hasReturned = true) :
    (∃ row ∈ after.rows.rows, row.name = other.name) ∨
      Pool.Has (fun called : Call => called.phase.stores = true ∧ called.name = other.name)
        ⟨after, pool.calls.set index { call with phase := next }⟩ := by
  have own := sound.outlined.each index call found
  have here := List.mem_of_getElem? found
  have before (old : other ∈ pool.calls) := sound.accounted.returned other old returned
  obtain ⟨called, actorUid, phase⟩ := call
  cases turned with
  | idle idle _ stays =>
      have kept : (∃ row ∈ pool.shared.rows.rows, row.name = other.name) ∨
          pool.Has fun called => called.phase.stores = true ∧ called.name = other.name := by
        rcases List.mem_or_eq_of_mem_set listed with old | rfl
        · exact before old
        · exact sound.accounted.returned ⟨called, actorUid, phase⟩ here (stays returned)
      apply kept.imp_right (has_set found _)
      rintro ⟨stores, -⟩
      rw [stores_eq_false idle] at stores
      cases stores
  | minted | found | absent | revoked =>
      rcases List.mem_or_eq_of_mem_set listed with old | rfl
      · apply (before old).imp_right (has_set found _)
        rintro ⟨stores, -⟩
        cases stores
      · cases returned
  | @deleted replaced existing =>
      rcases List.mem_or_eq_of_mem_set listed with old | rfl
      · rcases before old with ⟨row, member, names⟩ | storing
        · by_cases same : row.id = existing.id
          · obtain ⟨there, named⟩ := own.existing existing rfl
            have one : row = existing :=
              Table.eq_of_column VaultAppToken.id (by simp) member there same
            refine Or.inr (has_set_self found ⟨rfl, ?_⟩)
            exact named.symm.trans (one ▸ names)
          · exact Or.inl ⟨row, Table.mem_remove.mpr ⟨member, beq_false_of_ne same⟩, names⟩
        · apply Or.inr (has_set found _ storing)
          rintro ⟨stores, -⟩
          cases stores
      · cases returned
  | @stored stored rows row inserted names keeps =>
      have new : row ∈ rows.rows := (Table.mem_insert inserted).mpr (Or.inr rfl)
      by_cases same : called = other.name
      · exact Or.inl ⟨row, new, names.trans same⟩
      · rcases List.mem_or_eq_of_mem_set listed with old | rfl
        · refine (before old).imp ?_ (has_set found fun storing => absurd storing.2 same)
          rintro ⟨kept, member, sameName⟩
          exact ⟨kept, (Table.mem_insert inserted).mpr (Or.inl member), sameName⟩
        · exact absurd rfl same

theorem sound_apply {event : Event Input Outcome} (sound : Sound pool)
    (meets : Meets event pool) : Sound (mints.apply event pool) := by
  cases event with
  | call input => exact sound_call sound
  | turn index outcome =>
      cases found : pool.calls[index]? with
      | none => rwa [apply_turn_of_none found]
      | some call =>
          have turned := turned_turn found (sound.outlined.each index call found) meets
          have outlined := outlined_turn sound meets
          rw [apply_turn_of_some found] at outlined ⊢
          refine ⟨outlined, ?_, ?_, ?_⟩
          · exact fun accessor name live => live_turned sound found turned live
          · exact fun row member revoked => revoked_turned sound found turned member revoked
          · exact fun other listed returned => returned_turned sound found turned listed returned

/-! ## The end of a run -/

theorem mem_live {minted : List Token} {accessor : Nat} :
    accessor ∈ live minted name ↔ minted[accessor]? = some ⟨name, false⟩ := by
  rw [live, List.mem_filter, List.mem_range, beq_iff_eq]
  exact and_iff_right_of_imp fun found => (List.getElem?_eq_some_iff.mp found).1

theorem nodup_live (minted : List Token) (name : String) : (live minted name).Nodup :=
  List.nodup_range.filter _

theorem oneLive_of_sound (sound : Sound pool) : OneLive pool := by
  intro ended call listed returned
  have idle (called : Call) (position : Nat) (there : pool.calls[position]? = some called) :
      called.phase.pending = none :=
    pending_of_ended (ended called (List.mem_of_getElem? there))
  rcases sound.accounted.returned call listed returned with ⟨row, member, names⟩ | storing
  · refine ⟨row, member, names, ?_⟩
    have only (accessor : Nat) : accessor ∈ live pool.shared.minted call.name ↔
        accessor = row.accessor := by
      rw [mem_live]
      constructor
      · intro found
        rcases sound.accounted.live accessor call.name found with ⟨other, there, same, rfl⟩ | pending
        · have one : other = row :=
            Table.eq_of_column VaultAppToken.name (by simp) there member (same.trans names.symm)
          exact congrArg VaultAppToken.accessor one
        · obtain ⟨position, called, there, held⟩ := pending
          rw [idle called position there] at held
          cases held
      · rintro rfl
        obtain ⟨revoked, known⟩ := sound.outlined.shared row member
        rw [known, names]
        cases revoked with
        | false => rfl
        | true =>
            obtain ⟨position, called, there, held⟩ := sound.accounted.revoked row member known
            rw [deletes_eq_none (idle called position there)] at held
            cases held
    apply List.perm_singleton.mp
    rw [List.perm_ext_iff_of_nodup (nodup_live _ _) (List.pairwise_singleton _ _)]
    exact fun accessor => (only accessor).trans List.mem_singleton.symm
  · obtain ⟨position, called, there, stores, -⟩ := storing
    rw [stores_eq_false (idle called position there)] at stores
    cases stores

theorem sound_start : Sound start where
  outlined := by
    constructor
    · exact fun row member => by cases member
    · exact fun index call found => by cases found
    · exact fun index other call called _ found => by cases found
  accounted := by
    constructor
    · exact fun accessor name found => by cases found
    · exact fun row member => by cases member
    · exact fun call listed => by cases listed

/-- In a run of mints, an app that has got a token has one live token when all calls have ended,
the one whose accessor is stored, if a call looks up the app's row only when no other one is
replacing it, and the database does not fail it then. -/
theorem one_live_run {events : List (Event Input Outcome)}
    (served : ∀ step ∈ Runs.steps mints.apply events start, Served step.operation)
    (fresh : ∀ step ∈ Runs.steps mints.apply events start, FreshUuid step.operation step.before)
    (alone : ∀ step ∈ Runs.steps mints.apply events start, Alone step.operation step.before) :
    ∀ step ∈ Runs.steps mints.apply events start, OneLive step.after := by
  intro step member
  have sound := Runs.forall_steps_inv sound_start
    (fun step member => (⟨served step member, fresh step member, alone step member⟩ :
      Meets step.operation step.before))
    (fun _ _ sound meets => sound_apply sound meets) step member
  exact oneLive_of_sound sound.2

private def asksFor (name : String) : Event Input Outcome := .call ⟨name, some "admin"⟩

private def serve (index : Nat) (uuid : String) : Event Input Outcome :=
  .turn index ⟨true, .ok, "", uuid⟩

/-- Two mints for one app in turn, and one for another app beside them. -/
private def remints : List (Event Input Outcome) :=
  [asksFor "wiki", serve 0 "a", serve 0 "a", asksFor "chat", serve 0 "a", serve 1 "b", serve 0 "a",
    serve 1 "b", asksFor "wiki", serve 2 "c", serve 1 "b", serve 2 "c", serve 2 "c", serve 1 "b",
    serve 2 "c", serve 2 "c", serve 2 "c"]

theorem one_live_in_turn :
    List.Forall (fun step : Runs.Step (Event Input Outcome) (Pool State Call) =>
      OneLive step.after) (Runs.steps mints.apply remints start) ∧
    (Runs.run mints.apply remints start).shared.minted =
      [⟨"wiki", true⟩, ⟨"chat", false⟩, ⟨"wiki", false⟩] := by
  constructor
  · apply List.forall_iff_forall_mem.mpr
    apply one_live_run
    · decide +kernel
    · decide +kernel
    · decide +kernel
  · decide +kernel

/-- Two mints for one app that both look for its row before either stores its own. -/
private def mintsAtOnce : List (Event Input Outcome) :=
  [asksFor "wiki", asksFor "wiki", serve 0 "a", serve 1 "b", serve 0 "a", serve 1 "b",
    serve 0 "a", serve 1 "b", serve 0 "a", serve 1 "b"]

/-- Of two overlapping mints, both tokens stay live and one is stored.  A mint whose row the
database does not take leaves a live token that is not stored. -/
theorem not_one_live_overlapping :
    (¬ ∀ events : List (Event Input Outcome),
      (∀ step ∈ Runs.steps mints.apply events start, Served step.operation) →
      (∀ step ∈ Runs.steps mints.apply events start, FreshUuid step.operation step.before) →
        ∀ step ∈ Runs.steps mints.apply events start, OneLive step.after) ∧
    (Runs.run mints.apply mintsAtOnce start).shared.minted =
      [⟨"wiki", false⟩, ⟨"wiki", false⟩] ∧
    ¬ OneLive (Runs.run mints.apply [asksFor "wiki", serve 0 "a", serve 0 "a", serve 0 "a",
      .turn 0 ⟨false, .ok, "read-only", "a"⟩] start) := by
  refine ⟨?_, ?_, ?_⟩
  · intro always
    have oneLive := List.forall_iff_forall_mem.mpr <|
      always mintsAtOnce (by decide +kernel) (by decide +kernel)
    revert oneLive
    decide +kernel
  · decide +kernel
  · decide +kernel

end ThetaDirectory.Vault.AppTokens
