import ThetaDirectory.Vault.Policies

/-!
# Revoked secrets

A rebuild writes a whole policy from the grants it has read.  What the stored policies allow
through every run in which no grant is deleted behind the back of a rebuild.
-/

namespace ThetaDirectory.Vault

open Library Library.Interleaving

/-! ## What a call has read and done -/

def Rebuilding.reads : Rebuilding → List SharedSecretGrant
  | .listing => []
  | .resolving grants | .comparing grants _ | .writing grants _ => grants

def Rebuilding.hcl : Rebuilding → Option Policy
  | .comparing _ hcl | .writing _ hcl => some hcl
  | _ => none

/-- The grants that a rebuild in flight has read. -/
def Call.reads : Call → List SharedSecretGrant
  | .rebuilding _ phase => phase.reads
  | _ => []

/-- The grant that a call is about to delete. -/
def Call.held : Call → Option SharedSecretGrant
  | .deleting grant => some grant
  | _ => none

/-- The grant that a call has deleted, while its rebuild is in flight. -/
def Call.revoking : Call → Option SharedSecretGrant
  | .rebuilding (.revoke grant) _ => some grant
  | _ => none

/-- The grant that a call has deleted, once it has returned. -/
def Call.revoked : Call → Option SharedSecretGrant
  | .returned (.revoke grant) => some grant
  | _ => none

def Call.ended : Call → Bool
  | .returned _ | .vacuous | .thrown _ _ => true
  | _ => false

/-! ## The property -/

def State.policy (state : State) (grantee : Grantee) : Policy :=
  (grantee.policyName.bind state.policies).getD []

/-- A stored grant gives the grantee the rule. -/
def Given (secrets : List SharedSecret) (state : State) (grantee : Grantee) (rule : Rule) : Prop :=
  ∃ grant ∈ state.grants.rows, grant.grantee = grantee ∧ rule ∈ rulesFor secrets grant.secretId

instance (secrets : List SharedSecret) (state : State) (grantee : Grantee) (rule : Rule) :
    Decidable (Given secrets state grantee rule) := by
  unfold Given
  infer_instance

/-- When nothing is in flight, the policy of a grantee whose grant was revoked has no rule for
the secret that no stored grant gives. -/
def Clean (secrets : List SharedSecret) (pool : Pool State Call) : Prop :=
  (∀ call ∈ pool.calls, call.ended = true) →
    ∀ call ∈ pool.calls, ∀ grant ∈ call.revoked, ∀ rule ∈ rulesFor secrets grant.secretId,
      rule ∈ pool.shared.policy grant.grantee → Given secrets pool.shared grant.grantee rule

instance (secrets : List SharedSecret) (pool : Pool State Call) :
    Decidable (Clean secrets pool) := by
  unfold Clean
  infer_instance

/-- A grant is deleted only while no rebuild in flight has read it.  The rebuild after that does
not fail to write, nor to read if the same rules were revoked before. -/
def Undisturbed (secrets : List SharedSecret) (event : Event Input Outcome)
    (pool : Pool State Call) : Prop :=
  match event with
  | .turn index outcome =>
      match pool.calls[index]? with
      | some (.deleting grant) => outcome.ok = true → ∀ call ∈ pool.calls, grant ∉ call.reads
      | some (.rebuilding (.revoke _) (.writing _ _)) => outcome.ok = true
      | some (.rebuilding (.revoke grant) .listing)
      | some (.rebuilding (.revoke grant) (.resolving _)) =>
          outcome.ok = true ∨ ∀ call ∈ pool.calls, ∀ other ∈ call.revoked,
            other.grantee = grant.grantee → ∀ rule ∈ rulesFor secrets other.secretId,
              rule ∉ rulesFor secrets grant.secretId
      | _ => True
  | .call _ => True

/-- A new grant has an id that no grant about to be deleted has. -/
def FreshUuid (event : Event Input Outcome) (pool : Pool State Call) : Prop :=
  match event with
  | .turn index outcome =>
      match pool.calls[index]? with
      | some (.creating _ _ _) => ∀ call ∈ pool.calls, ∀ grant ∈ call.held, grant.id ≠ outcome.uuid
      | _ => True
  | .call _ => True

instance (secrets : List SharedSecret) (event : Event Input Outcome) (pool : Pool State Call) :
    Decidable (Undisturbed secrets event pool) := by
  unfold Undisturbed
  split
  · split <;> infer_instance
  · infer_instance

instance (event : Event Input Outcome) (pool : Pool State Call) :
    Decidable (FreshUuid event pool) := by
  unfold FreshUuid
  split
  · split <;> infer_instance
  · infer_instance

/-! ## Rules -/

variable {secrets : List SharedSecret} {grantee other : Grantee} {rule : Rule}

theorem policyName_inj {name : String} (named : grantee.policyName = some name)
    (namedOther : other.policyName = some name) : grantee = other := by
  obtain ⟨type, id⟩ := grantee
  obtain ⟨type', id'⟩ := other
  simp only [Grantee.policyName] at named namedOther
  have apart : ∀ left right : String, "user-" ++ left ≠ "app-" ++ right := by
    intro left right same
    have chars := congrArg String.toList same
    simp at chars
  split at named <;> split at namedOther
  · rename_i isUser isUser'
    rw [← namedOther] at named
    rw [isUser, isUser', (String.append_right_inj _).mp (Option.some.inj named)]
  · split at namedOther
    · rw [← namedOther] at named
      exact absurd (Option.some.inj named) (apart _ _)
    · cases namedOther
  · split at named
    · rw [← namedOther] at named
      exact absurd (Option.some.inj named).symm (apart _ _)
    · cases named
  · split at named
    · split at namedOther
      · rename_i isApp isApp'
        rw [← namedOther] at named
        rw [isApp, isApp', (String.append_right_inj _).mp (Option.some.inj named)]
      · cases namedOther
    · cases named

/-- What a grantee may do without a grant is more than reading. -/
theorem capabilities_of_ownRules (own : rule ∈ grantee.ownRules) :
    rule.capabilities = allCapabilities := by
  unfold Grantee.ownRules userRules appRules at own
  split at own
  all_goals
    obtain ⟨path, -, rfl⟩ := List.mem_map.mp own
    rfl

theorem capabilities_of_rulesFor {secretId : String} (listed : rule ∈ rulesFor secrets secretId) :
    rule.capabilities ≠ allCapabilities := by
  unfold rulesFor at listed
  split at listed
  · rename_i secret found
    have data : ["read"] ≠ allCapabilities := by decide
    have metadata : ["read", "list"] ≠ allCapabilities := by decide
    rcases List.mem_cons.mp listed with rfl | rest
    · exact data
    · rw [List.mem_singleton.mp rest]
      exact metadata
  · cases listed

/-- The rules of a secret are in a rebuilt policy only through the grants that were read. -/
theorem exists_grant_of_mem_policyHcl {grants : List SharedSecretGrant} {secretId : String}
    (shared : rule ∈ rulesFor secrets secretId)
    (member : rule ∈ grantee.policyHcl secrets grants) :
    ∃ grant ∈ grants, rule ∈ rulesFor secrets grant.secretId := by
  rcases List.mem_append.mp member with own | granted
  · exact absurd (capabilities_of_ownRules own) (capabilities_of_rulesFor shared)
  · exact List.mem_flatMap.mp granted

/-! ## The invariant -/

/-- What a rebuild has read still stands, and its policy is made of that. -/
def Rebuilding.Sound (secrets : List SharedSecret) (rows : List SharedSecretGrant)
    (grantee : Grantee) (phase : Rebuilding) : Prop :=
  (∀ grant ∈ phase.reads, grant ∈ rows ∧ grant.grantee = grantee) ∧
    ∀ hcl ∈ phase.hcl, hcl = grantee.policyHcl secrets phase.reads

/-- What a call relies on in the stored grants. -/
def Call.Sound (secrets : List SharedSecret) (rows : List SharedSecretGrant) : Call → Prop
  | .rebuilding task phase => phase.Sound secrets rows task.grantee
  | .deleting grant => ∀ row ∈ rows, row.id = grant.id → row = grant
  | _ => True

/-- A rule that was revoked and is in the stored policy is given by a stored grant, or a call
that has deleted one that gave it will still rebuild. -/
def Settling (secrets : List SharedSecret) (pool : Pool State Call) : Prop :=
  ∀ (index : Nat) (call : Call), pool.calls[index]? = some call → ∀ grant ∈ call.revoked,
    ∀ rule ∈ rulesFor secrets grant.secretId, rule ∈ pool.shared.policy grant.grantee →
      Given secrets pool.shared grant.grantee rule ∨
        ∃ (position : Nat) (called : Call), pool.calls[position]? = some called ∧
          ∃ deleted ∈ called.revoking, deleted.grantee = grant.grantee ∧
            rule ∈ rulesFor secrets deleted.secretId

/-- What a turn does to the grants and policies. -/
inductive Effect (secrets : List SharedSecret) (outcome : Outcome) (call next : Call)
    (state after : State) : Prop where
  | keeps (policies : after.policies = state.policies)
      (grants : ∀ grant ∈ state.grants.rows, grant ∈ after.grants.rows)
      (revoked : ∀ grant ∈ next.revoked, grant ∈ call.revoked)
      (revoking : ∀ grant ∈ call.revoking, grant ∈ next.revoking)
  | deletes (grant : SharedSecretGrant) (held : call = .deleting grant)
      (policies : after.policies = state.policies)
      (rows : ∀ row, row ∈ after.grants.rows ↔ row ∈ state.grants.rows ∧ row.id ≠ grant.id)
      (reconciles : next = (Task.revoke grant).reconcile)
  | throws (grant : SharedSecretGrant) (phase : Rebuilding)
      (rebuilds : call = .rebuilding (.revoke grant) phase)
      (reading : phase = .listing ∨ ∃ grants, phase = .resolving grants)
      (failed : outcome.ok ≠ true) (unchanged : after = state) (revoked : next.revoked = none)
  | settles (task : Task) (phase : Rebuilding) (rebuilds : call = .rebuilding task phase)
      (policy : ∀ rule ∈ after.policy task.grantee,
        rule ∈ task.grantee.policyHcl secrets phase.reads)
      (others : ∀ grantee, grantee ≠ task.grantee → after.policy grantee = state.policy grantee)
      (grants : after.grants = state.grants) (returned : next = .returned task)

variable {call next : Call} {state after : State} {pool : Pool State Call} {index : Nat}
variable {outcome : Outcome}

theorem reconcile_spec (task : Task) :
    task.reconcile = .rebuilding task .listing ∨
      task.grantee.policyName = none ∧ ∃ message, task.reconcile = .thrown (some task) message := by
  unfold Task.reconcile
  split
  · exact Or.inl rfl
  · exact Or.inr ⟨‹_›, _, rfl⟩

/-- A write of the policy leaves the other grantees alone. -/
theorem policy_update {name : String} {hcl : Policy} (named : grantee.policyName = some name) :
    let after : State := { state with policies := Function.update state.policies name (some hcl) }
    after.policy grantee = hcl ∧
      ∀ other, other ≠ grantee → after.policy other = state.policy other := by
  constructor
  · change ((grantee.policyName.bind (Function.update state.policies name (some hcl))).getD []) = hcl
    rw [named]
    change (Function.update state.policies name (some hcl) name).getD [] = hcl
    rw [Function.update_self]
    rfl
  · intro other different
    change ((other.policyName.bind (Function.update state.policies name (some hcl))).getD []) =
      (other.policyName.bind state.policies).getD []
    cases namedOther : other.policyName with
    | none => rfl
    | some name' =>
        have apart : name' ≠ name := fun same =>
          different (policyName_inj (same ▸ namedOther) named)
        change (Function.update state.policies name (some hcl) name').getD [] =
          (state.policies name').getD []
        rw [Function.update_of_ne apart]

/-- A rebuild reads and writes; it fails to write only if nothing was revoked. -/
theorem effect_rebuilding {task : Task} {phase : Rebuilding}
    (sound : phase.Sound secrets state.grants.rows task.grantee)
    (writes : ∀ grant, task = .revoke grant → ∀ grants hcl, phase = .writing grants hcl →
      outcome.ok = true) :
    Effect secrets outcome (.rebuilding task phase) (phase.turn secrets outcome task state).2 state
        (phase.turn secrets outcome task state).1 ∧
      (phase.turn secrets outcome task state).2.Sound secrets state.grants.rows ∧
      (phase.turn secrets outcome task state).1.grants = state.grants := by
  have goes : ∀ later : Rebuilding, Effect secrets outcome (.rebuilding task phase)
      (.rebuilding task later) state state := fun later =>
    .keeps rfl (fun _ => id) (fun _ revoked => by cases revoked) fun grant revoking => by
      cases task with
      | revoke _ => exact revoking
      | grant _ | fetch _ => cases revoking
  have fails : phase = .listing ∨ (∃ grants, phase = .resolving grants) → outcome.ok ≠ true →
      Effect secrets outcome (.rebuilding task phase) (.thrown (some task) outcome.error)
        state state := by
    intro reading failed
    cases task with
    | revoke grant => exact .throws grant phase rfl reading failed rfl rfl
    | grant _ | fetch _ =>
        exact .keeps rfl (fun _ => id) (fun _ revoked => by cases revoked)
          fun _ revoking => by cases revoking
  cases phase with
  | listing =>
      simp only [Rebuilding.turn]
      split
      · have reads : ∀ grant ∈ state.grants.rows.filter fun grant => grant.grantee = task.grantee,
            grant ∈ state.grants.rows ∧ grant.grantee = task.grantee := fun grant member =>
          ⟨(List.mem_filter.mp member).1, of_decide_eq_true (List.mem_filter.mp member).2⟩
        split
        · exact ⟨goes _, ⟨fun _ member => absurd member List.not_mem_nil,
            fun hcl made => (Option.some.inj made).symm⟩, rfl⟩
        · rename_i grant grants found
          rw [found] at reads
          exact ⟨goes _, ⟨reads, fun _ made => by cases made⟩, rfl⟩
      · exact ⟨fails (Or.inl rfl) ‹_›, trivial, rfl⟩
  | resolving grants =>
      simp only [Rebuilding.turn]
      split
      · exact ⟨goes _, ⟨sound.1, fun hcl made => (Option.some.inj made).symm⟩, rfl⟩
      · exact ⟨fails (Or.inr ⟨grants, rfl⟩) ‹_›, trivial, rfl⟩
  | comparing grants hcl =>
      have made : hcl = task.grantee.policyHcl secrets grants := sound.2 hcl rfl
      simp only [Rebuilding.turn]
      split
      · rename_i equal
        refine ⟨.settles task _ rfl (fun rule member => ?_) (fun _ _ => rfl) rfl rfl, trivial, rfl⟩
        rw [State.policy, equal.2, made] at member
        exact member
      · exact ⟨goes _, sound, rfl⟩
  | writing grants hcl =>
      have made : hcl = task.grantee.policyHcl secrets grants := sound.2 hcl rfl
      simp only [Rebuilding.turn]
      split
      · rename_i name named
        by_cases ok : outcome.ok = true
        · obtain ⟨own, others⟩ := @policy_update _ state _ hcl named
          rw [if_pos ok]
          refine ⟨.settles task _ rfl (fun rule member => ?_) others rfl rfl, trivial, rfl⟩
          rw [own, made] at member
          exact member
        · rw [if_neg ok]
          refine ⟨?_, trivial, rfl⟩
          cases task with
          | revoke grant => exact absurd (writes grant rfl grants hcl rfl) ok
          | grant _ | fetch _ =>
              exact .keeps rfl (fun _ => id) (fun _ revoked => by cases revoked)
                fun _ revoking => by cases revoking
      · rename_i unnamed
        refine ⟨.settles task _ rfl (fun rule member => ?_) (fun _ _ => rfl) rfl rfl, trivial, rfl⟩
        rw [State.policy, unnamed] at member
        cases member

/-- A rebuild that starts has read nothing yet. -/
theorem sound_reconcile (task : Task) (rows : List SharedSecretGrant) :
    task.reconcile.Sound secrets rows := by
  rcases reconcile_spec task with starts | ⟨-, message, throws⟩
  · rw [starts]
    exact ⟨fun _ member => absurd member List.not_mem_nil, fun _ made => by cases made⟩
  · rw [throws]
    trivial

/-- What the turn of a call comes to. -/
structure Turned (secrets : List SharedSecret) (outcome : Outcome) (pool : Pool State Call)
    (call next : Call) (after : State) : Prop where
  effect : Effect secrets outcome call next pool.shared after
  own : next.Sound secrets after.grants.rows
  others : ∀ called ∈ pool.calls, called.Sound secrets pool.shared.grants.rows →
    called.Sound secrets after.grants.rows

theorem turned_keeps {next : Call} (revoked : next.revoked = none) (quiet : call.revoking = none)
    (own : next.Sound secrets pool.shared.grants.rows) :
    Turned secrets outcome pool call next pool.shared where
  effect := .keeps rfl (fun _ => id) (fun _ member => by rw [revoked] at member; cases member)
    fun _ member => by rw [quiet] at member; cases member
  own := own
  others := fun _ _ => id

theorem revoked_reconcile (task : Task) : task.reconcile.revoked = none := by
  rcases reconcile_spec task with starts | ⟨-, message, throws⟩
  · rw [starts]
    rfl
  · rw [throws]
    rfl

theorem turned_turn (found : pool.calls[index]? = some call)
    (sound : call.Sound secrets pool.shared.grants.rows)
    (undisturbed : Undisturbed secrets (.turn index outcome) pool)
    (fresh : FreshUuid (.turn index outcome) pool) :
    Turned secrets outcome pool call ((broker secrets).turn outcome pool.shared call).2
      ((broker secrets).turn outcome pool.shared call).1 := by
  simp only [Undisturbed, FreshUuid, found] at undisturbed fresh
  cases call with
  | creating secretId grantee actorUid =>
      simp only [broker]
      split
      · rename_i grants inserted
        split
        · refine ⟨.keeps rfl ?_ ?_ (fun _ revoking => by cases revoking), sound_reconcile _ _, ?_⟩
          · exact fun grant member => (Table.mem_insert inserted).mpr (Or.inl member)
          · exact fun grant member => by rw [revoked_reconcile] at member; cases member
          · intro called listed before
            cases called with
            | rebuilding task phase =>
                exact ⟨fun grant read => ⟨(Table.mem_insert inserted).mpr
                  (Or.inl (before.1 grant read).1), (before.1 grant read).2⟩, before.2⟩
            | deleting held =>
                intro row member same
                rcases (Table.mem_insert inserted).mp member with stored | rfl
                · exact before row stored same
                · exact absurd same.symm (fresh _ listed held rfl)
            | creating _ _ _ | getting _ | returned _ | vacuous | thrown _ _ => trivial
        · exact turned_keeps rfl rfl trivial
      · exact turned_keeps rfl rfl trivial
  | getting grantId =>
      simp only [broker]
      split
      · split
        · rename_i grant here
          exact turned_keeps rfl rfl fun row member same =>
            Table.eq_of_column SharedSecretGrant.id List.mem_cons_self member
              (List.mem_of_find?_eq_some here) same
        · exact turned_keeps rfl rfl trivial
      · exact turned_keeps rfl rfl trivial
  | deleting grant =>
      simp only [broker]
      split
      · rename_i ok
        have rows : ∀ row, row ∈ (pool.shared.grants.remove fun row => row.id == grant.id).rows ↔
            row ∈ pool.shared.grants.rows ∧ row.id ≠ grant.id := by
          intro row
          rw [Table.mem_remove]
          exact and_congr_right fun _ => beq_eq_false_iff_ne
        refine ⟨.deletes grant rfl rfl rows rfl, sound_reconcile _ _, ?_⟩
        intro called listed before
        cases called with
        | rebuilding task phase =>
            refine ⟨fun read member => ⟨(rows read).mpr ⟨(before.1 read member).1, ?_⟩,
              (before.1 read member).2⟩, before.2⟩
            intro same
            have unread := undisturbed ok _ listed
            rw [← sound read (before.1 read member).1 same] at unread
            exact unread member
        | deleting held => exact fun row member => before row ((rows row).mp member).1
        | creating _ _ _ | getting _ | returned _ | vacuous | thrown _ _ => trivial
      · exact turned_keeps rfl rfl trivial
  | rebuilding task phase =>
      have writes : ∀ grant, task = .revoke grant → ∀ grants hcl, phase = .writing grants hcl →
          outcome.ok = true := by
        rintro grant rfl grants hcl rfl
        exact undisturbed
      obtain ⟨effect, own, same⟩ := effect_rebuilding sound writes
      change Turned secrets outcome pool _ (phase.turn secrets outcome task pool.shared).2
        (phase.turn secrets outcome task pool.shared).1
      refine ⟨effect, ?_, fun _ _ => ?_⟩
      · rwa [same]
      · rw [same]
        exact id
  | returned task =>
      exact ⟨.keeps rfl (fun _ => id) (fun _ => id) (fun _ => id), trivial, fun _ _ => id⟩
  | vacuous | thrown _ _ => exact turned_keeps rfl rfl trivial

/-! ## Runs -/

theorem settling_turn (settling : Settling secrets pool) (found : pool.calls[index]? = some call)
    (sound : call.Sound secrets pool.shared.grants.rows)
    (undisturbed : Undisturbed secrets (.turn index outcome) pool)
    (fresh : FreshUuid (.turn index outcome) pool) :
    Settling secrets ((broker secrets).apply (.turn index outcome) pool) := by
  have turned := turned_turn found sound undisturbed fresh
  have here : ((broker secrets).apply (.turn index outcome) pool).calls[index]? =
      some ((broker secrets).turn outcome pool.shared call).2 := getElem?_apply_turn_self found
  intro position called foundAfter grant revoked rule listed member
  rw [shared_apply_turn found] at member ⊢
  -- a call at another position, and a witness there, are as before the turn
  have elsewhere : position ≠ index → pool.calls[position]? = some called := fun different => by
    rw [← getElem?_apply_turn_of_ne (Ne.symm different)]
    exact foundAfter
  have witness : ∀ deleting : SharedSecretGrant → Prop,
      (∃ (position : Nat) (called : Call), pool.calls[position]? = some called ∧
        ∃ deleted ∈ called.revoking, deleting deleted) →
      (∀ deleted ∈ call.revoking, deleting deleted →
        deleted ∈ ((broker secrets).turn outcome pool.shared call).2.revoking) →
      ∃ (position : Nat) (called : Call),
        ((broker secrets).apply (.turn index outcome) pool).calls[position]? = some called ∧
          ∃ deleted ∈ called.revoking, deleting deleted := by
    rintro deleting ⟨position, called, foundCalled, deleted, revoking, holds⟩ stays
    by_cases same : index = position
    · subst same
      cases found.symm.trans foundCalled
      exact ⟨index, _, here, deleted, stays deleted revoking holds, holds⟩
    · exact ⟨position, called, (getElem?_apply_turn_of_ne same).trans foundCalled, deleted,
        revoking, holds⟩
  cases turned.effect with
  | keeps policies grants revokedBefore revoking =>
      have before : ∃ called, pool.calls[position]? = some called ∧ grant ∈ called.revoked := by
        by_cases same : position = index
        · subst same
          cases here.symm.trans foundAfter
          exact ⟨call, found, revokedBefore grant revoked⟩
        · exact ⟨called, elsewhere same, revoked⟩
      obtain ⟨earlier, foundEarlier, revokedEarlier⟩ := before
      rw [State.policy, policies] at member
      rcases settling position earlier foundEarlier grant revokedEarlier rule listed member with
        ⟨other, stored, given⟩ | pending
      · exact Or.inl ⟨other, grants other stored, given⟩
      · exact Or.inr (witness _ pending fun deleted held _ => revoking deleted held)
  | deletes deleted held policies rows reconciles =>
      have different : position ≠ index := by
        rintro rfl
        cases here.symm.trans foundAfter
        rw [reconciles, revoked_reconcile] at revoked
        cases revoked
      rw [State.policy, policies] at member
      rcases settling position called (elsewhere different) grant revoked rule listed member with
        ⟨other, stored, same, gives⟩ | pending
      · by_cases gone : other.id = deleted.id
        · subst held
          obtain rfl := sound other stored gone
          -- the call that has deleted the grant will rebuild
          refine Or.inr ⟨index, _, here, other, ?_, same, gives⟩
          rw [reconciles]
          rcases reconcile_spec (.revoke other) with starts | ⟨unnamed, -⟩
          · rw [starts]
            rfl
          · rw [← same, show other.grantee.policyName = none from unnamed] at member
            cases member
        · exact Or.inl ⟨other, (rows other).mpr ⟨stored, gone⟩, same, gives⟩
      · refine Or.inr (witness _ pending fun _ revoking _ => ?_)
        rw [held] at revoking
        cases revoking
  | throws deleted phase rebuilds reading failed unchanged revokedAfter =>
      have different : position ≠ index := by
        rintro rfl
        cases here.symm.trans foundAfter
        rw [revokedAfter] at revoked
        cases revoked
      rw [unchanged] at member ⊢
      rcases settling position called (elsewhere different) grant revoked rule listed member with
        given | pending
      · exact Or.inl given
      · refine Or.inr (witness _ pending fun other revoking ⟨sameGrantee, gives⟩ => ?_)
        rw [rebuilds] at revoking
        cases revoking
        have apart : ∀ called ∈ pool.calls, ∀ other ∈ called.revoked,
            other.grantee = deleted.grantee → ∀ rule ∈ rulesFor secrets other.secretId,
              rule ∉ rulesFor secrets deleted.secretId := by
          simp only [Undisturbed, found, rebuilds] at undisturbed
          rcases reading with rfl | ⟨grants, rfl⟩
          · exact undisturbed.resolve_left failed
          · exact undisturbed.resolve_left failed
        exact absurd gives (apart called (List.mem_of_getElem? (elsewhere different)) grant revoked
          sameGrantee.symm rule listed)
  | settles task phase rebuilds policy others grants returned =>
      by_cases own : grant.grantee = task.grantee
      · rw [own] at member ⊢
        obtain ⟨read, wasRead, gives⟩ := exists_grant_of_mem_policyHcl listed (policy rule member)
        subst rebuilds
        obtain ⟨stored, same⟩ := sound.1 read wasRead
        exact Or.inl ⟨read, by rwa [grants], same, gives⟩
      · have ofTask : ∀ deleted, task = .revoke deleted → deleted.grantee = task.grantee := by
          rintro deleted rfl
          rfl
        have different : position ≠ index := by
          rintro rfl
          cases here.symm.trans foundAfter
          rw [returned] at revoked
          cases task with
          | revoke row =>
              cases revoked
              exact own rfl
          | grant _ | fetch _ => cases revoked
        rw [others grant.grantee own] at member
        rcases settling position called (elsewhere different) grant revoked rule listed member with
          ⟨other, stored, same, gives⟩ | pending
        · exact Or.inl ⟨other, by rwa [grants], same, gives⟩
        · refine Or.inr (witness _ pending fun deleted revoking ⟨sameGrantee, _⟩ => ?_)
          rw [rebuilds] at revoking
          cases task with
          | revoke row =>
              cases revoking
              exact absurd sameGrantee.symm own
          | grant _ | fetch _ => cases revoking

/-- Every call relies on what is so, and what was revoked settles. -/
structure Kept (secrets : List SharedSecret) (pool : Pool State Call) : Prop where
  sound : ∀ call ∈ pool.calls, call.Sound secrets pool.shared.grants.rows
  settling : Settling secrets pool

/-- What a run is to meet, the freshness of new ids included. -/
def Meets (secrets : List SharedSecret) (event : Event Input Outcome) (pool : Pool State Call) :
    Prop :=
  Undisturbed secrets event pool ∧ FreshUuid event pool

/-- A call that has only come in relies on nothing. -/
theorem call_spec (input : Input) (state : State) :
    ((broker secrets).call input state).1 = state ∧
      ((broker secrets).call input state).2.revoked = none ∧
      ∀ rows, ((broker secrets).call input state).2.Sound secrets rows := by
  cases input with
  | grantSharedSecret _ _ _ | revokeSharedSecret _ => exact ⟨rfl, rfl, fun _ => trivial⟩
  | fetchToken grantee =>
      refine ⟨rfl, ?_⟩
      change grantee.fetch.revoked = none ∧ ∀ rows, grantee.fetch.Sound secrets rows
      unfold Grantee.fetch
      have starts : (Task.fetch grantee).reconcile.revoked = none ∧
          ∀ rows, (Task.fetch grantee).reconcile.Sound secrets rows :=
        ⟨revoked_reconcile _, sound_reconcile _⟩
      split
      · split
        · exact starts
        · exact ⟨rfl, fun _ => trivial⟩
      · split
        · exact starts
        · exact ⟨rfl, fun _ => trivial⟩

theorem kept_apply {event : Event Input Outcome} (kept : Kept secrets pool)
    (meets : Meets secrets event pool) : Kept secrets ((broker secrets).apply event pool) := by
  cases event with
  | call input =>
      obtain ⟨same, unrevoked, sound⟩ := @call_spec secrets input pool.shared
      have shared : ((broker secrets).apply (.call input) pool).shared = pool.shared := same
      constructor
      · intro call listed
        rw [shared]
        rcases List.mem_append.mp listed with before | fresh
        · exact kept.sound call before
        · rw [List.mem_singleton.mp fresh]
          exact sound _
      · intro index call found grant revoked rule listed member
        rw [shared] at member ⊢
        rcases getElem?_apply_call (broker secrets) pool input found with old | ⟨-, rfl⟩
        · refine (kept.settling index call old grant revoked rule listed member).imp_right ?_
          rintro ⟨position, called, foundCalled, deleted⟩
          exact ⟨position, called, getElem?_apply_call_of_some foundCalled, deleted⟩
        · rw [unrevoked] at revoked
          cases revoked
  | turn index outcome =>
      cases found : pool.calls[index]? with
      | none => rwa [apply_turn_of_none found]
      | some call =>
          have sound := kept.sound call (List.mem_of_getElem? found)
          have turned := turned_turn found sound meets.1 meets.2
          refine ⟨fun called listed => ?_,
            settling_turn kept.settling found sound meets.1 meets.2⟩
          obtain ⟨position, foundCalled⟩ := List.mem_iff_getElem?.mp listed
          rw [shared_apply_turn found]
          rcases getElem?_apply_turn found foundCalled with ⟨-, rfl⟩ | ⟨-, before⟩
          · exact turned.own
          · exact turned.others called (List.mem_of_getElem? before)
              (kept.sound called (List.mem_of_getElem? before))

theorem clean_of_kept (kept : Kept secrets pool) : Clean secrets pool := by
  intro ended call listed grant revoked rule ruleListed member
  obtain ⟨index, found⟩ := List.mem_iff_getElem?.mp listed
  rcases kept.settling index call found grant revoked rule ruleListed member with
    given | ⟨position, called, foundCalled, deleted, revoking, -⟩
  · exact given
  · -- nothing is in flight any more
    have finished := ended called (List.mem_of_getElem? foundCalled)
    cases called <;> first | cases revoking | cases finished

/-- In every run in which no grant is deleted behind the back of a rebuild that has read it, and
no rebuild after a deletion fails to write, what was revoked stays revoked. -/
theorem revoked_run {grants : GrantTable} {policies : String → Option Policy}
    {events : List (Event Input Outcome)}
    (fresh : ∀ step ∈ Runs.steps (broker secrets).apply events (start grants policies),
      FreshUuid step.operation step.before)
    (undisturbed : ∀ step ∈ Runs.steps (broker secrets).apply events (start grants policies),
      Undisturbed secrets step.operation step.before) :
    ∀ step ∈ Runs.steps (broker secrets).apply events (start grants policies),
      Clean secrets step.after := by
  have initial : Kept secrets (start grants policies) :=
    ⟨fun _ listed => absurd listed List.not_mem_nil, fun _ _ found => by cases found⟩
  have meets : ∀ step ∈ Runs.steps (broker secrets).apply events (start grants policies),
      Meets secrets step.operation step.before := fun step member =>
    ⟨undisturbed step member, fresh step member⟩
  intro step member
  exact clean_of_kept (Runs.forall_steps_inv initial meets (fun _ _ => kept_apply) step member).2

private def wifi : SharedSecret := ⟨"s1", "wifi", "ada"⟩

private def bobs : Grantee := ⟨"user", "bob"⟩

private def works (uuid : String) : Outcome := ⟨true, "", uuid⟩

private def fails : Outcome := ⟨false, "unreachable", "u9"⟩

private def advance (index : Nat) : Event Input Outcome := .turn index (works "u1")

private def shares : List (Event Input Outcome) :=
  [.call (.grantSharedSecret "s1" bobs (some "ada")), advance 0, advance 0, advance 0, advance 0,
    advance 0]

/-- A secret is shared, Bob fetches a token, and the grant is revoked. -/
private def sharedAndRevoked : List (Event Input Outcome) :=
  shares ++ [.call (.fetchToken bobs), advance 1, advance 1, .turn 1 fails, .turn 1 fails,
    .call (.revokeSharedSecret "u1"), advance 2, advance 2, advance 2, advance 2, advance 2]

theorem revoked_in_turn :
    List.Forall (fun step : Runs.Step (Event Input Outcome) (Pool State Call) =>
      Clean [wifi] step.after)
      (Runs.steps (broker [wifi]).apply sharedAndRevoked (start .empty fun _ => none)) ∧
    (Runs.run (broker [wifi]).apply sharedAndRevoked (start .empty fun _ => none)).shared.policy
      bobs = bobs.ownRules := by
  constructor
  · apply List.forall_iff_forall_mem.mpr
    apply revoked_run
    · decide +kernel
    · decide +kernel
  · decide +kernel

/-- A token fetch that has read the grant before it is deleted writes its rule back, and a
revocation whose write fails leaves it there. -/
theorem not_revoked_overtaken :
    (¬ ∀ (secrets : List SharedSecret) (grants : GrantTable) (policies : String → Option Policy)
      (events : List (Event Input Outcome)),
      (∀ step ∈ Runs.steps (broker secrets).apply events (start grants policies),
        FreshUuid step.operation step.before) →
      ∀ step ∈ Runs.steps (broker secrets).apply events (start grants policies),
        Clean secrets step.after) ∧
    ¬ Clean [wifi] (Runs.run (broker [wifi]).apply (shares ++
      [.call (.revokeSharedSecret "u1"), advance 1, advance 1, advance 1, advance 1, .turn 1 fails])
      (start .empty fun _ => none)) := by
  constructor
  · intro always
    have clean := List.forall_iff_forall_mem.mpr <| always [wifi] .empty (fun _ => none)
      (shares ++ [.call (.fetchToken bobs), advance 1, advance 1,
        .call (.revokeSharedSecret "u1"), advance 2, advance 2, advance 2, advance 2, advance 2,
        advance 1, advance 1]) (by decide +kernel)
    revert clean
    decide +kernel
  · decide +kernel

end ThetaDirectory.Vault
