import ThetaDirectory.Accounts.Stored
import ThetaDirectory.Library.Keyed
import ThetaDirectory.Migration.Apply

/-!
# Runs without faults

What an import leaves when every operation happens: the steps that only write members, and the
accounts and groups of the rows.
-/

namespace ThetaDirectory.Migration

open Accounts Library Library.Effect

/-- No two groups have one DN. -/
def Distinct (directory : LdapDirectory) : Prop := (directory.groups.map (·.dn)).Nodup

/-- A group without its members. -/
def bare (group : GroupEntry) : GroupEntry := { group with member := [] }

/-- Nothing but members of groups differs. -/
structure Beside (before after : LdapDirectory) : Prop where
  people : after.people = before.people
  groups : after.groups.map bare = before.groups.map bare

theorem Beside.refl (directory : LdapDirectory) : Beside directory directory := ⟨rfl, rfl⟩

theorem Beside.trans {before middle after : LdapDirectory} (first : Beside before middle)
    (second : Beside middle after) : Beside before after :=
  ⟨second.people.trans first.people, second.groups.trans first.groups⟩

theorem Beside.distinct {before after : LdapDirectory} (beside : Beside before after)
    (distinct : Distinct before) : Distinct after := by
  have dns (directory : LdapDirectory) :
      (directory.groups.map bare).map (·.dn) = directory.groups.map (·.dn) := List.map_map
  unfold Distinct
  rw [← dns, beside.groups, dns]
  exact distinct

/-- The operations to come all happen, and the directory is related. -/
structure Calm (related : LdapDirectory → Prop) (stores : Stores) : Prop where
  fates : stores.fates = []
  directory : related stores.directory

def IsThrown : Failure → Prop
  | .thrown _ => True
  | .stopped => False

variable {α β : Type} {action : Importing α} {stores : Stores} {conf : LdapConf}

/-- An action without faults that may throw but writes no more than members. -/
def Steady (action : Importing α) : Prop :=
  ∀ stores : Stores, Calm Distinct stores →
    Ends (fun _ after => Calm (Beside stores.directory) after)
      (fun failure after => IsThrown failure ∧ Calm (Beside stores.directory) after) (action stores)

namespace Steady

theorem pure (value : α) : Steady (Pure.pure value : Importing α) :=
  fun _ calm => ⟨calm.fates, Beside.refl _⟩

theorem throw (error : AddError) : Steady (MonadExcept.throw (.thrown error) : Importing α) :=
  fun _ calm => ⟨trivial, calm.fates, Beside.refl _⟩

theorem bind {next : α → Importing β} (first : Steady action) (rest : ∀ value, Steady (next value)) :
    Steady (action >>= next) := by
  intro stores calm
  apply (first stores calm).bind
  intro value middle reached
  apply (rest value middle ⟨reached.fates, reached.directory.distinct calm.directory⟩).mono
  · intro _ after left
    exact ⟨left.fates, reached.directory.trans left.directory⟩
  · intro _ after left
    exact ⟨left.1, left.2.fates, reached.directory.trans left.2.directory⟩

theorem catching {handler : AddError → Importing α} (first : Steady action)
    (rest : ∀ error, Steady (handler error)) : Steady (catching action handler) := by
  intro stores calm
  apply (first stores calm).tryCatch
  intro failure middle reached
  cases failure with
  | stopped => exact reached.1.elim
  | thrown error =>
      apply (rest error middle
        ⟨reached.2.fates, reached.2.directory.distinct calm.directory⟩).mono
      · intro _ after left
        exact ⟨left.fates, reached.2.directory.trans left.directory⟩
      · intro _ after left
        exact ⟨left.1, left.2.fates, reached.2.directory.trans left.2.directory⟩

end Steady

/-- Without faults an operation is its effect. -/
theorem perform_eq {effect : Importing α} (calm : stores.fates = []) :
    perform effect stores = effect stores := by
  have awaited : await stores = .ok none stores := by
    unfold await
    rw [calm]
  exact bind_ok awaited

theorem steady_perform {effect : Importing α} (steady : Steady effect) : Steady (perform effect) := by
  intro stores calm
  rw [perform_eq calm.fates]
  exact steady stores calm

theorem steady_get {read : Stores → α} : Steady (do return read (← get)) :=
  fun _ calm => ⟨calm.fates, Beside.refl _⟩

theorem steady_getOrCreate (uid : String) : Steady (getOrCreate uid) := by
  apply Steady.bind (steady_perform steady_get)
  intro found
  cases found with
  | some row => exact Steady.pure row
  | none => exact steady_perform fun _ calm => ⟨calm.fates, Beside.refl _⟩

theorem steady_updateVerification (uid : String) (change : Verification → Verification) :
    Steady (updateVerification uid change) :=
  steady_perform fun _ calm => ⟨calm.fates, Beside.refl _⟩

theorem steady_getUser (uid : String) : Steady (getUser conf uid) := by
  apply Steady.bind (steady_perform steady_get)
  intro found
  cases found with
  | none => exact Steady.throw _
  | some user =>
      apply Steady.bind (steady_getOrCreate user.uid)
      intro verification
      dsimp only
      split
      · exact Steady.bind (steady_updateVerification _ _) fun _ => Steady.pure user
      · exact Steady.pure user

theorem steady_deactivate (user : AccountEntry) : Steady (deactivate user) := by
  apply Steady.catching
  · apply steady_perform
    intro stores calm
    dsimp only
    split
    · exact ⟨calm.fates, Beside.refl _⟩
    · exact ⟨trivial, calm.fates, Beside.refl _⟩
  · intro error
    split <;> exact Steady.throw _

theorem steady_getGroup (name : String) : Steady (getGroup conf name) := by
  apply Steady.bind (steady_perform steady_get)
  intro found
  cases found with
  | none => exact Steady.throw _
  | some group => exact Steady.pure group

/-! ## Members -/

/-- What a change of a group leaves. -/
structure Modified (dn : String) (change : GroupEntry → Except AddError GroupEntry)
    (before after : LdapDirectory) (group changed : GroupEntry) : Prop where
  member : group ∈ before.groups
  named : group.dn = dn
  isChanged : change group = .ok changed
  people : after.people = before.people
  groups : after.groups = before.groups.map fun other => if other = group then changed else other

theorem modified_of_ok {before after : LdapDirectory} {dn : String}
    {change : GroupEntry → Except AddError GroupEntry} (distinct : Distinct before)
    (isModified : before.modifyGroup dn change = .ok after) :
    ∃ group changed, Modified dn change before after group changed := by
  unfold LdapDirectory.modifyGroup at isModified
  cases found : before.groups.find? fun group => group.dn == dn with
  | none =>
      rw [found] at isModified
      cases isModified
  | some group =>
      rw [found] at isModified
      dsimp only at isModified
      obtain ⟨member, isDn⟩ := (Keyed.find?_eq_some_iff distinct).mp found
      cases isChanged : change group with
      | error error =>
          rw [isChanged] at isModified
          cases isModified
      | ok changed =>
          rw [isChanged] at isModified
          cases isModified
          refine ⟨group, changed, member, isDn, isChanged, rfl, ?_⟩
          apply List.map_congr_left
          intro other listed
          by_cases same : other = group
          · subst same
            rw [if_pos isDn, if_pos rfl]
          · have apart : other.dn ≠ dn := fun sameDn =>
              same (List.inj_on_of_nodup_map distinct listed member (sameDn.trans isDn.symm))
            rw [if_neg apart, if_neg same]

theorem bare_withMember {dn : String} {group changed : GroupEntry}
    (isChanged : withMember dn group = .ok changed) : bare changed = bare group := by
  unfold withMember at isChanged
  split at isChanged
  · cases isChanged
  · cases isChanged
    rfl

theorem steady_addMember (target : GroupEntry) (user : AccountEntry) :
    Steady (addMember target user) := by
  apply steady_perform
  intro stores calm
  dsimp only
  cases isModified : stores.directory.modifyGroup target.dn (withMember user.dn) with
  | error error => exact ⟨trivial, calm.fates, Beside.refl _⟩
  | ok after =>
      obtain ⟨group, changed, modified⟩ := modified_of_ok calm.directory isModified
      refine ⟨calm.fates, modified.people, ?_⟩
      rw [modified.groups, List.map_map]
      apply List.map_congr_left
      intro other _
      by_cases same : other = group
      · subst same
        exact (congrArg bare (if_pos rfl)).trans (bare_withMember modified.isChanged)
      · exact congrArg bare (if_neg same)

theorem steady_joinService (row : PlannedUser) (created : AccountEntry) :
    Steady (joinService conf row created) := by
  unfold joinService
  split
  · apply Steady.bind (steady_getGroup _)
    intro service
    apply (steady_addMember service created).catching
    intro error
    split
    · exact Steady.pure ()
    · exact Steady.throw error
  · exact Steady.pure ()

theorem steady_verifyUser (options : ApplyOptions) (row : PlannedUser) :
    Steady (verifyUser options row) := by
  apply Steady.bind (steady_getOrCreate _)
  intro verification
  dsimp only
  split
  · exact steady_updateVerification _ _
  · exact Steady.pure ()

theorem steady_settleUser (options : ApplyOptions) (row : PlannedUser) (created : AccountEntry) :
    Steady (settleUser conf options row created) := by
  apply (steady_joinService row created).bind
  intro _
  apply (steady_verifyUser options row).bind
  intro _
  split
  · exact steady_deactivate created
  · exact Steady.pure ()

theorem steady_reportUser (options : ApplyOptions) (row : PlannedUser) (created : AccountEntry) :
    Steady (reportUser conf options row created) := by
  apply Steady.catching
  · exact (steady_settleUser options row created).bind fun _ => Steady.pure _
  · exact fun error => Steady.pure _

theorem steady_addMembers (target : GroupEntry) (imported : Imported) (usernames : List String) :
    Steady (addMembers target imported usernames) := by
  induction usernames with
  | nil => exact Steady.pure _
  | cons username usernames ih =>
      unfold addMembers
      split
      · exact ih
      · apply Steady.bind
        · apply Steady.catching
          · exact (steady_addMember target _).bind fun _ => Steady.pure _
          · exact fun error => Steady.pure _
        · intro failure
          apply ih.bind
          intro rest
          cases failure <;> exact Steady.pure _

theorem steady_mapGroup (imported : Imported) (group : PlannedGroup) :
    Steady (mapGroup conf imported group) := by
  unfold mapGroup
  split
  · exact Steady.pure _
  · apply Steady.catching
    · apply (steady_getGroup _).bind
      intro target
      apply (steady_addMembers target imported _).bind
      exact fun joined => Steady.pure _
    · exact fun error => Steady.pure _

theorem steady_mapGroups (imported : Imported) (groups : List PlannedGroup) :
    Steady (mapGroups conf imported groups) := by
  induction groups with
  | nil => exact Steady.pure _
  | cons group groups ih =>
      apply (steady_mapGroup imported group).bind
      intro report
      apply ih.bind
      exact fun reports => Steady.pure _

end ThetaDirectory.Migration
