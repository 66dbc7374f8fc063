import ThetaDirectory.Groups.NestedPermission
import ThetaDirectory.Library.Interleaving

/-!
# Groups are bound once

Provisioning calls that go on side by side.  `ResourceGroup.ensure` searches for a row and, behind
an await, creates one; nothing in the table keeps a second row of one resource and group out.
-/

namespace ThetaDirectory.Groups

open Library Library.Interleaving

/-- The row binds the resource and the group of another. -/
def ResourceGroup.Binds (row other : ResourceGroup) : Prop :=
  row.resourceId = other.resourceId ∧ row.groupCn = other.groupCn

instance (row other : ResourceGroup) : Decidable (row.Binds other) := by
  unfold ResourceGroup.Binds
  infer_instance

/-! ## The rows of a call -/

namespace Provision

variable {base : GroupBase}

/-- The rows that a call ensures, one behind the other. -/
def links : Provision base → List ResourceGroup
  | .site slug _ siteResourceId =>
      if slug = "" then []
      else siteResourceId.toList.flatMap fun resourceId =>
        [⟨resourceId, siteSuperAdminCns slug, "owner"⟩,
          ⟨resourceId, siteEveryoneCns slug, "member"⟩, ⟨resourceId, godAdmin, "owner"⟩]
  | .resource entry kind slug _ =>
      [("access", "member"), ("admin", "owner")].filterMap fun level =>
        (resourceGroupCns slug kind.text (resourceNameSlug entry.slug) level.1).toOption.map fun cn =>
          ⟨entry.id, cn, level.2⟩

/-- A call that runs alone ensures its rows. -/
theorem execute_resourceGroups {store after : GroupStore} {call : Provision base}
    (ran : call.execute store = .ok after) :
    after.resourceGroups = call.links.foldl (fun rows row =>
      ResourceGroup.ensure rows row.resourceId row.groupCn row.accessLevel) store.resourceGroups := by
  have kindsEq : kinds = [Kind.host.text, Kind.app.text] := rfl
  cases call with
  | site slug owner siteResourceId =>
      by_cases empty : slug = ""
      · simp only [execute, ensureSiteGroups, if_pos empty] at ran
        rw [← Except.ok.inj ran, links, if_pos empty]
        rfl
      · simp only [execute, ensureSiteGroups, if_neg empty, kindsEq, List.foldlM_cons,
          List.foldlM_nil, aggregateGroupCns_eq, bind, Except.bind, pure, Except.pure] at ran
        rw [← Except.ok.inj ran, links, if_neg empty]
        cases siteResourceId <;> simp [GroupStore.nestGroup, GroupStore.link,
          GroupStore.ensureResourceGroup, GroupStore.ensureGroup]
  | resource entry kind slug owner =>
      simp only [execute, provisionResourceGroups, resourceGroupCns_eq, aggregateGroupCns_eq, bind,
        Except.bind, pure, Except.pure] at ran
      rw [← Except.ok.inj ran]
      simp [links, resourceGroupCns_eq, GroupStore.nestGroup, GroupStore.ensureResourceGroup,
        GroupStore.ensureGroup, Except.toOption]

end Provision

/-! ## Calls side by side -/

/-- A provisioning call between two awaits on the table. -/
inductive Binding where
  | finding (row : ResourceGroup) (rest : List ResourceGroup)
  | creating (row : ResourceGroup) (rest : List ResourceGroup)
  | finished
  | failed
  deriving DecidableEq, Repr

/-- Go on to the next row. -/
def Binding.start : List ResourceGroup → Binding
  | [] => finished
  | row :: rest => finding row rest

/-- The operation a call waits for happens, or throws, which ends the call. -/
def Binding.turn (ok : Bool) (rows : List ResourceGroup) : Binding → List ResourceGroup × Binding
  | finding row rest =>
      if ok = false then (rows, failed)
      else if rows.any fun other => decide (other.Binds row) then (rows, start rest)
      else (rows, creating row rest)
  | creating row rest => if ok = false then (rows, failed) else (rows ++ [row], start rest)
  | finished => (rows, finished)
  | failed => (rows, failed)

def provisioning (base : GroupBase) :
    Protocol (List ResourceGroup) Binding (Provision base) Bool where
  call call rows := (rows, .start call.links)
  turn ok rows binding := binding.turn ok rows

/-- At most one row for a resource and a group. -/
def BoundOnce (rows : List ResourceGroup) : Prop :=
  rows.Pairwise fun row other => ¬ row.Binds other

instance (rows : List ResourceGroup) : Decidable (BoundOnce rows) := by
  unfold BoundOnce
  infer_instance

/-- The call is about to create a row for the resource and the group. -/
def Binding.Creates (row : ResourceGroup) : Binding → Prop
  | creating other _ => row.Binds other
  | _ => False

instance (row : ResourceGroup) (binding : Binding) : Decidable (binding.Creates row) := by
  cases binding <;> unfold Binding.Creates <;> infer_instance

/-- The row that a call searches for. -/
def Binding.searched : Binding → Option ResourceGroup
  | finding row _ => some row
  | _ => none

/-- While a call searches for a row, no call is about to create one for the same resource and
group. -/
def Undisturbed {base : GroupBase} :
    Event (Provision base) Bool → Pool (List ResourceGroup) Binding → Prop
  | .turn index true, pool => ∀ binding ∈ pool.calls[index]?, ∀ row ∈ binding.searched,
      ∀ other ∈ pool.calls, ¬ other.Creates row
  | .turn _ false, _ => True
  | .call _, _ => True

/-! ## The invariant -/

/-- What a call is about to create is not there yet. -/
def Binding.Own (rows : List ResourceGroup) (binding : Binding) : Prop :=
  ∀ other ∈ rows, ¬ binding.Creates other

/-- Two calls are not about to create rows for one resource and group. -/
def Binding.Apart (binding other : Binding) : Prop :=
  ∀ row, binding.Creates row → ¬ other.Creates row

abbrev Bound : Pool (List ResourceGroup) Binding → Prop :=
  Outlined BoundOnce Binding.Own Binding.Apart

theorem Binding.apart_symm (binding other : Binding) (apart : binding.Apart other) :
    other.Apart binding :=
  fun row creates its => apart row its creates

theorem Binding.not_creates_start (rest : List ResourceGroup) (row : ResourceGroup) :
    ¬ (Binding.start rest).Creates row := by
  cases rest <;> exact id

theorem ResourceGroup.Binds.refl (row : ResourceGroup) : row.Binds row := ⟨rfl, rfl⟩

theorem ResourceGroup.Binds.symm {row other : ResourceGroup} (binds : row.Binds other) :
    other.Binds row :=
  ⟨binds.1.symm, binds.2.symm⟩

theorem ResourceGroup.Binds.trans {row other third : ResourceGroup} (first : row.Binds other)
    (second : other.Binds third) : row.Binds third :=
  ⟨first.1.trans second.1, first.2.trans second.2⟩

theorem Binding.Creates.of_binds {row other : ResourceGroup} {binding : Binding}
    (binds : row.Binds other) (creates : binding.Creates other) : binding.Creates row := by
  cases binding with
  | creating _ _ => exact binds.trans creates
  | finding _ _ | finished | failed => exact creates

/-- A call that is about to create nothing fits beside all others. -/
theorem bound_of_idle {rows : List ResourceGroup} {binding : Binding}
    (idle : ∀ row, ¬ binding.Creates row) :
    binding.Own rows ∧ ∀ other : Binding, binding.Apart other :=
  ⟨fun other _ => idle other, fun _ row creates => absurd creates (idle row)⟩

theorem bound_apply {base : GroupBase} (event : Event (Provision base) Bool)
    (pool : Pool (List ResourceGroup) Binding) (bound : Bound pool)
    (undisturbed : Undisturbed event pool) : Bound ((provisioning base).apply event pool) := by
  cases event with
  | call call =>
      obtain ⟨own, apart⟩ := @bound_of_idle pool.shared _ (Binding.not_creates_start call.links)
      apply Outlined.apply_call bound Binding.apart_symm
      · exact ⟨bound.shared, own⟩
      · exact fun index called found => ⟨bound.each index called found, apart called⟩
  | turn index ok =>
      apply Outlined.apply_turn bound Binding.apart_symm
      intro binding found
      have unchanged (next : Binding) (idle : ∀ row, ¬ next.Creates row) :
          BoundOnce pool.shared ∧ next.Own pool.shared ∧
            ∀ (other : Nat) (called : Binding), other ≠ index → pool.calls[other]? = some called →
              called.Own pool.shared ∧ next.Apart called := by
        obtain ⟨own, apart⟩ := @bound_of_idle pool.shared next idle
        exact ⟨bound.shared, own,
          fun other called _ isCalled => ⟨bound.each other called isCalled, apart called⟩⟩
      cases binding with
      | finding row rest =>
          cases ok with
          | false => exact unchanged .failed fun _ => id
          | true =>
              dsimp only [provisioning, Binding.turn]
              rw [if_neg Bool.noConfusion]
              split
              · exact unchanged (.start rest) (Binding.not_creates_start rest)
              · rename_i absent
                refine ⟨bound.shared, ?_, ?_⟩
                · intro other member creates
                  apply absent
                  exact List.any_eq_true.mpr ⟨other, member, decide_eq_true creates⟩
                · intro other called _ isCalled
                  refine ⟨bound.each other called isCalled, ?_⟩
                  intro third creates its
                  exact undisturbed _ found row rfl called (List.mem_of_getElem? isCalled)
                    (its.of_binds (ResourceGroup.Binds.symm creates))
      | creating row rest =>
          cases ok with
          | false => exact unchanged .failed fun _ => id
          | true =>
              dsimp only [provisioning, Binding.turn]
              rw [if_neg Bool.noConfusion]
              obtain ⟨own, apart⟩ := @bound_of_idle (pool.shared ++ [row]) _
                (Binding.not_creates_start rest)
              refine ⟨?_, own, ?_⟩
              · apply List.pairwise_append.mpr ⟨bound.shared, List.pairwise_singleton _ _, ?_⟩
                intro other member next isRow
                rw [List.mem_singleton.mp isRow]
                exact bound.each index _ found other member
              · intro other called different isCalled
                refine ⟨?_, apart called⟩
                intro next member
                rcases List.mem_append.mp member with before | isRow
                · exact bound.each other called isCalled next before
                · rw [List.mem_singleton.mp isRow]
                  exact bound.apart index other _ called (Ne.symm different) found isCalled row
                    (ResourceGroup.Binds.refl row)
      | finished => exact unchanged .finished fun _ => id
      | failed => exact unchanged .failed fun _ => id

/-- In a run that is not disturbed a group is bound to a resource at most once. -/
theorem boundOnce_run (base : GroupBase) (rows : List ResourceGroup) (once : BoundOnce rows)
    (events : List (Event (Provision base) Bool))
    (undisturbed : ∀ step ∈ Runs.steps (provisioning base).apply events ⟨rows, []⟩,
      Undisturbed step.operation step.before) :
    ∀ step ∈ Runs.steps (provisioning base).apply events ⟨rows, []⟩,
      BoundOnce step.after.shared := by
  have initial : Bound ⟨rows, []⟩ := by
    constructor
    · exact once
    · intro index binding found
      cases found
    · intro index other binding called _ found
      cases found
  intro step member
  exact (Runs.forall_steps_inv initial undisturbed bound_apply step member).2.shared

private def loads : Provision plainBase := .site "site_local" (plainUser "ann") (some "s1")

instance (event : Event (Provision plainBase) Bool) (pool : Pool (List ResourceGroup) Binding) :
    Decidable (Undisturbed event pool) :=
  match event with
  | .turn index true => inferInstanceAs (Decidable (∀ binding ∈ pool.calls[index]?,
      ∀ row ∈ binding.searched, ∀ other ∈ pool.calls, ¬ other.Creates row))
  | .turn _ false | .call _ => inferInstanceAs (Decidable True)

/-- Two loads of the Directory, one behind the other. -/
theorem boundOnce_two_loads : List.Forall (fun step => BoundOnce step.after.shared)
    (Runs.steps (provisioning plainBase).apply
      [.call loads, .turn 0 true, .turn 0 true, .call loads, .turn 1 true, .turn 0 true,
        .turn 0 true] ⟨[], []⟩) :=
  List.forall_iff_forall_mem.mpr (boundOnce_run plainBase [] (by decide) _ (by decide +kernel))

/-- Two loads that both search before either creates. -/
theorem not_boundOnce : ¬ ∀ (events : List (Event (Provision plainBase) Bool)),
    ∀ step ∈ Runs.steps (provisioning plainBase).apply events ⟨[], []⟩,
      BoundOnce step.after.shared := by
  intro always
  have once := always [.call loads, .call loads, .turn 0 true, .turn 1 true, .turn 0 true,
    .turn 1 true] _ (@List.mem_of_getElem? _ _ 5 _ rfl)
  revert once
  decide +kernel

end ThetaDirectory.Groups
