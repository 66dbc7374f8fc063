import Mathlib.Data.List.Pairwise
import Mathlib.Data.List.Perm.Subperm
import ThetaDirectory.Spokes.ServerIds

/-!
# ServerIDs are assigned once

What a write does to the ids of a registry, and what holds of a registry and its calls through
every run: one call at a time is in the section, and the ids it has claimed include all that
are stored.
-/

namespace ThetaDirectory.Spokes

open Library Library.Interleaving

variable {indexed : Bool} {rows after : List SiteSpoke}

/-- The assigned ids differ and leave the master's own alone. -/
structure Assigned (rows : List SiteSpoke) : Prop where
  distinct : (serverIds rows).Nodup
  two_le : ∀ id ∈ serverIds rows, 2 ≤ id

instance (rows : List SiteSpoke) : Decidable (Assigned rows) :=
  decidable_of_iff ((serverIds rows).Nodup ∧ ∀ id ∈ serverIds rows, 2 ≤ id)
    ⟨fun ⟨distinct, two_le⟩ => ⟨distinct, two_le⟩, fun ⟨distinct, two_le⟩ => ⟨distinct, two_le⟩⟩

/-! ## Writes -/

theorem serverIds_append (front back : List SiteSpoke) :
    serverIds (front ++ back) = serverIds front ++ serverIds back :=
  List.filterMap_append

theorem serverIds_cons (row : SiteSpoke) (rows : List SiteSpoke) :
    serverIds (row :: rows) = (assignedId row.ldapServerId).toList ++ serverIds rows := by
  unfold serverIds
  cases assigned : assignedId row.ldapServerId <;> simp [assigned]

/-- The id is at least 2 and, without an index, new. -/
def Claimable (indexed : Bool) (id : Option Nat) (rows : List SiteSpoke) : Prop :=
  ∀ number ∈ assignedId id, 2 ≤ number ∧ (indexed = true ∨ number ∉ serverIds rows)

/-- An id that the index admits, or that is new without one, is not among the others. -/
theorem Claimable.notMem {id : Option Nat} {others : List SiteSpoke}
    (claimable : Claimable indexed id rows) (admitted : admits indexed id others = true)
    (among : serverIds others ⊆ serverIds rows) :
    ∀ number ∈ assignedId id, number ∉ serverIds others := by
  intro number assigned member
  rw [admits, Option.mem_def.mp assigned] at admitted
  rcases (claimable number assigned).2 with index | new
  · simp [index, member] at admitted
  · exact new (among member)

/-- A row whose id is not among the others can take another's place. -/
theorem Assigned.insert {front back : List SiteSpoke} {row : SiteSpoke}
    (assigned : Assigned (front ++ back))
    (new : ∀ id ∈ assignedId row.ldapServerId, 2 ≤ id ∧ id ∉ serverIds (front ++ back)) :
    Assigned (front ++ row :: back) := by
  have ids : List.Perm (serverIds (front ++ row :: back))
      ((assignedId row.ldapServerId).toList ++ serverIds (front ++ back)) := by
    rw [serverIds_append, serverIds_cons, serverIds_append]
    exact List.perm_append_comm_assoc _ _ _
  constructor
  · rw [ids.nodup_iff]
    cases found : assignedId row.ldapServerId with
    | none => exact assigned.distinct
    | some id => exact List.nodup_cons.mpr ⟨(new id found).2, assigned.distinct⟩
  · intro id member
    rw [ids.mem_iff, List.mem_append, Option.mem_toList] at member
    exact member.elim (fun own => (new id own).1) (assigned.two_le id)

theorem Assigned.sublist {fewer : List SiteSpoke} (assigned : Assigned rows)
    (sublist : List.Sublist fewer rows) : Assigned fewer where
  distinct := assigned.distinct.sublist (sublist.filterMap _)
  two_le := fun id member => assigned.two_le id ((sublist.filterMap _).subset member)

/-- Two rows with one assigned id are one row. -/
theorem Assigned.eq_of_id (assigned : Assigned rows) {row other : SiteSpoke} {id : Nat}
    (member : row ∈ rows) (memberOther : other ∈ rows) (own : id ∈ assignedId row.ldapServerId)
    (same : id ∈ assignedId other.ldapServerId) : row = other := by
  have apart := List.pairwise_filterMap.mp assigned.distinct
  by_contra different
  have symmetric : Std.Symm fun row other : SiteSpoke => ∀ id ∈ assignedId row.ldapServerId,
      ∀ number ∈ assignedId other.ldapServerId, id ≠ number :=
    ⟨fun row other apart id own number same => (apart number same id own).symm⟩
  exact List.Pairwise.forall apart member memberOther different id own id same rfl

theorem create_cases {row : SiteSpoke} (created : create indexed row rows = some after) :
    after = rows ++ [row] ∧ admits indexed row.ldapServerId rows = true := by
  unfold create at created
  split at created
  · rename_i admitted
    rw [Bool.and_eq_true] at admitted
    exact ⟨(Option.some.inj created).symm, admitted.2⟩
  · cases created

theorem assigned_create {row : SiteSpoke} (assigned : Assigned rows)
    (claimable : Claimable indexed row.ldapServerId rows)
    (created : create indexed row rows = some after) :
    Assigned after ∧ ∀ id ∈ serverIds after,
      id ∈ serverIds rows ∨ id ∈ assignedId row.ldapServerId := by
  obtain ⟨rfl, admitted⟩ := create_cases created
  have same : rows ++ [] = rows := List.append_nil rows
  refine ⟨Assigned.insert (by rwa [same]) fun id member => ?_, fun id member => ?_⟩
  · rw [same]
    exact ⟨(claimable id member).1, claimable.notMem admitted (List.Subset.refl _) id member⟩
  · rw [serverIds_append, serverIds_cons, List.mem_append, List.mem_append,
      Option.mem_toList] at member
    exact member.imp_right fun own => own.resolve_right List.not_mem_nil

/-- An update replaces one row by a patched one, or finds none. -/
theorem update_cases {id : String} {patch : Patch}
    (updated : update indexed id patch rows = some after) :
    after = rows ∨ ∃ front row back, rows = front ++ row :: back ∧
      after = front ++ patch.onto row :: back ∧
      admits indexed (patch.ldapServerId.getD none) (front ++ back) = true ∧ row.id = id := by
  unfold update at updated
  split at updated
  · exact Or.inl (Option.some.inj updated).symm
  · rename_i index found
    split at updated
    · rename_i admitted
      obtain ⟨bound, selected, -⟩ := List.findIdx?_eq_some_iff_getElem.mp found
      obtain ⟨front, row, back, same, length, modified⟩ := List.exists_of_modify patch.onto bound
      refine Or.inr ⟨front, row, back, same, ?_, ?_, ?_⟩
      · rw [← modified]
        exact (Option.some.inj updated).symm
      · rwa [same, ← length, List.eraseIdx_append_of_length_le (Nat.le_refl _), Nat.sub_self,
          List.eraseIdx_zero, List.tail_cons] at admitted
      · have here : rows[index]? = some row := by
          rw [same, ← length, List.getElem?_append_right (Nat.le_refl _), Nat.sub_self]
          rfl
        rw [List.getElem?_eq_getElem bound] at here
        cases here
        exact eq_of_beq selected
    · cases updated

theorem mem_update {id : String} {patch : Patch} {row : SiteSpoke}
    (updated : update indexed id patch rows = some after) (member : row ∈ after) :
    row ∈ rows ∨ ∃ old ∈ rows, old.id = id ∧ row = patch.onto old := by
  rcases update_cases updated with rfl | ⟨front, old, back, rfl, rfl, -, same⟩
  · exact Or.inl member
  · rcases List.mem_append.mp member with before | here
    · exact Or.inl (List.mem_append_left _ before)
    · rcases List.mem_cons.mp here with rfl | behind
      · exact Or.inr ⟨old, by simp, same, rfl⟩
      · exact Or.inl (List.mem_append_right _ (List.mem_cons_of_mem _ behind))

theorem sublist_others {front back : List SiteSpoke} (row : SiteSpoke) :
    List.Sublist (front ++ back) (front ++ row :: back) :=
  List.Sublist.append_left (List.sublist_cons_self row back) front

theorem assigned_update {key : String} {patch : Patch} {id : Option Nat} (assigned : Assigned rows)
    (sets : patch.ldapServerId = some id) (claimable : Claimable indexed id rows)
    (updated : update indexed key patch rows = some after) :
    Assigned after ∧ ∀ number ∈ serverIds after,
      number ∈ serverIds rows ∨ number ∈ assignedId id := by
  rcases update_cases updated with same | ⟨front, row, back, rfl, rfl, admitted, -⟩
  · rw [same]
    exact ⟨assigned, fun _ => Or.inl⟩
  · have own : (patch.onto row).ldapServerId = id := by rw [Patch.onto, sets]; rfl
    have fewer : List.Sublist (front ++ back) (front ++ row :: back) := sublist_others row
    have among : serverIds (front ++ back) ⊆ serverIds (front ++ row :: back) :=
      (fewer.filterMap _).subset
    rw [sets] at admitted
    refine ⟨(assigned.sublist fewer).insert fun number member => ?_, fun number member => ?_⟩
    · rw [own] at member
      exact ⟨(claimable number member).1, claimable.notMem admitted among number member⟩
    · rw [serverIds_append, serverIds_cons, own, List.mem_append, List.mem_append,
        Option.mem_toList] at member
      rcases member with before | new | behind
      · exact Or.inl (among (by rw [serverIds_append]; exact List.mem_append_left _ before))
      · exact Or.inr new
      · exact Or.inl (among (by rw [serverIds_append]; exact List.mem_append_right _ behind))

/-- An update that leaves the id out leaves all ids as they are. -/
theorem serverIds_update {key : String} {patch : Patch} (unset : patch.ldapServerId = none)
    (updated : update indexed key patch rows = some after) : serverIds after = serverIds rows := by
  rcases update_cases updated with same | ⟨front, row, back, rfl, rfl, -, -⟩
  · rw [same]
  · have own : (patch.onto row).ldapServerId = row.ldapServerId := by
      rw [Patch.onto, unset]
      rfl
    rw [serverIds_append, serverIds_append, serverIds_cons, serverIds_cons, own]

/-! ## Allocation -/

theorem nextFree_spec {id : Nat} (found : nextFreeLdapServerId rows = some id) :
    2 ≤ id ∧ id ∉ serverIds rows := by
  have member := List.mem_of_find?_eq_some found
  have free := List.find?_some found
  rw [List.mem_range'_1] at member
  exact ⟨member.1, of_decide_eq_true free⟩

theorem le_stepPast (used : List Nat) (steps id : Nat) : id ≤ stepPast used steps id := by
  induction steps generalizing id with
  | zero => exact Nat.le_refl _
  | succ steps ih =>
      unfold stepPast
      split
      · exact Nat.le_trans (Nat.le_succ id) (ih (id + 1))
      · exact Nat.le_refl _

/-- Stepping ends at an id not claimed, or every id passed was claimed. -/
theorem stepPast_spec (used : List Nat) (steps id : Nat) :
    stepPast used steps id ∉ used ∨
      stepPast used steps id = id + steps ∧ List.range' id steps ⊆ used := by
  induction steps generalizing id with
  | zero => exact Or.inr ⟨rfl, List.nil_subset _⟩
  | succ steps ih =>
      unfold stepPast
      split
      · rename_i claimed
        refine (ih (id + 1)).imp_right fun ⟨last, passed⟩ => ⟨?_, ?_⟩
        · rw [last]
          omega
        · rw [List.range'_succ]
          exact List.cons_subset.mpr ⟨claimed, passed⟩
      · exact Or.inl ‹_›

/-- As many steps as ids are claimed lead to one that is not. -/
theorem stepPast_notMem (used : List Nat) (id : Nat) :
    stepPast used used.length id ∉ used := by
  rcases stepPast_spec used used.length id with free | ⟨last, passed⟩
  · exact free
  · rw [last]
    intro claimed
    have all : List.range' id (used.length + 1) ⊆ used := by
      rw [List.range'_concat, Nat.one_mul]
      exact List.append_subset.mpr ⟨passed, List.cons_subset.mpr ⟨claimed, List.nil_subset _⟩⟩
    have length := (List.Nodup.subperm List.nodup_range' all).length_le
    rw [List.length_range'] at length
    exact absurd length (Nat.not_succ_le_self _)

/-! ## The invariant -/

def Registering.InSection : Registering → Prop
  | .byEndpoint | .bySlug _ | .updating _ | .allocating | .creating _ => True
  | _ => False

def Adopting.InSection : Adopting → Prop
  | .listing | .assigning _ | .writing _ _ => True
  | _ => False

/-- The call holds the lock. -/
def Call.InSection : Call → Prop
  | .registration _ phase => phase.InSection
  | .adoption _ _ phase => phase.InSection
  | .removal _ _ => False

/-- Inherited ids are absent or leave the master's own alone. -/
def RosterOk (inherited : List Inherited) : Prop :=
  ∀ row ∈ inherited, ∀ id ∈ assignedId row.ldapServerId, 2 ≤ id

/-- Without an index, the claimed ids include the stored ones. -/
def Covers (indexed : Bool) (used : List Nat) (rows : List SiteSpoke) : Prop :=
  indexed = true ∨ serverIds rows ⊆ used

def Adopting.Sound (indexed : Bool) (rows : List SiteSpoke) : Adopting → Prop
  | .assigning loop => RosterOk loop.rest ∧ Covers indexed loop.used rows
  | .writing loop id => RosterOk loop.rest ∧ Claimable indexed id rows ∧
      Covers indexed loop.used rows ∧ ∀ number ∈ assignedId id, number ∈ loop.used
  | _ => True

/-- What a call will write is new. -/
def Call.Sound (indexed : Bool) (rows : List SiteSpoke) : Call → Prop
  | .registration _ (.creating id) => Claimable indexed (some id) rows
  | .adoption inherited _ phase => RosterOk inherited ∧ phase.Sound indexed rows
  | _ => True

/-- A call in the section has locked it, and what it will write is new. -/
structure Own (indexed : Bool) (registry : Registry) (call : Call) : Prop where
  locks : call.InSection → registry.locked = true
  sound : call.Sound indexed registry.rows

/-- Two calls are not in the section together. -/
def Apart (call called : Call) : Prop := ¬ (call.InSection ∧ called.InSection)

theorem Claimable.mono {id : Option Nat} (claimable : Claimable indexed id rows)
    (fewer : serverIds after ⊆ serverIds rows) : Claimable indexed id after := by
  intro number assigned
  obtain ⟨bound, new⟩ := claimable number assigned
  exact ⟨bound, new.imp_right fun absent member => absent (fewer member)⟩

theorem Covers.mono {used : List Nat} (covers : Covers indexed used rows)
    (fewer : serverIds after ⊆ serverIds rows) : Covers indexed used after :=
  covers.imp_right fun all => List.Subset.trans fewer all

theorem Call.Sound.mono {call : Call} (sound : call.Sound indexed rows)
    (fewer : serverIds after ⊆ serverIds rows) : call.Sound indexed after := by
  cases call with
  | registration request phase =>
      cases phase with
      | creating id => exact Claimable.mono sound fewer
      | queued | byEndpoint | bySlug _ | updating _ | allocating | registered _ | refused _ =>
          trivial
  | adoption inherited selfUrl phase =>
      refine ⟨sound.1, ?_⟩
      cases phase with
      | assigning loop => exact ⟨sound.2.1, sound.2.2.mono fewer⟩
      | writing loop id =>
          obtain ⟨roster, claimable, covers, claimed⟩ := sound.2
          exact ⟨roster, claimable.mono fewer, covers.mono fewer, claimed⟩
      | queued | listing | finished _ | timedOut => trivial
  | removal _ _ => trivial

/-- A call outside the section does not depend on the registry. -/
theorem Own.outside {call : Call} {registry changed : Registry} (own : Own indexed registry call)
    (outside : ¬ call.InSection) : Own indexed changed call where
  locks := fun within => absurd within outside
  sound := by
    cases call with
    | registration request phase =>
        cases phase <;> first | trivial | exact absurd trivial outside
    | adoption inherited selfUrl phase =>
        refine ⟨own.sound.1, ?_⟩
        cases phase <;> first | trivial | exact absurd trivial outside
    | removal _ _ => trivial

/-- A turn keeps the registry and its own call sound.  Outside the section it adds no id, and
does not enter one that is locked. -/
structure TurnOk (indexed : Bool) (registry : Registry) (call : Call) (after : Registry)
    (next : Call) : Prop where
  assigned : Assigned after.rows
  own : Own indexed after next
  others : call.InSection ∨ serverIds after.rows ⊆ serverIds registry.rows ∧
    (registry.locked = true → after.locked = true ∧ ¬ next.InSection)

variable {registry : Registry}

/-- A turn that is ok leaves the other calls sound and apart. -/
theorem TurnOk.beside {call next called : Call} {after : Registry}
    (ok : TurnOk indexed registry call after next) (own : Own indexed registry called)
    (alone : Apart call called) : Own indexed after called ∧ Apart next called := by
  by_cases within : called.InSection
  · rcases ok.others with inside | ⟨fewer, keeps⟩
    · exact absurd ⟨inside, within⟩ alone
    · obtain ⟨locked, outside⟩ := keeps (own.locks within)
      exact ⟨⟨fun _ => locked, own.sound.mono fewer⟩, fun both => outside both.1⟩
  · exact ⟨own.outside within, fun both => within both.2⟩

/-! ## Registration -/

theorem turnOk_registration {request : Request} {phase : Registering} (outcome : Outcome)
    (assigned : Assigned registry.rows)
    (own : Own indexed registry (.registration request phase)) :
    TurnOk indexed registry (.registration request phase)
      (request.turn indexed outcome registry phase).1
      (.registration request (request.turn indexed outcome registry phase).2) := by
  -- a turn in the section that writes nothing and stays in it, or leaves it
  have stays : ∀ next : Registering, phase.InSection →
      Call.Sound indexed registry.rows (.registration request next) →
      TurnOk indexed registry (.registration request phase) registry
        (.registration request next) := fun next within sound =>
    ⟨assigned, ⟨fun _ => own.locks within, sound⟩, Or.inl within⟩
  have leaves : ∀ (rows : List SiteSpoke) (next : Registering), phase.InSection →
      ¬ next.InSection → Assigned rows →
      TurnOk indexed registry (.registration request phase) ⟨rows, false⟩
        (.registration request next) := fun rows next within outside kept =>
    ⟨kept, ⟨fun inside => absurd inside outside, by
      cases next <;> first | trivial | exact absurd trivial outside⟩, Or.inl within⟩
  cases phase with
  | queued =>
      simp only [Request.turn]
      split
      · exact ⟨assigned, ⟨fun inside => inside.elim, trivial⟩,
          Or.inr ⟨List.Subset.refl _, fun locked => ⟨locked, id⟩⟩⟩
      · split
        · exact ⟨assigned, own, Or.inr ⟨List.Subset.refl _, fun locked => ⟨locked, id⟩⟩⟩
        · exact ⟨assigned, ⟨fun _ => rfl, trivial⟩,
            Or.inr ⟨List.Subset.refl _, fun locked => absurd locked ‹_›⟩⟩
  | byEndpoint =>
      simp only [Request.turn]
      split
      · split
        · exact stays _ trivial trivial
        · split <;> exact stays _ trivial trivial
      · exact leaves _ _ trivial id assigned
  | bySlug siteSlug =>
      simp only [Request.turn]
      split
      · split <;> exact stays _ trivial trivial
      · exact leaves _ _ trivial id assigned
  | updating row =>
      simp only [Request.turn]
      split
      · rename_i rows written
        refine leaves _ _ trivial id ?_
        split at written
        · have same := serverIds_update rfl written
          exact ⟨same ▸ assigned.distinct, same ▸ assigned.two_le⟩
        · cases written
      · exact leaves _ _ trivial id assigned
  | allocating =>
      simp only [Request.turn]
      split
      · split
        · rename_i id found
          obtain ⟨bound, free⟩ := nextFree_spec found
          refine stays _ trivial fun number member => ?_
          cases (Option.mem_filter_iff.mp member).1
          exact ⟨bound, Or.inr free⟩
        · exact leaves _ _ trivial id assigned
      · exact leaves _ _ trivial id assigned
  | creating id =>
      simp only [Request.turn]
      split
      · rename_i rows written
        refine leaves _ _ trivial (fun inside => inside) ?_
        have claimable : Claimable indexed (request.row id outcome).ldapServerId registry.rows :=
          own.sound
        split at written
        · exact (assigned_create assigned claimable written).1
        · cases written
      · exact leaves _ _ trivial (fun inside => inside) assigned
  | registered _ | refused _ =>
      exact ⟨assigned, own, Or.inr ⟨List.Subset.refl _, fun locked => ⟨locked, id⟩⟩⟩

/-! ## Adoption -/

theorem RosterOk.tail {inherited : Inherited} {rest : List Inherited}
    (roster : RosterOk (inherited :: rest)) : RosterOk rest :=
  fun row member => roster row (List.mem_cons_of_mem _ member)

/-- A claimed id that was not among the claimed ones is new. -/
theorem Adoption.sound_claim {loop : Adoption} {id : Option Nat} (roster : RosterOk loop.rest)
    (covers : Covers indexed loop.used rows)
    (new : ∀ number ∈ assignedId id, 2 ≤ number ∧ number ∉ loop.used) :
    (loop.claim id).Sound indexed rows := by
  refine ⟨roster, fun number assigned => ⟨(new number assigned).1, ?_⟩, ?_, ?_⟩
  · exact covers.imp_right fun all stored => (new number assigned).2 (all stored)
  · exact covers.imp_right fun all => List.Subset.trans all (List.subset_append_right _ _)
  · intro number assigned
    exact List.mem_append_left _ (Option.mem_toList.mpr (Option.mem_filter_iff.mp assigned).1)

theorem sound_advance {localSpokes : List SiteSpoke} {used : List Nat} (selfUrl : String)
    (report : Report) {rest : List Inherited} (roster : RosterOk rest)
    (covers : Covers indexed used rows) :
    (advance localSpokes used selfUrl report rest).Sound indexed rows := by
  induction rest with
  | nil => trivial
  | cons inherited rest ih =>
      unfold advance
      dsimp only
      split
      · exact ih roster.tail
      · cases kept : inherited.keptId used with
        | none => exact ⟨roster.tail, covers⟩
        | some id =>
            apply Adoption.sound_claim roster.tail covers
            intro number assigned
            cases (Option.mem_filter_iff.mp assigned).1
            obtain ⟨own, free⟩ := Option.mem_filter_iff.mp (Option.mem_def.mpr kept)
            exact ⟨roster inherited List.mem_cons_self id own, of_decide_eq_true free⟩

/-- The write of the loop keeps the ids apart, and what is stored is still claimed. -/
theorem assigned_write {loop : Adoption} {id : Option Nat} {outcome : Outcome}
    (assigned : Assigned rows) (claimable : Claimable indexed id rows)
    (covers : Covers indexed loop.used rows)
    (claimed : ∀ number ∈ assignedId id, number ∈ loop.used)
    (written : loop.write indexed id outcome rows = some after) :
    Assigned after ∧ Covers indexed loop.used after := by
  have kept : Assigned after ∧ ∀ number ∈ serverIds after,
      number ∈ serverIds rows ∨ number ∈ assignedId id := by
    unfold Adoption.write at written
    dsimp only at written
    split at written
    · exact assigned_update assigned rfl claimable written
    · exact assigned_create assigned claimable written
  refine ⟨kept.1, covers.imp_right fun all number member => ?_⟩
  exact (kept.2 number member).elim (fun stored => all stored) (claimed number)

theorem turnOk_adoption {inherited : List Inherited} {selfUrl : String} {phase : Adopting}
    (outcome : Outcome) (assigned : Assigned registry.rows)
    (own : Own indexed registry (.adoption inherited selfUrl phase))
    (listed : phase = .listing → indexed = true ∨ outcome.ok = true) :
    TurnOk indexed registry (.adoption inherited selfUrl phase)
      (phase.turn indexed inherited selfUrl outcome registry).1
      (.adoption inherited selfUrl (phase.turn indexed inherited selfUrl outcome registry).2) := by
  have roster := own.sound.1
  -- the loop goes on with the lock held, or ends and releases it
  have loops : ∀ (rows : List SiteSpoke) (next : Adopting), phase.InSection →
      Assigned rows → next.Sound indexed rows →
      TurnOk indexed registry (.adoption inherited selfUrl phase) (Registry.afterLoop rows next).1
        (.adoption inherited selfUrl (Registry.afterLoop rows next).2) := by
    intro rows next within kept sound
    cases next with
    | finished report => exact ⟨kept, ⟨fun inside => inside.elim, roster, trivial⟩, Or.inl within⟩
    | queued | listing | assigning _ | writing _ _ | timedOut =>
        exact ⟨kept, ⟨fun _ => rfl, roster, sound⟩, Or.inl within⟩
  cases phase with
  | queued =>
      simp only [Adopting.turn]
      split
      · exact ⟨assigned, ⟨fun inside => inside.elim, roster, trivial⟩,
          Or.inr ⟨List.Subset.refl _, fun locked => ⟨locked, id⟩⟩⟩
      · split
        · exact ⟨assigned, own, Or.inr ⟨List.Subset.refl _, fun locked => ⟨locked, id⟩⟩⟩
        · split
          · exact ⟨assigned, ⟨fun inside => inside.elim, roster, trivial⟩,
              Or.inr ⟨List.Subset.refl _, fun locked => ⟨locked, id⟩⟩⟩
          · exact ⟨assigned, ⟨fun _ => rfl, roster, trivial⟩,
              Or.inr ⟨List.Subset.refl _, fun locked => absurd locked ‹_›⟩⟩
  | listing =>
      simp only [Adopting.turn]
      apply loops _ _ trivial assigned
      apply sound_advance selfUrl _ roster
      refine (listed rfl).imp_right fun ok => ?_
      rw [if_pos ok]
      exact List.subset_cons_self _ _
  | assigning loop =>
      obtain ⟨rest, covers⟩ := own.sound.2
      refine ⟨assigned, ⟨fun _ => own.locks trivial, roster, ?_⟩, Or.inl trivial⟩
      apply Adoption.sound_claim rest covers
      intro number assignedNumber
      obtain ⟨free, found, same⟩ := Option.map_eq_some_iff.mp
        (Option.mem_filter_iff.mp assignedNumber).1
      split at found
      · rw [← same]
        exact ⟨Nat.le_trans (nextFree_spec found).1 (le_stepPast _ _ _), stepPast_notMem _ _⟩
      · cases found
  | writing loop id =>
      obtain ⟨rest, claimable, covers, claimed⟩ := own.sound.2
      simp only [Adopting.turn]
      have kept : Assigned ((if outcome.ok then
          loop.write indexed id outcome registry.rows else none).getD registry.rows) ∧
          Covers indexed loop.used ((if outcome.ok then
            loop.write indexed id outcome registry.rows else none).getD registry.rows) := by
        split
        · cases written : loop.write indexed id outcome registry.rows with
          | none => exact ⟨assigned, covers⟩
          | some after => exact assigned_write assigned claimable covers claimed written
        · exact ⟨assigned, covers⟩
      exact loops _ _ trivial kept.1 (sound_advance selfUrl _ rest kept.2)
  | finished _ | timedOut =>
      exact ⟨assigned, own, Or.inr ⟨List.Subset.refl _, fun locked => ⟨locked, id⟩⟩⟩

/-! ## Removal -/

theorem turnOk_removal {id : String} {phase : Removing} (outcome : Outcome)
    (assigned : Assigned registry.rows) :
    TurnOk indexed registry (.removal id phase) (phase.turn id outcome registry).1
      (.removal id (phase.turn id outcome registry).2) := by
  have unchanged : ∀ next : Removing,
      TurnOk indexed registry (.removal id phase) registry (.removal id next) := fun next =>
    ⟨assigned, ⟨fun inside => inside.elim, trivial⟩,
      Or.inr ⟨List.Subset.refl _, fun locked => ⟨locked, fun inside => inside⟩⟩⟩
  cases phase with
  | finding =>
      simp only [Removing.turn]
      split <;> exact unchanged _
  | deleting =>
      simp only [Removing.turn]
      split
      · have fewer : List.Sublist (registry.rows.filter (·.id != id)) registry.rows :=
          List.filter_sublist
        exact ⟨assigned.sublist fewer, ⟨fun inside => inside.elim, trivial⟩,
          Or.inr ⟨(fewer.filterMap _).subset, fun locked => ⟨locked, fun inside => inside⟩⟩⟩
      · exact unchanged _
  | ended found => exact unchanged _

/-! ## Runs -/

/-- Adopted rosters have no id below 2. -/
def Inherits : Event Input Outcome → Prop
  | .call (.adopt inherited _) => RosterOk inherited
  | _ => True

instance : (event : Event Input Outcome) → Decidable (Inherits event)
  | .call (.adopt inherited _) => by
      unfold Inherits RosterOk
      infer_instance
  | .call (.register _) | .call (.remove _) | .turn _ _ => isTrue trivial

/-- Without an index, the database does not fail the list of local rows of an adoption. -/
def Lists (indexed : Bool) (event : Event Input Outcome) (pool : Pool Registry Call) : Prop :=
  match event with
  | .turn index outcome =>
      match pool.calls[index]? with
      | some (.adoption _ _ .listing) => indexed = true ∨ outcome.ok = true
      | _ => True
  | .call _ => True

instance (event : Event Input Outcome) (pool : Pool Registry Call) :
    Decidable (Lists indexed event pool) := by
  unfold Lists
  split
  · split <;> infer_instance
  · infer_instance

/-- What a run is to meet. -/
def Meets (indexed : Bool) (event : Event Input Outcome) (pool : Pool Registry Call) : Prop :=
  Inherits event ∧ Lists indexed event pool

/-- The registry is sound, and so are its calls beside it, of which one is in the section. -/
abbrev Sound (indexed : Bool) : Pool Registry Call → Prop :=
  Outlined (fun registry => Assigned registry.rows) (Own indexed) Apart

theorem apart_symm {call called : Call} (apart : Apart call called) : Apart called call :=
  fun both => apart both.symm

theorem sound_start {rows : List SiteSpoke} (assigned : Assigned rows) :
    Sound indexed (start rows) where
  shared := assigned
  each := fun _ _ found => by cases found
  apart := fun _ _ _ _ _ found => by cases found

theorem turnOk_turn {pool : Pool Registry Call} {index : Nat} {call : Call} {outcome : Outcome}
    (sound : Sound indexed pool) (found : pool.calls[index]? = some call)
    (lists : Lists indexed (.turn index outcome) pool) :
    TurnOk indexed pool.shared call ((protocol indexed).turn outcome pool.shared call).1
      ((protocol indexed).turn outcome pool.shared call).2 := by
  have own := sound.each index call found
  cases call with
  | registration request phase => exact turnOk_registration outcome sound.shared own
  | adoption inherited selfUrl phase =>
      refine turnOk_adoption outcome sound.shared own fun here => ?_
      subst here
      simpa only [Lists, found] using lists
  | removal id phase => exact turnOk_removal outcome sound.shared

theorem sound_apply {event : Event Input Outcome} {pool : Pool Registry Call}
    (sound : Sound indexed pool) (meets : Meets indexed event pool) :
    Sound indexed ((protocol indexed).apply event pool) := by
  cases event with
  | call input =>
      have outside : ¬ ((protocol indexed).call input pool.shared).2.InSection := by
        cases input with
        | register request =>
            change ¬ Registering.InSection (if request.valid then _ else _)
            split <;> exact id
        | adopt _ _ | remove _ => exact id
      have same : ((protocol indexed).call input pool.shared).1 = pool.shared := by
        cases input <;> rfl
      apply Outlined.apply_call sound (fun _ _ => apart_symm)
      · rw [same]
        refine ⟨sound.shared, fun inside => absurd inside outside, ?_⟩
        cases input with
        | register request =>
            change Call.Sound indexed _ (.registration request (if request.valid then _ else _))
            split <;> trivial
        | adopt inherited selfUrl => exact ⟨meets.1, trivial⟩
        | remove _ => trivial
      · intro index called found
        rw [same]
        exact ⟨sound.each index called found, fun both => outside both.1⟩
  | turn index outcome =>
      apply Outlined.apply_turn sound (fun _ _ => apart_symm)
      intro call found
      have ok := turnOk_turn sound found meets.2
      refine ⟨ok.assigned, ok.own, fun other called different foundOther => ?_⟩
      exact ok.beside (sound.each other called foundOther)
        (sound.apart index other call called (Ne.symm different) found foundOther)

/-! ## What a registration writes -/

/-- A turn of a registration leaves the rows alone, or it is the update of a row that was found
or the creation of a new one, which ends it. -/
theorem turn_cases (request : Request) (phase : Registering) (outcome : Outcome) :
    ((request.turn indexed outcome registry phase).1.rows = registry.rows ∧
      (∀ row, (request.turn indexed outcome registry phase).2 = .updating row →
        row ∈ registry.rows) ∧
      ∀ row, (request.turn indexed outcome registry phase).2 = .registered row →
        phase = .registered row) ∨
    (∃ row, phase = .updating row ∧
      update indexed row.id (request.refresh row outcome.token) registry.rows =
        some (request.turn indexed outcome registry phase).1.rows ∧
      (request.turn indexed outcome registry phase).2 =
        .registered ((request.refresh row outcome.token).onto row)) ∨
    ∃ id, phase = .creating id ∧
      create indexed (request.row id outcome) registry.rows =
        some (request.turn indexed outcome registry phase).1.rows ∧
      (request.turn indexed outcome registry phase).2 = .registered (request.row id outcome) := by
  cases phase with
  | queued =>
      simp only [Request.turn]
      split
      · exact Or.inl ⟨rfl, by simp⟩
      · split <;> exact Or.inl ⟨rfl, by simp⟩
  | byEndpoint =>
      simp only [Request.turn]
      split
      · split
        · rename_i row found
          refine Or.inl ⟨rfl, fun here same => ?_, by simp⟩
          cases same
          exact List.mem_of_find?_eq_some found
        · split <;> exact Or.inl ⟨rfl, by simp⟩
      · exact Or.inl ⟨rfl, by simp [Registry.leave]⟩
  | bySlug siteSlug =>
      simp only [Request.turn]
      split
      · split
        · rename_i row found
          refine Or.inl ⟨rfl, fun here same => ?_, by simp⟩
          cases same
          exact List.mem_of_find?_eq_some found
        · exact Or.inl ⟨rfl, by simp⟩
      · exact Or.inl ⟨rfl, by simp [Registry.leave]⟩
  | updating row =>
      simp only [Request.turn]
      split
      · rename_i rows written
        refine Or.inr (Or.inl ⟨row, rfl, ?_, rfl⟩)
        split at written
        · exact written
        · cases written
      · exact Or.inl ⟨rfl, by simp [Registry.leave]⟩
  | allocating =>
      simp only [Request.turn]
      split
      · split
        · exact Or.inl ⟨rfl, by simp⟩
        · exact Or.inl ⟨rfl, by simp [Registry.leave]⟩
      · exact Or.inl ⟨rfl, by simp [Registry.leave]⟩
  | creating id =>
      simp only [Request.turn]
      split
      · rename_i rows written
        refine Or.inr (Or.inr ⟨id, rfl, ?_, rfl⟩)
        split at written
        · exact written
        · cases written
      · exact Or.inl ⟨rfl, by simp [Registry.leave]⟩
  | registered row => exact Or.inl ⟨rfl, by simp [Request.turn], fun _ same => same⟩
  | refused refusal => exact Or.inl ⟨rfl, by simp [Request.turn]⟩

/-! ## A registration that gets no id -/

/-- Only the last turn of a registration writes. -/
theorem registered_of_rows {request : Request} {phase : Registering} {outcome : Outcome}
    (written : (request.turn indexed outcome registry phase).1.rows ≠ registry.rows) :
    ∃ row, (request.turn indexed outcome registry phase).2 = .registered row := by
  rcases turn_cases request phase outcome with ⟨same, -⟩ | ⟨row, -, -, next⟩ | ⟨id, -, -, next⟩
  · exact absurd same written
  · exact ⟨_, next⟩
  · exact ⟨_, next⟩

/-- The call will not end as a refused registration. -/
def Call.Unrefused : Call → Prop
  | .registration _ (.registered _) => True
  | .registration _ _ => False
  | _ => True

theorem unrefused_turn (outcome : Outcome) (registry : Registry) (call : Call)
    (unrefused : call.Unrefused) :
    ((protocol indexed).turn outcome registry call).2.Unrefused := by
  cases call with
  | registration request phase =>
      cases phase with
      | registered row => trivial
      | queued | byEndpoint | bySlug _ | updating _ | allocating | creating _ | refused _ =>
          exact unrefused.elim
  | adoption _ _ _ | removal _ _ => trivial

/-- A turn that writes is not one of a registration that will end refused. -/
theorem unrefused_of_rows {call : Call} {outcome : Outcome}
    (written : ((protocol indexed).turn outcome registry call).1.rows ≠ registry.rows) :
    ((protocol indexed).turn outcome registry call).2.Unrefused := by
  cases call with
  | registration request phase =>
      obtain ⟨row, registered⟩ := registered_of_rows written
      change Call.Unrefused (.registration request (request.turn indexed outcome registry phase).2)
      rw [registered]
      trivial
  | adoption _ _ _ | removal _ _ => trivial

/-- No turn of a registration that ends refused has written. -/
theorem rows_of_refused {events : List (Event Input Outcome)} {pool : Pool Registry Call}
    {index : Nat} {request : Request} {refusal : Refusal}
    (ended : (Runs.run (protocol indexed).apply events pool).calls[index]? =
      some (.registration request (.refused refusal))) :
    ∀ step ∈ Runs.steps (protocol indexed).apply events pool, ∀ outcome,
      step.operation = .turn index outcome →
        step.after.shared.rows = step.before.shared.rows := by
  have refused : ¬ ∃ call, (Runs.run (protocol indexed).apply events pool).calls[index]? =
      some call ∧ call.Unrefused := by
    rintro ⟨call, found, unrefused⟩
    cases ended.symm.trans found
    exact unrefused
  clear ended
  induction events generalizing pool with
  | nil => exact fun step member => absurd member List.not_mem_nil
  | cons event events ih =>
      intro step member outcome own
      rcases List.mem_cons.mp member with rfl | later
      · cases own
        change ((protocol indexed).apply (.turn index outcome) pool).shared.rows = pool.shared.rows
        cases found : pool.calls[index]? with
        | none => rw [apply_turn_of_none found]
        | some call =>
            rw [shared_apply_turn found]
            by_contra written
            apply refused
            change ∃ call, (Runs.run (protocol indexed).apply events
              ((protocol indexed).apply (.turn index outcome) pool)).calls[index]? = some call ∧ _
            exact exists_call_run Call.Unrefused unrefused_turn
              ⟨_, getElem?_apply_turn_self found, unrefused_of_rows written⟩
      · exact ih refused step later outcome own

/-- Through every run of registrations, removals and adoptions the assigned ids differ and are
at least 2, by the index or else by the lock alone, as long as the database does not fail an
adoption's list of the local rows.  A registration that gets no id writes nothing. -/
theorem assigned_run {rows : List SiteSpoke} (assigned : Assigned rows)
    {events : List (Event Input Outcome)} (inherits : ∀ event ∈ events, Inherits event) :
    (∀ step ∈ Runs.steps (protocol true).apply events (start rows),
      Assigned step.after.shared.rows) ∧
    ((∀ step ∈ Runs.steps (protocol false).apply events (start rows),
        Lists false step.operation step.before) →
      ∀ step ∈ Runs.steps (protocol false).apply events (start rows),
        Assigned step.after.shared.rows) ∧
    ∀ indexed index request error,
      (Runs.run (protocol indexed).apply events (start rows)).calls[index]? =
        some (.registration request (.refused (.exhausted error))) →
      ∀ step ∈ Runs.steps (protocol indexed).apply events (start rows), ∀ outcome,
        step.operation = .turn index outcome →
          step.after.shared.rows = step.before.shared.rows := by
  have sound : ∀ indexed, (∀ step ∈ Runs.steps (protocol indexed).apply events (start rows),
      Lists indexed step.operation step.before) →
      ∀ step ∈ Runs.steps (protocol indexed).apply events (start rows),
        Assigned step.after.shared.rows := by
    intro indexed lists step member
    have meets : ∀ step ∈ Runs.steps (protocol indexed).apply events (start rows),
        Meets indexed step.operation step.before := fun step member =>
      ⟨inherits step.operation (Runs.operation_mem_of_step member), lists step member⟩
    exact (Runs.forall_steps_inv (sound_start assigned) meets
      (fun _ _ => sound_apply) step member).2.shared
  refine ⟨sound true fun step _ => ?_, sound false, fun _ _ _ _ => rows_of_refused⟩
  unfold Lists
  split
  · split
    · exact Or.inl rfl
    · trivial
  · trivial

private def spokeRow (id endpoint : String) (ldapServerId : Option Nat) : SiteSpoke :=
  ⟨id, endpoint, none, "secret", false, "", "", ldapServerId⟩

private def works (uuid : String) : Outcome := ⟨true, "", uuid, "secret"⟩

/-- Two registrations and the adoption of a roster with a taken id overlap, and the spoke with
the first id is removed in between. -/
private def overlapping : List (Event Input Outcome) :=
  [.call (.register ⟨"https://a.example", none, none, none, none⟩),
    .call (.register ⟨"https://b.example/", some "b", none, none, none⟩),
    .call (.adopt [⟨"https://c.example", none, none, false, none, none, some 3⟩,
      ⟨"https://d.example", none, none, false, none, none, some 3⟩,
      ⟨"https://e.example", none, none, false, none, none, none⟩] "https://self.example"),
    .call (.remove "first"),
    .turn 0 (works "u0"), .turn 1 (works "u1"), .turn 0 (works "u0"), .turn 0 (works "u0"),
    .turn 3 (works "u3"), .turn 3 (works "u3"), .turn 0 (works "u0"),
    .turn 2 (works "u2"), .turn 2 (works "u2"), .turn 2 (works "u2"), .turn 2 (works "u4"),
    .turn 2 (works "u4"), .turn 2 (works "u5"), .turn 2 (works "u5"), .turn 2 (works "u5"),
    .turn 1 (works "u1"), .turn 1 (works "u1"), .turn 1 (works "u1"), .turn 1 (works "u1"), .turn 1 (works "u1")]

theorem assigned_overlapping :
    List.Forall (fun step : Runs.Step (Event Input Outcome) (Pool Registry Call) =>
      Assigned step.after.shared.rows)
      (Runs.steps (protocol true).apply overlapping
        (start [spokeRow "first" "https://first.example" (some 2)])) ∧
    List.Forall (fun step : Runs.Step (Event Input Outcome) (Pool Registry Call) =>
      Assigned step.after.shared.rows)
      (Runs.steps (protocol false).apply overlapping
        (start [spokeRow "first" "https://first.example" (some 2)])) := by
  have first : Assigned [spokeRow "first" "https://first.example" (some 2)] := by decide
  have inherits : ∀ event ∈ overlapping, Inherits event := by decide
  constructor
  · exact List.forall_iff_forall_mem.mpr (assigned_run first inherits).1
  · apply List.forall_iff_forall_mem.mpr
    apply (assigned_run first inherits).2.1
    decide +kernel

end ThetaDirectory.Spokes
