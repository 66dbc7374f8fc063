import ThetaDirectory.Library.Keyed
import ThetaDirectory.Spokes.Distinct

/-!
# Adopting a roster again

`adoptRows` of `utils/site_promote.js` from its first row to its last, while the database carries
every operation out, and what becomes of the ServerIDs when one roster is adopted twice.
-/

namespace ThetaDirectory.Spokes

open Library

/-- The rows that are not passed over. -/
def adoptees (selfUrl : String) (inheritedSpokes : List Inherited) : List Inherited :=
  inheritedSpokes.filter fun inherited =>
    ¬ (trimSlash inherited.endpoint = "" ∨
      trimSlash selfUrl ≠ "" ∧ trimSlash inherited.endpoint = trimSlash selfUrl)

/-- The local row of an endpoint. -/
def localRow (rows : List SiteSpoke) (endpoint : String) : Option SiteSpoke :=
  rows.find? fun row => trimSlash row.endpoint == endpoint

/-- The id that is claimed for an inherited row. -/
def claimId (used : List Nat) (rows : List SiteSpoke) (inherited : Inherited) : Option Nat :=
  match inherited.keptId used with
  | some id => some id
  | none => (nextFreeLdapServerId rows).map (stepPast used used.length)

/-- One turn of the loop: the table and the used ids. -/
def adoptRow (indexed : Bool) (outcomeOf : String → Outcome) (localSpokes : List SiteSpoke)
    (state : List SiteSpoke × List Nat) (inherited : Inherited) : List SiteSpoke × List Nat :=
  let endpoint := trimSlash inherited.endpoint
  let loop : Adoption := ⟨localSpokes, state.2, endpoint, inherited, [], ⟨0, [], []⟩⟩
  let id := claimId state.2 state.1 inherited
  ((loop.write indexed id (outcomeOf endpoint) state.1).getD state.1, id.toList ++ state.2)

def adoptRows (indexed : Bool) (outcomeOf : String → Outcome) (inheritedSpokes : List Inherited)
    (selfUrl : String) (rows : List SiteSpoke) : List SiteSpoke :=
  ((adoptees selfUrl inheritedSpokes).foldl (adoptRow indexed outcomeOf rows)
    (rows, 1 :: serverIds rows)).1

/-! ## The turns of the call -/

section Turns

variable {indexed : Bool} {outcomeOf : String → Outcome} {inheritedSpokes : List Inherited}
variable {selfUrl : String}

/-- One turn of a call that the database answers row by row. -/
def adoptionTurn (indexed : Bool) (outcomeOf : String → Outcome) (inheritedSpokes : List Inherited)
    (selfUrl : String) (state : Registry × Adopting) : Registry × Adopting :=
  let outcome := match state.2 with
    | .assigning loop | .writing loop _ => outcomeOf loop.endpoint
    | _ => outcomeOf ""
  state.2.turn indexed inheritedSpokes selfUrl outcome state.1

/-- Some turns of the call lead from one state to another. -/
def Leads (indexed : Bool) (outcomeOf : String → Outcome) (inheritedSpokes : List Inherited)
    (selfUrl : String) (state after : Registry × Adopting) : Prop :=
  ∃ turns, (adoptionTurn indexed outcomeOf inheritedSpokes selfUrl)^[turns] state = after

theorem Leads.step {state after : Registry × Adopting}
    (leads : Leads indexed outcomeOf inheritedSpokes selfUrl
      (adoptionTurn indexed outcomeOf inheritedSpokes selfUrl state) after) :
    Leads indexed outcomeOf inheritedSpokes selfUrl state after := by
  obtain ⟨turns, ends⟩ := leads
  exact ⟨turns + 1, ends⟩

/-- The write behind a claim ends the turn of one row. -/
theorem turn_claim (answers : ∀ endpoint, (outcomeOf endpoint).ok = true) (loop : Adoption)
    (id : Option Nat) (rows : List SiteSpoke) :
    adoptionTurn indexed outcomeOf inheritedSpokes selfUrl (⟨rows, true⟩, loop.claim id) =
      Registry.afterLoop
        ((loop.write indexed id (outcomeOf loop.endpoint) rows).getD rows)
        (advance loop.localSpokes (id.toList ++ loop.used) selfUrl
          (loop.reported (loop.write indexed id (outcomeOf loop.endpoint) rows).isSome
            (outcomeOf loop.endpoint)) loop.rest) := by
  unfold adoptionTurn Adoption.claim
  dsimp only [Adopting.turn]
  rw [answers, if_pos rfl]
  rfl

theorem leads_loop (answers : ∀ endpoint, (outcomeOf endpoint).ok = true)
    (localSpokes : List SiteSpoke) (roster : List Inherited) (used : List Nat)
    (rows : List SiteSpoke) (report : Report) :
    ∃ reported, Leads indexed outcomeOf inheritedSpokes selfUrl
      (Registry.afterLoop rows (advance localSpokes used selfUrl report roster))
      (⟨((adoptees selfUrl roster).foldl (adoptRow indexed outcomeOf localSpokes)
        (rows, used)).1, false⟩, .finished reported) := by
  induction roster generalizing used rows report with
  | nil => exact ⟨report, 0, rfl⟩
  | cons inherited rest ih =>
      unfold advance
      dsimp only
      split
      · rename_i skipped
        have passed : adoptees selfUrl (inherited :: rest) = adoptees selfUrl rest := by
          apply List.filter_cons_of_neg
          rw [decide_eq_true_iff]
          exact not_not.mpr skipped
        rw [passed]
        exact ih used rows report
      · rename_i counts
        have taken : adoptees selfUrl (inherited :: rest) = inherited :: adoptees selfUrl rest :=
          List.filter_cons_of_pos (decide_eq_true counts)
        rw [taken, List.foldl_cons]
        have claims (id : Option Nat) (claimed : claimId used rows inherited = id) :
            ∃ reported, Leads indexed outcomeOf inheritedSpokes selfUrl
              (⟨rows, true⟩, (Adoption.mk localSpokes used (trimSlash inherited.endpoint)
                inherited rest report).claim id)
              (⟨((adoptees selfUrl rest).foldl (adoptRow indexed outcomeOf localSpokes)
                (adoptRow indexed outcomeOf localSpokes (rows, used) inherited)).1, false⟩,
                .finished reported) := by
          subst claimed
          obtain ⟨reported, leads⟩ := ih _ _ _
          refine ⟨reported, Leads.step ?_⟩
          rw [turn_claim answers]
          exact leads
        cases kept : inherited.keptId used with
        | some id => exact claims (some id) (by rw [claimId, kept])
        | none =>
            obtain ⟨reported, leads⟩ := claims _ (by rw [claimId, kept])
            refine ⟨reported, Leads.step ?_⟩
            unfold adoptionTurn
            dsimp only [Registry.afterLoop, Adopting.turn]
            rw [answers, if_pos rfl]
            exact leads

/-- The call ends with the table of `adoptRows`. -/
theorem adoptRows_turns (answers : ∀ endpoint, (outcomeOf endpoint).ok = true)
    (rows : List SiteSpoke) :
    ∃ reported, Leads indexed outcomeOf inheritedSpokes selfUrl (⟨rows, true⟩, .listing)
      (⟨adoptRows indexed outcomeOf inheritedSpokes selfUrl rows, false⟩, .finished reported) := by
  obtain ⟨reported, leads⟩ := @leads_loop indexed outcomeOf inheritedSpokes selfUrl answers rows
    inheritedSpokes (1 :: serverIds rows) rows ⟨0, [], []⟩
  refine ⟨reported, Leads.step ?_⟩
  unfold adoptionTurn
  dsimp only [Adopting.turn]
  rw [answers, if_pos rfl]
  exact leads

end Turns

/-! ## One row -/

variable {indexed : Bool} {rows after localSpokes : List SiteSpoke} {row : SiteSpoke}
variable {endpoint key : String} {id : Option Nat} {used : List Nat} {inherited : Inherited}
variable {outcomeOf : String → Outcome}

theorem admits_of_new {others : List SiteSpoke} (new : ∀ number ∈ assignedId id, number ∉ serverIds rows)
    (fewer : List.Sublist others rows) : admits indexed id others = true := by
  unfold admits
  cases assigned : assignedId id with
  | none => rfl
  | some number =>
      have absent : number ∉ serverIds others := fun member =>
        new number assigned ((fewer.filterMap _).subset member)
      simp [absent]

/-- An update with a new id changes the row with the key. -/
theorem update_eq_map {patch : Patch} (keys : (rows.map (·.id)).Nodup) (member : row ∈ rows)
    (isKey : row.id = key)
    (new : ∀ number ∈ assignedId (patch.ldapServerId.getD none), number ∉ serverIds rows) :
    update indexed key patch rows =
      some (rows.map fun row => if row.id = key then patch.onto row else row) := by
  unfold update
  split
  · rename_i absent
    have different := List.findIdx?_eq_none_iff.mp absent row member
    exact absurd isKey (by simpa using different)
  · rename_i index found
    rw [if_pos (admits_of_new new (List.eraseIdx_sublist _ _))]
    rw [Keyed.modify_eq_map keys found]
    simp only [beq_iff_eq]

/-- What one turn of the loop does to the table. -/
structure Adopts (rows : List SiteSpoke) (endpoint key : String) (id : Option Nat)
    (after : List SiteSpoke) : Prop where
  keys : (after.map (·.id)).Nodup
  spared : ∀ row ∈ rows, row.id ≠ key → row ∈ after
  own : ∃ row, localRow after endpoint = some row ∧ row.id = key ∧ row.ldapServerId = id
  cases : ∀ row ∈ after, row ∈ rows ∧ row.id ≠ key ∨ localRow after endpoint = some row
  others : ∀ other ≠ endpoint, localRow after other = localRow rows other

/-- The row an adoption creates. -/
def Adoption.newRow (loop : Adoption) (id : Option Nat) (outcome : Outcome) : SiteSpoke :=
  (loop.patch id outcome.token).onto ⟨outcome.uuid, loop.endpoint, none, "", false, "", "", none⟩

theorem endpoint_newRow (loop : Adoption) (id : Option Nat) (outcome : Outcome) :
    (loop.newRow id outcome).endpoint = loop.endpoint := rfl

/-- The row of an endpoint is changed in its place. -/
theorem adopts_update {patch : Patch} (keys : (rows.map (·.id)).Nodup)
    (isLocal : localRow rows endpoint = some row) (sameEndpoint : patch.endpoint = none)
    (sets : patch.ldapServerId = some id) :
    Adopts rows endpoint row.id id
      (rows.map fun other => if other.id = row.id then patch.onto other else other) := by
  have member : row ∈ rows := List.mem_of_find?_eq_some isLocal
  have isEndpoint : trimSlash row.endpoint = endpoint := by
    simpa using List.find?_some isLocal
  have endpoints (other : SiteSpoke) :
      (if other.id = row.id then patch.onto other else other).endpoint = other.endpoint := by
    split
    · rw [Patch.onto, sameEndpoint]
      rfl
    · rfl
  have found (wanted : String) :
      localRow (rows.map fun other => if other.id = row.id then patch.onto other else other) wanted =
        (localRow rows wanted).map fun other =>
          if other.id = row.id then patch.onto other else other := by
    unfold localRow
    rw [List.find?_map]
    simp only [Function.comp_def, endpoints]
  have own : localRow (rows.map fun other =>
      if other.id = row.id then patch.onto other else other) endpoint = some (patch.onto row) := by
    rw [found, isLocal, Option.map_some, if_pos rfl]
  constructor
  · have same : (rows.map fun other => if other.id = row.id then patch.onto other else other).map
        (·.id) = rows.map (·.id) := by
      rw [List.map_map]
      apply List.map_congr_left
      intro other _
      dsimp only [Function.comp]
      split <;> rfl
    rw [same]
    exact keys
  · intro other inTable different
    exact List.mem_map.mpr ⟨other, inTable, if_neg different⟩
  · refine ⟨patch.onto row, own, rfl, ?_⟩
    rw [Patch.onto, sets]
    rfl
  · intro changed inAfter
    obtain ⟨other, inTable, rfl⟩ := List.mem_map.mp inAfter
    by_cases isRow : other.id = row.id
    · rw [own, List.inj_on_of_nodup_map keys inTable member isRow, if_pos rfl]
      exact Or.inr rfl
    · rw [if_neg isRow]
      exact Or.inl ⟨inTable, isRow⟩
  · intro other different
    rw [found]
    cases isOther : localRow rows other with
    | none => rfl
    | some third =>
        have apart : third.id ≠ row.id := by
          intro same
          have isThird := List.inj_on_of_nodup_map keys (List.mem_of_find?_eq_some isOther) member same
          have itsEndpoint : trimSlash third.endpoint = other := by
            simpa using List.find?_some isOther
          exact different (itsEndpoint.symm.trans (isThird ▸ isEndpoint))
        rw [Option.map_some, if_neg apart]

/-- A row of a new endpoint comes last. -/
theorem adopts_create (keys : (rows.map (·.id)).Nodup) (absent : localRow rows endpoint = none)
    (isEndpoint : trimSlash row.endpoint = endpoint) (newKey : ∀ other ∈ rows, other.id ≠ row.id) :
    Adopts rows endpoint row.id row.ldapServerId (rows ++ [row]) := by
  have own : localRow (rows ++ [row]) endpoint = some row := by
    unfold localRow at absent ⊢
    rw [List.find?_append, absent, Option.none_or, List.find?_singleton, if_pos]
    exact beq_iff_eq.mpr isEndpoint
  constructor
  · rw [List.map_append, List.nodup_append]
    refine ⟨keys, List.nodup_singleton _, ?_⟩
    intro key inKeys other isOther same
    obtain ⟨third, member, isThird⟩ := List.mem_map.mp inKeys
    exact newKey third member (isThird.trans (same.trans (List.mem_singleton.mp isOther)))
  · intro other member _
    exact List.mem_append_left _ member
  · exact ⟨row, own, rfl, rfl⟩
  · intro other member
    rcases List.mem_append.mp member with inTable | isNew
    · exact Or.inl ⟨inTable, newKey other inTable⟩
    · rw [List.mem_singleton.mp isNew]
      exact Or.inr own
  · intro other different
    unfold localRow
    rw [List.find?_append, List.find?_singleton, if_neg, Option.or_none]
    rw [beq_iff_eq]
    exact fun same => different (same.symm.trans isEndpoint)

theorem trimSlash_trimSlash (url : String) : trimSlash (trimSlash url) = trimSlash url := by
  unfold trimSlash
  rw [String.toList_ofList, List.rdropWhile_idempotent]

/-- A claimed id is not used yet. -/
theorem claimId_new {number : Nat} (claimed : number ∈ claimId used rows inherited) :
    number ∉ used ∧ assignedId (some number) = some number := by
  unfold claimId at claimed
  cases kept : inherited.keptId used with
  | some other =>
      rw [kept] at claimed
      cases claimed
      obtain ⟨assigned, free⟩ := Option.filter_eq_some_iff.mp kept
      exact ⟨of_decide_eq_true free,
        Option.filter_eq_some_iff.mpr ⟨rfl, (Option.filter_eq_some_iff.mp assigned).2⟩⟩
  | none =>
      rw [kept] at claimed
      obtain ⟨next, found, rfl⟩ := Option.map_eq_some_iff.mp claimed
      refine ⟨stepPast_notMem used next, Option.filter_eq_some_iff.mpr ⟨rfl, ?_⟩⟩
      have two_le := (nextFree_spec found).1
      have le := le_stepPast used used.length next
      exact decide_eq_true (Nat.ne_of_gt (Nat.lt_of_lt_of_le Nat.zero_lt_two
        (Nat.le_trans two_le le)))

theorem claimId_eq_none_iff : claimId used rows inherited = none ↔
    inherited.keptId used = none ∧ nextFreeLdapServerId rows = none := by
  unfold claimId
  cases inherited.keptId used with
  | some id => simp
  | none => simp

/-- The key under which a row is written. -/
def keyOf (outcomeOf : String → Outcome) (rows : List SiteSpoke) (endpoint : String) : String :=
  ((localRow rows endpoint).map (·.id)).getD (outcomeOf endpoint).uuid

theorem adopts_write {loop : Adoption} (keys : (rows.map (·.id)).Nodup)
    (trimmed : trimSlash loop.endpoint = loop.endpoint)
    (new : ∀ number ∈ assignedId id, number ∉ serverIds rows)
    (sameKey : (localRow loop.localSpokes loop.endpoint).map (·.id) =
      (localRow rows loop.endpoint).map (·.id))
    (newKey : localRow rows loop.endpoint = none →
      ∀ row ∈ rows, row.id ≠ (outcomeOf loop.endpoint).uuid) :
    Adopts rows loop.endpoint (keyOf outcomeOf rows loop.endpoint) id
      ((loop.write indexed id (outcomeOf loop.endpoint) rows).getD rows) := by
  cases isLocal : localRow rows loop.endpoint with
  | some row =>
      rw [isLocal, Option.map_some] at sameKey
      obtain ⟨stored, isStored, sameId⟩ := Option.map_eq_some_iff.mp sameKey
      have written : loop.write indexed id (outcomeOf loop.endpoint) rows =
          update indexed row.id (loop.patch id (outcomeOf loop.endpoint).token) rows := by
        unfold localRow at isStored
        rw [Adoption.write, isStored, ← sameId]
      rw [written, @update_eq_map indexed rows row row.id
        (loop.patch id (outcomeOf loop.endpoint).token) keys (List.mem_of_find?_eq_some isLocal) rfl
        new, keyOf, isLocal]
      exact adopts_update keys isLocal rfl rfl
  | none =>
      rw [isLocal, Option.map_none, Option.map_eq_none_iff] at sameKey
      have newRows := newKey isLocal
      have created : loop.write indexed id (outcomeOf loop.endpoint) rows =
          create indexed (loop.newRow id (outcomeOf loop.endpoint)) rows := by
        unfold localRow at sameKey
        rw [Adoption.write, sameKey]
        rfl
      have isId : (loop.newRow id (outcomeOf loop.endpoint)).ldapServerId = id := rfl
      have admitted : admits indexed (loop.newRow id (outcomeOf loop.endpoint)).ldapServerId rows =
          true := admits_of_new (isId.symm ▸ new) (List.Sublist.refl _)
      have distinct : (rows.all fun other =>
          other.id != (loop.newRow id (outcomeOf loop.endpoint)).id) = true :=
        List.all_eq_true.mpr fun other member => bne_iff_ne.mpr (newRows other member)
      have written : loop.write indexed id (outcomeOf loop.endpoint) rows =
          some (rows ++ [loop.newRow id (outcomeOf loop.endpoint)]) := by
        rw [created, create, distinct, admitted]
        rfl
      have isEndpoint : trimSlash (loop.newRow id (outcomeOf loop.endpoint)).endpoint =
          loop.endpoint := by
        rw [endpoint_newRow, trimmed]
      rw [written, keyOf, isLocal, Option.map_none, Option.getD_none, Option.getD_some]
      exact adopts_create keys isLocal isEndpoint newRows

theorem adopts_adoptRow (keys : (rows.map (·.id)).Nodup) (covered : serverIds rows ⊆ used)
    (sameKey : (localRow localSpokes (trimSlash inherited.endpoint)).map (·.id) =
      (localRow rows (trimSlash inherited.endpoint)).map (·.id))
    (newKey : localRow rows (trimSlash inherited.endpoint) = none →
      ∀ row ∈ rows, row.id ≠ (outcomeOf (trimSlash inherited.endpoint)).uuid) :
    Adopts rows (trimSlash inherited.endpoint)
      (keyOf outcomeOf rows (trimSlash inherited.endpoint)) (claimId used rows inherited)
      (adoptRow indexed outcomeOf localSpokes (rows, used) inherited).1 := by
  have new : ∀ number ∈ assignedId (claimId used rows inherited), number ∉ serverIds rows := by
    intro number assigned listed
    exact (claimId_new (Option.filter_eq_some_iff.mp assigned).1).1 (covered listed)
  exact @adopts_write indexed rows (claimId used rows inherited) outcomeOf
    ⟨localSpokes, used, trimSlash inherited.endpoint, inherited, [], ⟨0, [], []⟩⟩ keys
    (trimSlash_trimSlash inherited.endpoint) new sameKey newKey

/-! ## The whole loop -/

/-- The endpoint under which an inherited row is adopted. -/
def Inherited.cleanEndpoint (inherited : Inherited) : String := trimSlash inherited.endpoint

variable {roster : List Inherited}

/-- What the loop finds before the rows it still has to adopt. -/
structure Ready (outcomeOf : String → Outcome) (localSpokes : List SiteSpoke)
    (roster : List Inherited) (rows : List SiteSpoke) (used : List Nat) : Prop where
  keys : (rows.map (·.id)).Nodup
  covered : serverIds rows ⊆ used
  sameKeys : ∀ inherited ∈ roster, (localRow localSpokes inherited.cleanEndpoint).map (·.id) =
    (localRow rows inherited.cleanEndpoint).map (·.id)
  newKeys : ∀ inherited ∈ roster, localRow rows inherited.cleanEndpoint = none →
    ∀ row ∈ rows, row.id ≠ (outcomeOf inherited.cleanEndpoint).uuid

/-- The row stands for none of the inherited ones. -/
def Unadopted (roster : List Inherited) (rows : List SiteSpoke) (row : SiteSpoke) : Prop :=
  row ∈ rows ∧ ∀ inherited ∈ roster, localRow rows inherited.cleanEndpoint ≠ some row

/-- What the loop does to the table. -/
structure AdoptsAll (roster : List Inherited) (rows : List SiteSpoke) (used : List Nat)
    (after : List SiteSpoke) : Prop where
  keys : (after.map (·.id)).Nodup
  spared : ∀ row, Unadopted roster rows row → row ∈ after
  own : ∀ inherited ∈ roster, ∃ row, localRow after inherited.cleanEndpoint = some row ∧
    (∀ number ∈ assignedId row.ldapServerId, number ∉ used) ∧
      ∀ old ∈ localRow rows inherited.cleanEndpoint, row.id = old.id
  cases : ∀ row ∈ after, Unadopted roster rows row ∨
    ∃ inherited ∈ roster, localRow after inherited.cleanEndpoint = some row
  others : ∀ endpoint ∉ roster.map (·.cleanEndpoint), localRow after endpoint = localRow rows endpoint

theorem localRow_endpoint (isLocal : localRow rows endpoint = some row) :
    row ∈ rows ∧ trimSlash row.endpoint = endpoint :=
  ⟨List.mem_of_find?_eq_some isLocal, by simpa using List.find?_some isLocal⟩

theorem mem_serverIds {number : Nat} :
    number ∈ serverIds rows ↔ ∃ row ∈ rows, assignedId row.ldapServerId = some number :=
  List.mem_filterMap

/-- One turn leaves the loop ready for the next. -/
theorem Ready.next (apart : Function.Injective fun endpoint => (outcomeOf endpoint).uuid)
    (distinct : ((inherited :: roster).map (·.cleanEndpoint)).Nodup)
    (ready : Ready outcomeOf localSpokes (inherited :: roster) rows used)
    (adopts : Adopts rows inherited.cleanEndpoint (keyOf outcomeOf rows inherited.cleanEndpoint)
      (claimId used rows inherited) after) :
    Ready outcomeOf localSpokes roster after ((claimId used rows inherited).toList ++ used) := by
  rw [List.map_cons, List.nodup_cons] at distinct
  have other (next : Inherited) (member : next ∈ roster) :
      next.cleanEndpoint ≠ inherited.cleanEndpoint := fun same =>
    distinct.1 (same ▸ List.mem_map_of_mem member)
  constructor
  · exact adopts.keys
  · intro number listed
    obtain ⟨row, inAfter, assigned⟩ := mem_serverIds.mp listed
    rcases adopts.cases row inAfter with ⟨inTable, -⟩ | isOwn
    · exact List.mem_append_right _ (ready.covered (mem_serverIds.mpr ⟨row, inTable, assigned⟩))
    · obtain ⟨own, isLocal, -, isId⟩ := adopts.own
      cases isLocal.symm.trans isOwn
      rw [isId] at assigned
      exact List.mem_append_left _ (Option.mem_toList.mpr (Option.filter_eq_some_iff.mp assigned).1)
  · intro next member
    rw [adopts.others _ (other next member)]
    exact ready.sameKeys next (List.mem_cons_of_mem _ member)
  · intro next member absent row inAfter
    rw [adopts.others _ (other next member)] at absent
    have newKey := ready.newKeys next (List.mem_cons_of_mem _ member) absent
    rcases adopts.cases row inAfter with ⟨inTable, -⟩ | isOwn
    · exact newKey row inTable
    · obtain ⟨own, isLocal, isKey, -⟩ := adopts.own
      cases isLocal.symm.trans isOwn
      rw [isKey, keyOf]
      cases before : localRow rows inherited.cleanEndpoint with
      | some old => exact newKey old (localRow_endpoint before).1
      | none => exact fun same => other next member (apart same).symm

theorem Ready.adopts (indexed : Bool)
    (ready : Ready outcomeOf localSpokes (inherited :: roster) rows used) :
    Adopts rows inherited.cleanEndpoint (keyOf outcomeOf rows inherited.cleanEndpoint)
      (claimId used rows inherited)
      (adoptRow indexed outcomeOf localSpokes (rows, used) inherited).1 :=
  adopts_adoptRow ready.keys ready.covered (ready.sameKeys _ List.mem_cons_self)
    (ready.newKeys _ List.mem_cons_self)

/-- A row that stands for none of the inherited ones has another key than the first of them. -/
theorem Unadopted.ne_key (ready : Ready outcomeOf localSpokes (inherited :: roster) rows used)
    (unadopted : Unadopted (inherited :: roster) rows row) :
    row.id ≠ keyOf outcomeOf rows inherited.cleanEndpoint := by
  unfold keyOf
  cases before : localRow rows inherited.cleanEndpoint with
  | some old =>
      intro same
      have isOld := List.inj_on_of_nodup_map ready.keys unadopted.1 (localRow_endpoint before).1 same
      exact unadopted.2 _ List.mem_cons_self (isOld ▸ before)
  | none => exact ready.newKeys _ List.mem_cons_self before row unadopted.1

theorem Unadopted.next (distinct : ((inherited :: roster).map (·.cleanEndpoint)).Nodup)
    (ready : Ready outcomeOf localSpokes (inherited :: roster) rows used)
    (adopts : Adopts rows inherited.cleanEndpoint (keyOf outcomeOf rows inherited.cleanEndpoint)
      id after) (unadopted : Unadopted (inherited :: roster) rows row) :
    Unadopted roster after row := by
  rw [List.map_cons, List.nodup_cons] at distinct
  refine ⟨adopts.spared row unadopted.1 (unadopted.ne_key ready), ?_⟩
  intro next member
  rw [adopts.others _ fun same => distinct.1 (same ▸ List.mem_map_of_mem member)]
  exact unadopted.2 next (List.mem_cons_of_mem _ member)

theorem adoptsAll_loop (indexed : Bool)
    (apart : Function.Injective fun endpoint => (outcomeOf endpoint).uuid)
    (distinct : (roster.map (·.cleanEndpoint)).Nodup)
    (ready : Ready outcomeOf localSpokes roster rows used) :
    AdoptsAll roster rows used (roster.foldl (adoptRow indexed outcomeOf localSpokes) (rows, used)).1 := by
  induction roster generalizing rows used with
  | nil =>
      constructor
      · exact ready.keys
      · exact fun row unadopted => unadopted.1
      · intro inherited member
        cases member
      · intro row member
        refine Or.inl ⟨member, ?_⟩
        intro inherited inRoster
        cases inRoster
      · exact fun _ _ => rfl
  | cons inherited roster ih =>
      have adopts := ready.adopts indexed
      have next := ready.next apart distinct adopts
      have all := ih (List.nodup_cons.mp distinct).2 next
      have new : inherited.cleanEndpoint ∉ roster.map (·.cleanEndpoint) :=
        (List.nodup_cons.mp distinct).1
      have ownLast := all.others _ new
      constructor
      · exact all.keys
      · intro row unadopted
        exact all.spared row (unadopted.next distinct ready adopts)
      · intro other member
        rcases List.mem_cons.mp member with rfl | later
        · obtain ⟨row, isLocal, isKey, isId⟩ := adopts.own
          refine ⟨row, ownLast.trans isLocal, ?_, ?_⟩
          · intro number assigned
            rw [isId] at assigned
            exact (claimId_new (Option.filter_eq_some_iff.mp assigned).1).1
          · intro old before
            rw [isKey, keyOf, Option.mem_def.mp before]
            rfl
        · obtain ⟨row, isLocal, free, sameKey⟩ := all.own other later
          have different : other.cleanEndpoint ≠ inherited.cleanEndpoint := fun same =>
            new (same ▸ List.mem_map_of_mem later)
          refine ⟨row, isLocal, ?_, ?_⟩
          · exact fun number assigned listed =>
              free number assigned (List.mem_append_right _ listed)
          · rw [← adopts.others _ different]
            exact sameKey
      · intro row member
        rcases all.cases row member with unadopted | ⟨other, later, isOwn⟩
        · rcases adopts.cases row unadopted.1 with ⟨inTable, different⟩ | isOwn
          · refine Or.inl ⟨inTable, ?_⟩
            intro other member isLocal
            rcases List.mem_cons.mp member with rfl | later
            · apply different
              rw [keyOf, isLocal]
              rfl
            · apply unadopted.2 other later
              rw [adopts.others _ fun same => new (same ▸ List.mem_map_of_mem later)]
              exact isLocal
          · exact Or.inr ⟨inherited, List.mem_cons_self, ownLast.trans isOwn⟩
        · exact Or.inr ⟨other, List.mem_cons_of_mem _ later, isOwn⟩
      · intro endpoint absent
        rw [List.map_cons, List.mem_cons, not_or] at absent
        exact (all.others endpoint absent.2).trans (adopts.others endpoint absent.1)

/-! ### When no id is found -/

theorem nextFree_eq_none_iff : nextFreeLdapServerId rows = none ↔
    ∀ number, 2 ≤ number → number ≤ MAX_LDAP_SERVER_ID → number ∈ serverIds rows := by
  unfold nextFreeLdapServerId
  rw [List.find?_eq_none]
  constructor
  · intro all number two_le le
    have listed := all number (List.mem_range'_1.mpr ⟨two_le, by unfold MAX_LDAP_SERVER_ID at *; omega⟩)
    simpa using listed
  · intro all number member
    obtain ⟨two_le, lt⟩ := List.mem_range'_1.mp member
    have listed := all number two_le (by unfold MAX_LDAP_SERVER_ID at *; omega)
    simpa using listed

/-- All ids are held by rows that stay as they are. -/
def Full (roster : List Inherited) (rows : List SiteSpoke) : Prop :=
  ∀ number, 2 ≤ number → number ≤ MAX_LDAP_SERVER_ID →
    ∃ row, Unadopted roster rows row ∧ assignedId row.ldapServerId = some number

theorem Full.nextFree (full : Full roster rows) : nextFreeLdapServerId rows = none := by
  rw [nextFree_eq_none_iff]
  intro number two_le le
  obtain ⟨row, unadopted, assigned⟩ := full number two_le le
  exact mem_serverIds.mpr ⟨row, unadopted.1, assigned⟩

/-- Where no inherited id is free and the others are used up, no row gets one. -/
theorem none_of_full (indexed : Bool)
    (apart : Function.Injective fun endpoint => (outcomeOf endpoint).uuid)
    (distinct : (roster.map (·.cleanEndpoint)).Nodup)
    (ready : Ready outcomeOf localSpokes roster rows used) (full : Full roster rows)
    (taken : ∀ inherited ∈ roster, inherited.keptId used = none) :
    ∀ inherited ∈ roster, ∀ row ∈ localRow
      (roster.foldl (adoptRow indexed outcomeOf localSpokes) (rows, used)).1
        inherited.cleanEndpoint, row.ldapServerId = none := by
  induction roster generalizing rows used with
  | nil =>
      intro inherited member
      cases member
  | cons inherited roster ih =>
      have claimed : claimId used rows inherited = none :=
        claimId_eq_none_iff.mpr ⟨taken inherited List.mem_cons_self, full.nextFree⟩
      have adopts := ready.adopts indexed
      have next := ready.next apart distinct adopts
      have tail := (List.nodup_cons.mp distinct).2
      have ownLast := (adoptsAll_loop indexed apart tail next).others _
        (List.nodup_cons.mp distinct).1
      intro other member row isLocal
      rcases List.mem_cons.mp member with rfl | later
      · obtain ⟨own, isOwn, -, isId⟩ := adopts.own
        cases (ownLast.trans isOwn).symm.trans (Option.mem_def.mp isLocal)
        exact isId.trans claimed
      · rw [claimed] at next
        refine ih tail next ?_ (fun next isNext => taken next (List.mem_cons_of_mem _ isNext)) other
          later row ?_
        · intro number two_le le
          obtain ⟨row, unadopted, assigned⟩ := full number two_le le
          exact ⟨row, unadopted.next distinct ready adopts, assigned⟩
        · have state : adoptRow indexed outcomeOf localSpokes (rows, used) inherited =
              ((adoptRow indexed outcomeOf localSpokes (rows, used) inherited).1,
                (claimId used rows inherited).toList ++ used) := rfl
          rw [List.foldl_cons, state, claimed] at isLocal
          exact isLocal

/-- Where no row gets an id, none was free. -/
theorem taken_of_none (indexed : Bool)
    (apart : Function.Injective fun endpoint => (outcomeOf endpoint).uuid)
    (distinct : (roster.map (·.cleanEndpoint)).Nodup)
    (ready : Ready outcomeOf localSpokes roster rows used)
    (unassigned : ∀ inherited ∈ roster, ∀ row ∈ localRow
      (roster.foldl (adoptRow indexed outcomeOf localSpokes) (rows, used)).1
        inherited.cleanEndpoint, assignedId row.ldapServerId = none) :
    ∀ inherited ∈ roster, inherited.keptId used = none ∧ nextFreeLdapServerId rows = none := by
  induction roster generalizing rows used with
  | nil =>
      intro inherited member
      cases member
  | cons inherited roster ih =>
      have adopts := ready.adopts indexed
      have next := ready.next apart distinct adopts
      have tail := (List.nodup_cons.mp distinct).2
      have ownLast := (adoptsAll_loop indexed apart tail next).others _
        (List.nodup_cons.mp distinct).1
      have claimed : claimId used rows inherited = none := by
        obtain ⟨own, isOwn, -, isId⟩ := adopts.own
        have none := unassigned inherited List.mem_cons_self own (ownLast.trans isOwn)
        rw [isId] at none
        rw [Option.eq_none_iff_forall_not_mem]
        intro number isNumber
        have assigned := (claimId_new isNumber).2
        rw [Option.mem_def.mp isNumber] at none
        cases none.symm.trans assigned
      have first := claimId_eq_none_iff.mp claimed
      intro other member
      rcases List.mem_cons.mp member with rfl | later
      · exact first
      · have state : adoptRow indexed outcomeOf localSpokes (rows, used) inherited =
            ((adoptRow indexed outcomeOf localSpokes (rows, used) inherited).1,
              (claimId used rows inherited).toList ++ used) := rfl
        rw [List.foldl_cons, state, claimed] at unassigned
        rw [claimed] at next
        exact ⟨(ih tail next (fun next isNext =>
          unassigned next (List.mem_cons_of_mem _ isNext)) other later).1, first.2⟩

/-! ## Adopting twice -/

/-- Another spoke, in the table or in the roster, has the id. -/
def HeldElsewhere (rows : List SiteSpoke) (roster : List Inherited) (inherited : Inherited)
    (id : Nat) : Prop :=
  (∃ row ∈ rows, assignedId row.ldapServerId = some id ∧
      trimSlash row.endpoint ≠ inherited.cleanEndpoint) ∨
    ∃ other ∈ roster, assignedId other.ldapServerId = some id ∧
      other.cleanEndpoint ≠ inherited.cleanEndpoint

/-- The ids are stable: an inherited one is kept where no other spoke has it, and the second time
nothing changes. -/
structure Stable (selfUrl : String) (roster : List Inherited) (rows first second : List SiteSpoke) :
    Prop where
  kept : ∀ inherited ∈ adoptees selfUrl roster, ∀ id ∈ assignedId inherited.ldapServerId, id ≠ 1 →
    ¬ HeldElsewhere rows roster inherited id →
      ∃ row, localRow first inherited.cleanEndpoint = some row ∧ row.ldapServerId = some id
  again : ∀ row ∈ first, ∃ now ∈ second, now.id = row.id ∧ now.ldapServerId = row.ldapServerId

/-- The ids are used up by rows that stand for no adopted spoke, and no adopted spoke brings an id
that it could keep. -/
structure UsedUp (selfUrl : String) (roster : List Inherited) (rows : List SiteSpoke) : Prop where
  full : Full (adoptees selfUrl roster) rows
  taken : ∀ inherited ∈ adoptees selfUrl roster, ∀ id ∈ assignedId inherited.ldapServerId, id ≠ 1 →
    (∃ row, Unadopted (adoptees selfUrl roster) rows row ∧ assignedId row.ldapServerId = some id) ∧
      HeldElsewhere rows roster inherited id

/-- New keys are like no key in use, and like no other new one. -/
structure NewKeys (outcomeOf : String → Outcome) (rows : List SiteSpoke) : Prop where
  apart : Function.Injective fun endpoint => (outcomeOf endpoint).uuid
  unused : ∀ endpoint, ∀ row ∈ rows, row.id ≠ (outcomeOf endpoint).uuid

theorem ready_start (keys : (rows.map (·.id)).Nodup) (newKeys : NewKeys outcomeOf rows)
    (roster : List Inherited) : Ready outcomeOf rows roster rows (1 :: serverIds rows) :=
  ⟨keys, List.subset_cons_self _ _, fun _ _ => rfl,
    fun inherited _ _ => newKeys.unused inherited.cleanEndpoint⟩

/-- No inherited id is free where each is the master's or in the table. -/
theorem keptId_eq_none_iff : inherited.keptId (1 :: serverIds rows) = none ↔
    ∀ id ∈ assignedId inherited.ldapServerId, id ≠ 1 → id ∈ serverIds rows := by
  unfold Inherited.keptId
  rw [Option.filter_eq_none_iff]
  apply forall₂_congr
  intro id _
  rw [decide_eq_true_iff, not_not, List.mem_cons, or_iff_not_imp_left]

section Twice

variable {selfUrl : String} {first second : List SiteSpoke}

/-- Where the ids stay the second time, no adopted spoke has got one. -/
theorem unassigned_of_again (once : AdoptsAll roster rows (1 :: serverIds rows) first)
    (twice : AdoptsAll roster first (1 :: serverIds first) second)
    (again : ∀ row ∈ first, ∃ now ∈ second, now.id = row.id ∧ now.ldapServerId = row.ldapServerId) :
    ∀ inherited ∈ roster, (∀ row ∈ localRow first inherited.cleanEndpoint,
        assignedId row.ldapServerId = none) ∧
      ∀ row ∈ localRow second inherited.cleanEndpoint, assignedId row.ldapServerId = none := by
  intro inherited member
  obtain ⟨row, isLocal, -⟩ := once.own inherited member
  obtain ⟨now, isNow, free, sameKey⟩ := twice.own inherited member
  obtain ⟨other, inSecond, otherKey, sameId⟩ := again row (localRow_endpoint isLocal).1
  have isOther : other = now := List.inj_on_of_nodup_map twice.keys inSecond
    (localRow_endpoint isNow).1 (otherKey.trans (sameKey row isLocal).symm)
  rw [isOther] at sameId
  -- The second time an id is claimed that is not the one of the row.
  have none : assignedId row.ldapServerId = Option.none := by
    rw [Option.eq_none_iff_forall_not_mem]
    intro number assigned
    have listed : number ∈ serverIds first :=
      mem_serverIds.mpr ⟨row, (localRow_endpoint isLocal).1, assigned⟩
    exact free number (sameId ▸ assigned) (List.mem_cons_of_mem _ listed)
  constructor
  · intro third isThird
    cases isLocal.symm.trans (Option.mem_def.mp isThird)
    exact none
  · intro third isThird
    cases isNow.symm.trans (Option.mem_def.mp isThird)
    rw [sameId]
    exact none

theorem usedUp_of_stable (once : AdoptsAll (adoptees selfUrl roster) rows (1 :: serverIds rows) first)
    (unassigned : ∀ inherited ∈ adoptees selfUrl roster,
      ∀ row ∈ localRow first inherited.cleanEndpoint, assignedId row.ldapServerId = none)
    (taken : ∀ inherited ∈ adoptees selfUrl roster,
      inherited.keptId (1 :: serverIds first) = none ∧ nextFreeLdapServerId first = none)
    (stable : Stable selfUrl roster rows first second) (adopts : adoptees selfUrl roster ≠ []) :
    UsedUp selfUrl roster rows := by
  have held (number : Nat) (listed : number ∈ serverIds first) :
      ∃ row, Unadopted (adoptees selfUrl roster) rows row ∧
        assignedId row.ldapServerId = some number := by
    obtain ⟨row, member, assigned⟩ := mem_serverIds.mp listed
    rcases once.cases row member with unadopted | ⟨inherited, inRoster, isOwn⟩
    · exact ⟨row, unadopted, assigned⟩
    · cases (unassigned inherited inRoster row isOwn).symm.trans assigned
  constructor
  · intro number two_le le
    obtain ⟨inherited, member⟩ := List.exists_mem_of_ne_nil _ adopts
    exact held number (nextFree_eq_none_iff.mp (taken inherited member).2 number two_le le)
  · intro inherited member id assigned notOne
    refine ⟨held id (keptId_eq_none_iff.mp (taken inherited member).1 id assigned notOne), ?_⟩
    by_contra alone
    obtain ⟨row, isLocal, isId⟩ := stable.kept inherited member id assigned notOne alone
    have none := unassigned inherited member row isLocal
    rw [isId] at none
    have positive := (Option.filter_eq_some_iff.mp assigned).2
    cases none.symm.trans (Option.filter_eq_some_iff.mpr ⟨rfl, positive⟩)

theorem stable_of_usedUp
    (twice : AdoptsAll (adoptees selfUrl roster) first (1 :: serverIds first) second)
    (usedUp : UsedUp selfUrl roster rows)
    (noneFirst : ∀ inherited ∈ adoptees selfUrl roster,
      ∀ row ∈ localRow first inherited.cleanEndpoint, row.ldapServerId = none)
    (noneSecond : ∀ inherited ∈ adoptees selfUrl roster,
      ∀ row ∈ localRow second inherited.cleanEndpoint, row.ldapServerId = none) :
    Stable selfUrl roster rows first second := by
  constructor
  · intro inherited member id assigned notOne alone
    exact absurd (usedUp.taken inherited member id assigned notOne).2 alone
  · intro row member
    by_cases isOwn : ∃ inherited ∈ adoptees selfUrl roster,
        localRow first inherited.cleanEndpoint = some row
    · obtain ⟨inherited, inRoster, isLocal⟩ := isOwn
      obtain ⟨now, isNow, -, sameKey⟩ := twice.own inherited inRoster
      refine ⟨now, (localRow_endpoint isNow).1, sameKey row isLocal, ?_⟩
      rw [noneFirst inherited inRoster row isLocal, noneSecond inherited inRoster now isNow]
    · refine ⟨row, twice.spared row ⟨member, ?_⟩, rfl, rfl⟩
      exact fun inherited inRoster isLocal => isOwn ⟨inherited, inRoster, isLocal⟩

end Twice

/-- The ids are stable exactly when nothing is adopted or the ids are used up. -/
theorem adoptRows_stable_iff (indexed : Bool) (firstOutcome secondOutcome : String → Outcome)
    (roster : List Inherited) (selfUrl : String) (rows : List SiteSpoke)
    (keys : (rows.map (·.id)).Nodup)
    (endpoints : (roster.map (·.cleanEndpoint)).Nodup)
    (newKeys : NewKeys firstOutcome rows)
    (otherKeys : NewKeys secondOutcome (adoptRows indexed firstOutcome roster selfUrl rows)) :
    Stable selfUrl roster rows (adoptRows indexed firstOutcome roster selfUrl rows)
        (adoptRows indexed secondOutcome roster selfUrl
          (adoptRows indexed firstOutcome roster selfUrl rows)) ↔
      adoptees selfUrl roster = [] ∨ UsedUp selfUrl roster rows := by
  have distinct : ((adoptees selfUrl roster).map (·.cleanEndpoint)).Nodup :=
    endpoints.sublist (List.filter_sublist.map _)
  have ready := ready_start keys newKeys (adoptees selfUrl roster)
  have once := adoptsAll_loop indexed newKeys.apart distinct ready
  have readyAgain := ready_start once.keys otherKeys (adoptees selfUrl roster)
  have twice := adoptsAll_loop indexed otherKeys.apart distinct readyAgain
  constructor
  · intro stable
    by_cases none : adoptees selfUrl roster = []
    · exact Or.inl none
    · have unassigned := unassigned_of_again once twice stable.again
      have taken := taken_of_none indexed otherKeys.apart distinct readyAgain
        fun inherited member => (unassigned inherited member).2
      exact Or.inr (usedUp_of_stable once (fun inherited member => (unassigned inherited member).1)
        taken stable none)
  · intro condition
    rcases condition with none | usedUp
    · have same (outcomeOf : String → Outcome) (rows : List SiteSpoke) :
          adoptRows indexed outcomeOf roster selfUrl rows = rows := by
        rw [adoptRows, none]
        rfl
      rw [same, same]
      constructor
      · intro inherited member
        rw [none] at member
        cases member
      · exact fun row member => ⟨row, member, rfl, rfl⟩
    · have noneFirst := none_of_full indexed newKeys.apart distinct ready usedUp.full
        fun inherited member => keptId_eq_none_iff.mpr fun id assigned notOne => by
          obtain ⟨row, unadopted, isId⟩ := (usedUp.taken inherited member id assigned notOne).1
          exact mem_serverIds.mpr ⟨row, unadopted.1, isId⟩
      -- A row that stands for no adopted spoke still stands for none, as it has an id.
      have stays (row : SiteSpoke) (number : Nat)
          (unadopted : Unadopted (adoptees selfUrl roster) rows row)
          (assigned : assignedId row.ldapServerId = some number) :
          Unadopted (adoptees selfUrl roster)
            (adoptRows indexed firstOutcome roster selfUrl rows) row := by
        refine ⟨once.spared row unadopted, ?_⟩
        intro inherited member isLocal
        rw [noneFirst inherited member row isLocal] at assigned
        cases assigned
      have fullAgain : Full (adoptees selfUrl roster)
          (adoptRows indexed firstOutcome roster selfUrl rows) := by
        intro number two_le le
        obtain ⟨row, unadopted, assigned⟩ := usedUp.full number two_le le
        exact ⟨row, stays row number unadopted assigned, assigned⟩
      have noneSecond := none_of_full indexed otherKeys.apart distinct readyAgain fullAgain
        fun inherited member => keptId_eq_none_iff.mpr fun id assigned notOne => by
          obtain ⟨row, unadopted, isId⟩ := (usedUp.taken inherited member id assigned notOne).1
          exact mem_serverIds.mpr ⟨row, (stays row id unadopted isId).1, isId⟩
      exact stable_of_usedUp twice usedUp noneFirst noneSecond

/-! ### A spoke that is known already -/

/-- A database that carries everything out, with keys made of a letter and the endpoint. -/
private def lettered (letter : Char) (endpoint : String) : Outcome :=
  ⟨true, "", String.ofList (letter :: endpoint.toList), "token"⟩

private theorem newKeys_lettered {letter : Char} {rows : List SiteSpoke}
    (other : ∀ row ∈ rows, row.id.toList.head? ≠ some letter) : NewKeys (lettered letter) rows where
  apart := by
    intro endpoint other same
    have texts : letter :: endpoint.toList = letter :: other.toList := String.ofList_injective same
    exact String.toList_inj.mp (List.cons.inj texts).2
  unused := by
    intro endpoint row member same
    apply other row member
    rw [same, lettered, String.toList_ofList]
    rfl

private def knownSpoke : SiteSpoke := ⟨"b", "https://b", none, "", false, "", "", some 2⟩

private def inheritedSpoke : Inherited := ⟨"https://b", none, none, false, none, none, some 2⟩

theorem adoptRows_stable_self :
    Stable "https://b/" [inheritedSpoke] [knownSpoke]
        (adoptRows true (lettered 'x') [inheritedSpoke] "https://b/" [knownSpoke])
        (adoptRows true (lettered 'y') [inheritedSpoke] "https://b/"
          (adoptRows true (lettered 'x') [inheritedSpoke] "https://b/" [knownSpoke])) ↔
      adoptees "https://b/" [inheritedSpoke] = [] ∨
        UsedUp "https://b/" [inheritedSpoke] [knownSpoke] :=
  adoptRows_stable_iff true (lettered 'x') (lettered 'y') [inheritedSpoke] "https://b/" [knownSpoke]
    (by decide) (by decide +kernel) (newKeys_lettered (by decide)) (newKeys_lettered (by decide +kernel))

/-- The local row of a spoke takes the id that it should keep. -/
theorem not_stable : ¬ ∀ (rows : List SiteSpoke) (roster : List Inherited),
    (rows.map (·.id)).Nodup → (roster.map (·.cleanEndpoint)).Nodup →
      (roster.filterMap fun inherited => assignedId inherited.ldapServerId).Nodup →
        NewKeys (lettered 'x') rows →
          NewKeys (lettered 'y') (adoptRows true (lettered 'x') roster "https://a" rows) →
            Stable "https://a" roster rows (adoptRows true (lettered 'x') roster "https://a" rows)
              (adoptRows true (lettered 'y') roster "https://a"
                (adoptRows true (lettered 'x') roster "https://a" rows)) := by
  intro always
  have stable := always [knownSpoke] [inheritedSpoke] (by decide) (by decide) (by decide)
    (newKeys_lettered (by decide)) (newKeys_lettered (by decide +kernel))
  have alone : ¬ HeldElsewhere [knownSpoke] [inheritedSpoke] inheritedSpoke 2 := by
    unfold HeldElsewhere
    decide +kernel
  obtain ⟨row, isLocal, kept⟩ := stable.kept inheritedSpoke (by decide +kernel) 2 rfl (by decide) alone
  have moved : localRow (adoptRows true (lettered 'x') [inheritedSpoke] "https://a" [knownSpoke])
      inheritedSpoke.cleanEndpoint = some { knownSpoke with
        pushToken := "token", ldapServerId := some 3 } := by decide +kernel
  cases moved.symm.trans isLocal
  cases kept

end ThetaDirectory.Spokes
