import ThetaDirectory.Groups.Nesting
import ThetaDirectory.Library.Runs

/-!
# The group caches

`cachedListDetail` and `allGroupsForResolver` of `models/group_ldap.js` hold one LDAP search
each, and every group write clears both.  Steps are those between which other callbacks can
run: a search is sent, answered and stored in three of them, a write is sent, applied, and
clears the caches.

A search that was answered before a write and is stored after the write's clear puts the old
entries back.  Reads are current as long as that does not happen.
-/

namespace ThetaDirectory.Groups.Caching

open Library

/-- A `groupOfNames` entry with its owners. -/
structure GroupEntry extends LdapGroup where
  owner : List String
  deriving DecidableEq, Repr

/-- The group entries, and how many changes they carry. -/
structure Snapshot where
  groups : List GroupEntry
  changes : Nat
  deriving DecidableEq, Repr

/-! ## Writes -/

/-- The writes of `Group`, with the DNs of the group and of the user or group it is about. -/
inductive GroupWrite where
  | add (name owner : String)
  | addMember (dn user : String)
  | removeMember (dn user : String)
  | addOwner (dn user : String)
  | removeOwner (dn user : String)
  | remove (dn : String)
  deriving DecidableEq, Repr

def onEntry (dn : String) (change : GroupEntry → GroupEntry) (groups : List GroupEntry) :
    List GroupEntry :=
  groups.map fun group => if lc group.dn == lc dn then change group else group

/-- The entries after LDAP has applied a write. -/
def GroupWrite.applied (base : GroupBase) : GroupWrite → List GroupEntry → List GroupEntry
  | .add name owner, groups =>
      groups ++ [⟨⟨base.groupDn name, name, [owner]⟩, [owner]⟩]
  | .addMember dn user, groups =>
      onEntry dn (fun group => { group with member := group.member ++ [user] }) groups
  | .removeMember dn user, groups =>
      onEntry dn (fun group =>
        { group with member := group.member.filter fun member => lc member != lc user }) groups
  | .addOwner dn user, groups =>
      onEntry dn (fun group => { group with owner := group.owner ++ [user] }) groups
  | .removeOwner dn user, groups =>
      onEntry dn (fun group =>
        { group with owner := group.owner.filter fun owner => lc owner != lc user }) groups
  | .remove dn, groups => groups.filter fun group => lc group.dn != lc dn

/-- How LDAP answers a write. -/
inductive Answer where
  | done
  | noSuchAttribute
  | error
  deriving DecidableEq, Repr

/-- How far a write is, with the number of its change. -/
inductive Progress where
  | sent
  | applied (change : Nat)
  | cleared (change : Nat)
  | completed (change : Nat)
  | unchanged
  | failed
  deriving DecidableEq, Repr

structure Write where
  write : GroupWrite
  progress : Progress
  deriving DecidableEq, Repr

/-- The change a write has made. -/
def Write.change (write : Write) : Option Nat :=
  match write.progress with
  | .applied change | .cleared change | .completed change => some change
  | _ => none

/-- The change of a write that has cleared the caches. -/
def Write.clearedChange (write : Write) : Option Nat :=
  match write.progress with
  | .cleared change | .completed change => some change
  | _ => none

/-- The change of a completed write. -/
def Write.completedChange (write : Write) : Option Nat :=
  match write.progress with
  | .completed change => some change
  | _ => none

/-! ## Reads -/

inductive Which where
  | cache
  | resolverCache
  deriving DecidableEq, Repr

/-- The promise of one search. -/
inductive Search where
  | searching
  | answered (plain : Snapshot)
  | failed
  | resolved (plain : Snapshot)
  | rejected
  deriving DecidableEq, Repr

/-- What LDAP answered a search with. -/
def Search.plain? : Search → Option Snapshot
  | .answered plain | .resolved plain => some plain
  | _ => none

/-- The answer that the callback of a search has yet to store. -/
def Search.unstored : Search → Option Snapshot
  | .answered plain => some plain
  | _ => none

structure Pending where
  which : Which
  search : Search
  deriving DecidableEq, Repr

/-- What a cache holds under `all`: a promise, or entries. -/
inductive Entry where
  | promise (index : Nat)
  | plain (data : Snapshot)
  deriving DecidableEq, Repr

/-- A read, with the changes of the writes that had completed when it started. -/
structure Read where
  which : Which
  after : List Nat
  source : Entry
  deriving DecidableEq, Repr

structure State where
  ldap : Snapshot
  cache : Option Entry
  resolverCache : Option Entry
  promises : List Pending
  reads : List Read
  writes : List Write
  deriving DecidableEq, Repr

namespace State

def get (state : State) : Which → Option Entry
  | .cache => state.cache
  | .resolverCache => state.resolverCache

def set (which : Which) (entry : Option Entry) (state : State) : State :=
  match which with
  | .cache => { state with cache := entry }
  | .resolverCache => { state with resolverCache := entry }

/-- The changes whose writes have cleared the caches. -/
def cleared (state : State) : List Nat := state.writes.filterMap Write.clearedChange

/-- The changes whose writes have completed. -/
def completed (state : State) : List Nat := state.writes.filterMap Write.completedChange

/-- What a read returns, once its promise is resolved. -/
def result (state : State) (read : Read) : Option Snapshot :=
  match read.source with
  | .plain data => some data
  | .promise index =>
      match state.promises[index]? with
      | some ⟨_, .resolved plain⟩ => some plain
      | _ => none

/-- What `cachedListDetail` and `allGroupsForResolver` do: return the hit, or search and
store the promise. -/
def hitOrSearch (which : Which) (state : State) : State × Entry :=
  match state.get which with
  | some hit => (state, hit)
  | none =>
      let promise := Entry.promise state.promises.length
      let next := { state with promises := state.promises ++ [Pending.mk which .searching] }
      (next.set which (some promise), promise)

def cachedListDetail (state : State) : State × Entry := hitOrSearch .cache state

def allGroupsForResolver (state : State) : State × Entry := hitOrSearch .resolverCache state

/-- A read starts. -/
def read (which : Which) (state : State) : State :=
  let (next, source) := match which with
    | .cache => cachedListDetail state
    | .resolverCache => allGroupsForResolver state
  { next with reads := next.reads ++ [⟨which, state.completed, source⟩] }

def setSearch (index : Nat) (pending : Pending) (search : Search) (state : State) : State :=
  { state with promises := state.promises.set index { pending with search } }

def setProgress (index : Nat) (write : Write) (progress : Progress) (state : State) : State :=
  { state with writes := state.writes.set index { write with progress } }

/-- The server evaluates a search, or refuses it. -/
def answer (index : Nat) (found : Bool) (state : State) : State :=
  match state.promises[index]? with
  | some pending =>
      match pending.search with
      | .searching =>
          state.setSearch index pending (if found then .answered state.ldap else .failed)
      | _ => state
  | none => state

/-- The callback of a search: `then` stores the entries, `catch` deletes what is stored. -/
def callback (index : Nat) (state : State) : State :=
  match state.promises[index]? with
  | some pending =>
      match pending.search with
      | .answered plain =>
          (state.setSearch index pending (.resolved plain)).set pending.which (some (.plain plain))
      | .failed => (state.setSearch index pending .rejected).set pending.which none
      | _ => state
  | none => state

/-- LDAP applies a write or refuses it.  A removal of what is not there returns at once. -/
def modify (base : GroupBase) (index : Nat) (answer : Answer) (state : State) : State :=
  match state.writes[index]? with
  | some write =>
      match write.progress, answer with
      | .sent, .done =>
          let changes := state.ldap.changes + 1
          let next := { state with ldap := ⟨write.write.applied base state.ldap.groups, changes⟩ }
          next.setProgress index write (.applied changes)
      | .sent, .noSuchAttribute =>
          state.setProgress index write
            (match write.write with
            | .removeMember _ _ | .removeOwner _ _ => .unchanged
            | _ => .failed)
      | .sent, .error => state.setProgress index write .failed
      | _, _ => state
  | none => state

/-- A write goes on behind its change: it clears both caches and returns, except that `add`
still gets the new group. -/
def clear (index : Nat) (state : State) : State :=
  match state.writes[index]? with
  | some write =>
      match write.progress with
      | .applied change =>
          let next := { state with cache := none, resolverCache := none }
          next.setProgress index write
            (match write.write with
            | .add _ _ => .cleared change
            | _ => .completed change)
      | _ => state
  | none => state

/-- `add` has got the new group, or failed to. -/
def created (index : Nat) (found : Bool) (state : State) : State :=
  match state.writes[index]? with
  | some write =>
      match write.progress with
      | .cleared change =>
          state.setProgress index write (if found then .completed change else .failed)
      | _ => state
  | none => state

end State

/-- What happens next. -/
inductive Input where
  | read (which : Which)
  | write (write : GroupWrite)
  | answer (index : Nat) (found : Bool)
  | callback (index : Nat)
  | modify (index : Nat) (answer : Answer)
  | clear (index : Nat)
  | created (index : Nat) (found : Bool)
  | expire (which : Which)
  | outside (groups : List GroupEntry)
  deriving DecidableEq, Repr

def apply (base : GroupBase) : Input → State → State
  | .read which, state => state.read which
  | .write write, state => { state with writes := state.writes ++ [⟨write, .sent⟩] }
  | .answer index found, state => state.answer index found
  | .callback index, state => state.callback index
  | .modify index answer, state => state.modify base index answer
  | .clear index, state => state.clear index
  | .created index found, state => state.created index found
  | .expire which, state => state.set which none
  -- an edit made outside the application
  | .outside groups, state => { state with ldap := ⟨groups, state.ldap.changes + 1⟩ }

/-- The caches of a process that has just started. -/
def start (groups : List GroupEntry) : State where
  ldap := ⟨groups, 0⟩
  cache := none
  resolverCache := none
  promises := []
  reads := []
  writes := []

/-- Every read returns entries that carry the changes of all writes that had completed when
it started. -/
def Current (state : State) : Prop :=
  ∀ read ∈ state.reads, ∀ plain ∈ state.result read, ∀ change ∈ read.after,
    change ≤ plain.changes

instance (state : State) : Decidable (Current state) := by
  unfold Current
  infer_instance

/-- A callback stores only entries that carry the changes of all writes that have cleared
the caches. -/
def Undisturbed : Input → State → Prop
  | .callback index, state =>
      ∀ pending ∈ state.promises[index]?, ∀ plain ∈ pending.search.unstored,
        ∀ change ∈ state.cleared, change ≤ plain.changes
  | _, _ => True

instance : (input : Input) → (state : State) → Decidable (Undisturbed input state)
  | .callback index, state => by
      unfold Undisturbed
      infer_instance
  | .read _, _ | .write _, _ | .answer _ _, _ | .modify _ _, _ | .clear _, _ | .created _ _, _
  | .expire _, _ | .outside _, _ => isTrue trivial

variable {base : GroupBase} {state next : State} {change : Nat}

/-! ## What a step leaves as it was -/

/-- A read's entries will carry a change. -/
def State.Covers (state : State) (change : Nat) : Entry → Prop
  | .plain data => change ≤ data.changes
  | .promise index => change ≤ state.ldap.changes ∧
      ∃ pending, state.promises[index]? = some pending ∧
        ∀ plain ∈ pending.search.plain?, change ≤ plain.changes

/-- The directory has the changes it had, and a search is answered with what it holds. -/
structure Later (state next : State) : Prop where
  changes : state.ldap.changes ≤ next.ldap.changes
  promises : ∀ (index : Nat) (pending : Pending), state.promises[index]? = some pending →
    ∃ after, next.promises[index]? = some after ∧
      ∀ plain ∈ after.search.plain?, plain ∈ pending.search.plain? ∨
        state.ldap.changes ≤ plain.changes

theorem Later.of_eq (changes : state.ldap.changes ≤ next.ldap.changes)
    (promises : next.promises = state.promises) : Later state next where
  changes := changes
  promises := fun _ pending found => ⟨pending, promises ▸ found, fun _ plain => Or.inl plain⟩

theorem State.Covers.later {entry : Entry} (covers : state.Covers change entry)
    (later : Later state next) : next.Covers change entry := by
  cases entry with
  | plain data => exact covers
  | promise index =>
      obtain ⟨bound, pending, found, known⟩ := covers
      obtain ⟨after, foundAfter, answers⟩ := later.promises index pending found
      refine ⟨Nat.le_trans bound later.changes, after, foundAfter, fun plain answered => ?_⟩
      rcases answers plain answered with old | fresh
      · exact known plain old
      · exact Nat.le_trans bound fresh

@[simp] theorem get_set (state : State) (which other : Which) (entry : Option Entry) :
    (state.set which entry).get other = if other = which then entry else state.get other := by
  cases which <;> cases other <;> rfl

@[simp] theorem ldap_set (state : State) (which : Which) (entry : Option Entry) :
    (state.set which entry).ldap = state.ldap := by cases which <;> rfl

@[simp] theorem promises_set (state : State) (which : Which) (entry : Option Entry) :
    (state.set which entry).promises = state.promises := by cases which <;> rfl

@[simp] theorem writes_set (state : State) (which : Which) (entry : Option Entry) :
    (state.set which entry).writes = state.writes := by cases which <;> rfl

@[simp] theorem reads_set (state : State) (which : Which) (entry : Option Entry) :
    (state.set which entry).reads = state.reads := by cases which <;> rfl

theorem later_setSearch {index : Nat} {pending : Pending} {search : Search}
    (found : state.promises[index]? = some pending)
    (answers : ∀ plain ∈ search.plain?,
      plain ∈ pending.search.plain? ∨ state.ldap.changes ≤ plain.changes) :
    Later state (state.setSearch index pending search) where
  changes := Nat.le_refl _
  promises := by
    intro other before foundOther
    by_cases same : index = other
    · subst same
      rw [found] at foundOther
      cases foundOther
      have bound := (List.getElem?_eq_some_iff.mp found).1
      exact ⟨{ pending with search }, List.getElem?_set_self bound, answers⟩
    · exact ⟨before, (List.getElem?_set_ne same).trans foundOther, fun _ plain => Or.inl plain⟩

theorem mem_setProgress {index : Nat} {write other : Write} {progress : Progress}
    (member : other ∈ (state.setProgress index write progress).writes) :
    other ∈ state.writes ∨ other = { write with progress } :=
  List.mem_or_eq_of_mem_set member

theorem completed_subset_cleared : state.completed ⊆ state.cleared := by
  intro change completed
  obtain ⟨write, member, found⟩ := List.mem_filterMap.mp completed
  apply List.mem_filterMap.mpr
  refine ⟨write, member, ?_⟩
  rcases write with ⟨write, progress⟩
  cases progress <;> simp_all [Write.completedChange, Write.clearedChange]

/-! ## The invariant -/

/-- Changes made are among those of the directory, and the caches and the reads carry what
the writes that have cleared the caches, or had completed, made. -/
structure Sound (state : State) : Prop where
  made : ∀ write ∈ state.writes, ∀ change ∈ write.change, change ≤ state.ldap.changes
  slots : ∀ which, ∀ entry ∈ state.get which, ∀ change ∈ state.cleared, state.Covers change entry
  reads : ∀ read ∈ state.reads, ∀ change ∈ read.after, state.Covers change read.source

theorem Sound.cleared_le (sound : Sound state) (cleared : change ∈ state.cleared) :
    change ≤ state.ldap.changes := by
  obtain ⟨write, member, found⟩ := List.mem_filterMap.mp cleared
  apply sound.made write member
  rcases write with ⟨write, progress⟩
  cases progress <;> simp_all [Write.change, Write.clearedChange]

/-- A step that starts no read and puts nothing into a cache. -/
theorem Sound.frame (sound : Sound state) (later : Later state next)
    (made : ∀ write ∈ next.writes, ∀ change ∈ write.change, change ≤ next.ldap.changes)
    (slots : ∀ which, ∀ entry ∈ next.get which, entry ∈ state.get which ∧
      next.cleared ⊆ state.cleared)
    (reads : next.reads = state.reads) : Sound next where
  made := made
  slots := by
    intro which entry held change cleared
    obtain ⟨before, fewer⟩ := slots which entry held
    exact (sound.slots which entry before change (fewer cleared)).later later
  reads := by
    intro read member change after
    rw [reads] at member
    exact (sound.reads read member change after).later later

theorem Sound.hitOrSearch (sound : Sound state) (which : Which) :
    Sound (state.hitOrSearch which).1 ∧ Later state (state.hitOrSearch which).1 ∧
      ∀ change ∈ state.cleared,
        (state.hitOrSearch which).1.Covers change (state.hitOrSearch which).2 := by
  unfold State.hitOrSearch
  cases held : state.get which with
  | some hit => exact ⟨sound, Later.of_eq (Nat.le_refl _) rfl, sound.slots which hit held⟩
  | none =>
      have later : Later state ({ state with
          promises := state.promises ++ [Pending.mk which .searching] }.set which
            (some (.promise state.promises.length))) := by
        constructor
        · simp
        · intro index pending found
          refine ⟨pending, ?_, fun _ plain => Or.inl plain⟩
          rw [promises_set]
          exact (List.getElem?_append_left (List.getElem?_eq_some_iff.mp found).1).trans found
      have covers : ∀ change ∈ state.cleared, ({ state with
          promises := state.promises ++ [Pending.mk which .searching] }.set which
            (some (.promise state.promises.length))).Covers change
              (.promise state.promises.length) := by
        intro change cleared
        refine ⟨by simpa using sound.cleared_le cleared, ⟨which, .searching⟩, ?_, ?_⟩
        · rw [promises_set]
          exact List.getElem?_concat_length
        · intro plain found
          cases found
      refine ⟨⟨?_, ?_, ?_⟩, later, covers⟩
      · simpa using sound.made
      · intro other entry stored change cleared
        have before : change ∈ state.cleared := by simpa [State.cleared] using cleared
        rw [get_set] at stored
        split at stored
        · cases stored
          exact covers change before
        · exact (sound.slots other entry stored change before).later later
      · intro read member change after
        rw [reads_set] at member
        exact (sound.reads read member change after).later later

theorem Sound.read (sound : Sound state) (which : Which) : Sound (state.read which) := by
  have same : state.read which =
      { (state.hitOrSearch which).1 with
        reads := (state.hitOrSearch which).1.reads ++
          [⟨which, state.completed, (state.hitOrSearch which).2⟩] } := by
    cases which <;> rfl
  obtain ⟨kept, later, covers⟩ := sound.hitOrSearch which
  rw [same]
  refine ⟨kept.made, kept.slots, fun read member change after => ?_⟩
  rcases List.mem_append.mp member with before | new
  · exact kept.reads read before change after
  · cases List.mem_singleton.mp new
    exact covers change (completed_subset_cleared after)

theorem Sound.answer (sound : Sound state) (index : Nat) (found : Bool) :
    Sound (state.answer index found) := by
  unfold State.answer
  cases sent : state.promises[index]? with
  | none => exact sound
  | some pending =>
      rcases pending with ⟨which, search⟩
      cases search with
      | searching =>
          refine sound.frame (later_setSearch sent fun plain answered => Or.inr ?_) sound.made
            (fun _ _ held => ⟨held, List.Subset.refl _⟩) rfl
          cases found with
          | true =>
              cases answered
              exact Nat.le_refl _
          | false => cases answered
      | answered _ | failed | resolved _ | rejected => exact sound

/-- What `then` stores carries the changes it must, and `catch` stores nothing. -/
theorem Sound.callback {index : Nat} (sound : Sound state)
    (undisturbed : Undisturbed (.callback index) state) : Sound (state.callback index) := by
  unfold State.callback
  cases sent : state.promises[index]? with
  | none => exact sound
  | some pending =>
      rcases pending with ⟨which, search⟩
      cases search with
      | answered plain =>
          have later : Later state (state.setSearch index ⟨which, .answered plain⟩
              (.resolved plain)) := later_setSearch sent fun _ same => Or.inl same
          have latest := undisturbed _ sent plain rfl
          refine ⟨by simpa [State.setSearch] using sound.made, ?_, ?_⟩
          · intro other entry stored change cleared
            have before : change ∈ state.cleared := by
              simpa [State.cleared, State.setSearch] using cleared
            rw [get_set] at stored
            split at stored
            · cases stored
              exact latest change before
            · have covers := (sound.slots other entry stored change before).later later
              cases entry <;> simpa [State.Covers] using covers
          · intro read member change after
            rw [reads_set] at member
            have covers := (sound.reads read member change after).later later
            rcases read with ⟨kind, others, source⟩
            cases source <;> simpa [State.Covers] using covers
      | failed =>
          have later : Later state (state.setSearch index ⟨which, .failed⟩ .rejected) :=
            later_setSearch sent fun plain answered => by cases answered
          refine sound.frame ⟨?_, ?_⟩ (by simpa [State.setSearch] using sound.made) ?_
            (reads_set _ _ _)
          · rw [ldap_set]
            exact later.changes
          · rw [promises_set]
            exact later.promises
          · intro other entry stored
            rw [get_set] at stored
            split at stored
            · cases stored
            · exact ⟨stored, by simp [State.cleared, State.setSearch]⟩
      | searching | resolved _ | rejected => exact sound

/-- A write goes on without clearing the caches. -/
theorem Sound.setProgress {index : Nat} {write : Write} {progress : Progress}
    {ldap : Snapshot} (sound : Sound state) (found : state.writes[index]? = some write)
    (grows : state.ldap.changes ≤ ldap.changes)
    (made : ∀ change ∈ Write.change ⟨write.write, progress⟩, change ≤ ldap.changes)
    (cleared : ∀ change ∈ Write.clearedChange ⟨write.write, progress⟩,
      change ∈ write.clearedChange) :
    Sound ({ state with ldap }.setProgress index write progress) := by
  refine sound.frame (Later.of_eq grows rfl) ?_ (fun which entry held => ⟨?_, ?_⟩) rfl
  · intro other member change changed
    rcases mem_setProgress member with before | rfl
    · exact Nat.le_trans (sound.made other before change changed) grows
    · exact made change changed
  · cases which <;> exact held
  · intro change member
    obtain ⟨other, otherMember, otherChange⟩ := List.mem_filterMap.mp member
    rcases mem_setProgress otherMember with before | rfl
    · exact List.mem_filterMap.mpr ⟨other, before, otherChange⟩
    · exact List.mem_filterMap.mpr
        ⟨write, List.mem_of_getElem? found, cleared change otherChange⟩

theorem Sound.modify (sound : Sound state) (base : GroupBase) (index : Nat) (answer : Answer) :
    Sound (state.modify base index answer) := by
  unfold State.modify
  cases found : state.writes[index]? with
  | none => exact sound
  | some write =>
      rcases write with ⟨write, progress⟩
      cases progress with
      | sent =>
          cases answer with
          | done =>
              apply sound.setProgress found (Nat.le_succ _)
              · intro change made
                cases made
                exact Nat.le_refl _
              · exact fun _ cleared => by cases cleared
          | noSuchAttribute =>
              cases write <;> exact sound.setProgress found (Nat.le_refl _)
                (fun _ made => by cases made) (fun _ cleared => by cases cleared)
          | error =>
              exact sound.setProgress found (Nat.le_refl _) (fun _ made => by cases made)
                (fun _ cleared => by cases cleared)
      | applied _ | cleared _ | completed _ | unchanged | failed => cases answer <;> exact sound

theorem Sound.clear (sound : Sound state) (index : Nat) : Sound (state.clear index) := by
  unfold State.clear
  cases found : state.writes[index]? with
  | none => exact sound
  | some write =>
      rcases write with ⟨write, progress⟩
      cases progress with
      | applied change =>
          refine ⟨?_, ?_, fun read member change after =>
            (sound.reads read member change after).later (Later.of_eq (Nat.le_refl _) rfl)⟩
          · intro other member made changed
            rcases mem_setProgress member with before | rfl
            · exact sound.made other before made changed
            · have own : made = change := by cases write <;> exact (Option.some.inj changed).symm
              rw [own]
              exact sound.made ⟨write, .applied change⟩ (List.mem_of_getElem? found) change rfl
          · intro which entry held
            cases which <;> cases held
      | sent | cleared _ | completed _ | unchanged | failed => exact sound

theorem Sound.created (sound : Sound state) (index : Nat) (found : Bool) :
    Sound (state.created index found) := by
  unfold State.created
  cases sent : state.writes[index]? with
  | none => exact sound
  | some write =>
      rcases write with ⟨write, progress⟩
      cases progress with
      | cleared change =>
          have bound := sound.made ⟨write, .cleared change⟩ (List.mem_of_getElem? sent) change rfl
          cases found with
          | true =>
              apply sound.setProgress sent (Nat.le_refl _)
              · intro made changed
                cases changed
                exact bound
              · exact fun _ cleared => cleared
          | false =>
              exact sound.setProgress sent (Nat.le_refl _) (fun _ made => by cases made)
                (fun _ cleared => by cases cleared)
      | sent | applied _ | completed _ | unchanged | failed => exact sound

theorem Sound.apply {input : Input} (sound : Sound state) (undisturbed : Undisturbed input state) :
    Sound (apply base input state) := by
  cases input with
  | read which => exact sound.read which
  | write write =>
      have later : Later state (Caching.apply base (.write write) state) :=
        Later.of_eq (Nat.le_refl _) rfl
      apply sound.frame later
      · intro other member change changed
        rcases List.mem_append.mp member with before | new
        · exact sound.made other before change changed
        · cases List.mem_singleton.mp new
          cases changed
      · intro which entry held
        refine ⟨by cases which <;> exact held, fun change cleared => ?_⟩
        simpa [State.cleared, Caching.apply, Write.clearedChange] using cleared
      · rfl
  | answer index found => exact sound.answer index found
  | callback index => exact sound.callback undisturbed
  | modify index answer => exact sound.modify base index answer
  | clear index => exact sound.clear index
  | created index found => exact sound.created index found
  | expire which =>
      refine sound.frame (Later.of_eq ?_ (promises_set _ _ _)) ?_ ?_ (reads_set _ _ _)
      · exact Nat.le_of_eq (congrArg Snapshot.changes (ldap_set state which none).symm)
      · simpa [Caching.apply] using sound.made
      · intro other entry held
        have kept : entry ∈ (state.set which none).get other := held
        rw [get_set] at kept
        split at kept
        · cases kept
        · exact ⟨kept, by simp [Caching.apply, State.cleared]⟩
  | outside groups =>
      refine sound.frame (Later.of_eq (Nat.le_succ _) rfl) ?_ ?_ rfl
      · exact fun write member change changed =>
          Nat.le_succ_of_le (sound.made write member change changed)
      · exact fun which entry held => ⟨by cases which <;> exact held, List.Subset.refl _⟩

theorem sound_start (groups : List GroupEntry) : Sound (start groups) where
  made := fun _ member => absurd member List.not_mem_nil
  slots := fun which _ held => by cases which <;> cases held
  reads := fun _ member => absurd member List.not_mem_nil

theorem Sound.current (sound : Sound state) : Current state := by
  intro read member plain returned change after
  have covers := sound.reads read member change after
  unfold State.result at returned
  unfold State.Covers at covers
  cases source : read.source with
  | plain data =>
      rw [source] at returned covers
      cases returned
      exact covers
  | promise index =>
      rw [source] at returned covers
      obtain ⟨-, pending, found, known⟩ := covers
      rcases pending with ⟨which, search⟩
      simp only [found] at returned
      cases search with
      | resolved data =>
          cases returned
          exact known plain rfl
      | searching | answered _ | failed | rejected => cases returned

/-- While no callback stores what a completed write has made stale, no read that starts behind
a completed write returns entries from before it. -/
theorem current_run {groups : List GroupEntry} {inputs : List Input}
    (undisturbed : ∀ step ∈ Runs.steps (apply base) inputs (start groups),
      Undisturbed step.operation step.before) :
    ∀ step ∈ Runs.steps (apply base) inputs (start groups), Current step.after := by
  intro step member
  exact (Runs.forall_steps_inv (sound_start groups) undisturbed
    (fun _ _ => Sound.apply) step member).2.current

private def cachedBase : GroupBase where
  groupBase := "ou=groups"
  escapeDN := id
  maxNestingDepth := 10
  escapeDN_inj := fun same => same
  depth_pos := default_depth_pos

private def operators : List GroupEntry :=
  [⟨⟨"cn=ops,ou=groups", "ops", ["uid=root", "uid=mallory"]⟩, ["uid=root"]⟩]

private def revocation : GroupWrite := .removeMember "cn=ops,ou=groups" "uid=mallory"

/-- A member is removed between two reads that each wait for their own search. -/
theorem current_around_write : List.Forall
    (fun step : Runs.Step Input State => Current step.after)
    (Runs.steps (apply cachedBase) [.read .resolverCache, .answer 0 true, .callback 0,
      .write revocation, .read .resolverCache, .modify 0 .done, .clear 0, .read .resolverCache,
      .answer 1 true, .callback 1, .read .resolverCache] (start operators)) := by
  apply List.forall_iff_forall_mem.mpr
  apply current_run
  decide +kernel

/-- The search is answered before the removal and stored behind the clear: the next read finds
the removed member. -/
theorem not_current_overtaken :
    ¬ ∀ (base : GroupBase) (groups : List GroupEntry) (inputs : List Input),
      ∀ step ∈ Runs.steps (apply base) inputs (start groups), Current step.after := by
  intro always
  have run := always cachedBase operators [.read .resolverCache, .write revocation,
    .answer 0 true, .modify 0 .done, .clear 0, .callback 0, .read .resolverCache]
  revert run
  decide +kernel

end ThetaDirectory.Groups.Caching
