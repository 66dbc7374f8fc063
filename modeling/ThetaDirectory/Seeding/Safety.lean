import ThetaDirectory.Seeding.Moves

/-!
# What a failed seeding leaves behind

A run that rejects puts the old database back unless one of its own moves failed
half way, and keeps every old file unless a move of the restore failed.
-/

namespace ThetaDirectory.Seeding

open Library Library.Effect

variable {Content : Type} {initial world final : World Content}

/-! ## What is asked -/

/-- The database files, in the order the directory lists them. -/
def World.database (world : World Content) : List String :=
  (world.files .dataDir).keys.filter isMdbFile

/-- The data directory holds the same database files, and slapd was started. -/
structure Restored (initial final : World Content) : Prop where
  same : ∀ name, isMdbFile name = true →
    final.content .dataDir name = initial.content .dataDir name
  started : initial.starts < final.starts

/-- Every old database file is in the data directory or in the stash. -/
def NothingLost (initial final : World Content) : Prop :=
  ∀ name content, isMdbFile name = true → initial.content .dataDir name = some content →
    final.content .dataDir name = some content ∨ final.content .stash name = some content

/-- A stash that was just named is empty. -/
structure World.Fresh (world : World Content) : Prop where
  stash : ∀ name, world.content .stash name = none
  backup : world.backup = none

namespace Faults

/-- slapd was stopped and the stash made. -/
def ReachesMoves (faults : Faults) : Prop :=
  (∀ error, faults.terminate = some error → error.code = "ESRCH") ∧
    faults.mkdir = none ∧ faults.readdir = none

/-- All these files were moved aside. -/
def MovesAside (faults : Faults) (names : List String) : Prop :=
  faults.ReachesMoves ∧ ∀ name ∈ names, (faults.aside name).throws = none

/-- After the failure, every file is moved back and slapd is started. -/
def Recovers (faults : Faults) : Prop :=
  (∀ name, (faults.back name).throws = none) ∧ faults.respawn = none

/-- No move fails after another file was moved aside, and slapadd writes no database
file that was not there before. -/
def LeavesNoTrace (faults : Faults) (loaded : JsMap Content) (names : List String) : Prop :=
  (faults.ReachesMoves → ∀ first rest, names = first :: rest →
    (∃ name ∈ rest, (faults.aside name).throws ≠ none) → (faults.aside first).throws ≠ none) ∧
  (faults.MovesAside names → faults.slapadd = none →
    ∀ name, isMdbFile name = true → name ∈ loaded → name ∈ names)

/-- Where the stash is removed, every file had arrived back, or slapadd's own file of
that name is equal and could not be cleared. -/
def KeepsFiles (faults : Faults) (loaded : JsMap Content) (initial : World Content) : Prop :=
  faults.MovesAside initial.database → faults.rmStash = none → ∀ name ∈ initial.database,
    (faults.back name).Delivers ∨ (faults.clear name ≠ none ∧ faults.slapadd = none ∧
      loaded.lookup name = initial.content .dataDir name)

end Faults

theorem mem_database {name : String} : name ∈ world.database ↔
    isMdbFile name = true ∧ ∃ content, world.content .dataDir name = some content := by
  unfold World.database World.content
  rw [List.mem_filter, ← AList.mem_keys, JsMap.mem_iff_lookup, and_comm]

theorem content_of_notMem_database {name : String} (isMdb : isMdbFile name = true)
    (absent : name ∉ world.database) : world.content .dataDir name = none := by
  cases content : world.content .dataDir name with
  | none => rfl
  | some content' => exact absurd (mem_database.mpr ⟨isMdb, content', content⟩) absent

/-! ## Where the replacement stops -/

/-- The old database is in the stash and `backup` knows it. -/
structure Replaced (faults : Faults) (loaded : JsMap Content) (initial middle : World Content) :
    Prop where
  movesAside : faults.MovesAside initial.database
  backup : middle.backup = some initial.database
  stash : ∀ name ∈ initial.database,
    middle.content .stash name = initial.content .dataDir name
  dataDir : ∀ name, isMdbFile name = true → middle.content .dataDir name =
    if faults.slapadd = none then loaded.lookup name else none
  starts : initial.starts ≤ middle.starts

/-- The states in which the body of the `try` throws. -/
inductive Interrupted (faults : Faults) (loaded : JsMap Content) (initial : World Content) :
    World Content → Prop
  | early : ¬ faults.ReachesMoves → Interrupted faults loaded initial initial
  | moving {middle : World Content} {moved : List String} {name : String} {rest : List String} :
      faults.ReachesMoves → initial.database = moved ++ name :: rest →
      (∀ other ∈ moved, (faults.aside other).throws = none) →
      (faults.aside name).throws ≠ none →
      MovedAside (initial.files .dataDir).keys moved initial middle →
      Interrupted faults loaded initial middle
  | replaced {middle : World Content} : Replaced faults loaded initial middle →
      Interrupted faults loaded initial middle

/-- Polling for slapd changes nothing. -/
theorem waitForSlapd_state (baseDn : String) (lastErr : Option IoError)
    (polls : List (Option IoError)) (world : World Content) :
    waitForSlapd baseDn lastErr polls world = .ok () world ∨
      ∃ error, waitForSlapd baseDn lastErr polls world = .error error world := by
  induction polls generalizing lastErr with
  | nil => exact Or.inr ⟨_, rfl⟩
  | cons poll polls ih =>
      cases poll with
      | none => exact Or.inl rfl
      | some error => exact ih (some error)

theorem stopSlapd_ok {faults : Faults}
    (stops : ∀ error, faults.terminate = some error → error.code = "ESRCH") :
    stopSlapd faults initial = .ok () initial := by
  unfold stopSlapd
  cases terminate : faults.terminate with
  | none => rfl
  | some error =>
      simp only [stops error terminate, if_true]
      rfl

theorem moveDatabaseAside_eq {faults : Faults} (made : faults.mkdir = none)
    (listed : faults.readdir = none) :
    moveDatabaseAside faults initial =
      moveEachAside faults (initial.files .dataDir).keys initial := by
  unfold moveDatabaseAside
  rw [made, listed, bind_ok (perform_none _), bind_ok (perform_none _), get_bind]
  rfl

/-- Without a stash nothing has happened yet. -/
theorem stop_and_move_of_not_reachesMoves {faults : Faults} (early : ¬ faults.ReachesMoves)
    (next : List String → Effect Content Unit) :
    ∃ error, (stopSlapd faults >>= fun _ => moveDatabaseAside faults >>= next) initial =
      .error error initial := by
  by_cases stops : ∀ error, faults.terminate = some error → error.code = "ESRCH"
  · rw [bind_ok (stopSlapd_ok stops)]
    cases made : faults.mkdir with
    | some error =>
        refine ⟨error, bind_error ?_⟩
        unfold moveDatabaseAside
        rw [made]
        exact bind_error (perform_some _ _)
    | none =>
        cases listed : faults.readdir with
        | some error =>
            refine ⟨error, bind_error ?_⟩
            unfold moveDatabaseAside
            rw [made, listed, bind_ok (perform_none _)]
            exact bind_error (perform_some _ _)
        | none => exact absurd ⟨stops, made, listed⟩ early
  · push Not at stops
    obtain ⟨error, terminate, notGone⟩ := stops
    refine ⟨error, bind_error ?_⟩
    unfold stopSlapd
    simp only [terminate, notGone, if_false]
    rfl

/-- Every database file was moved aside and slapadd had its effect, or threw. -/
theorem MovedAside.replaced {faults : Faults} {middle : World Content} (loaded : JsMap Content)
    (reaches : faults.ReachesMoves)
    (quiet : ∀ name ∈ initial.database, (faults.aside name).throws = none)
    (aside : MovedAside (initial.files .dataDir).keys initial.database initial middle) :
    let backed := { middle with backup := some initial.database }
    Replaced faults loaded initial
      (if faults.slapadd = none then World.load loaded backed else backed) := by
  intro backed
  have empty : ∀ name, isMdbFile name = true → middle.content .dataDir name = none := by
    intro name isMdb
    rw [aside.dataDir]
    by_cases member : name ∈ initial.database
    · simp [member]
    · simp [member, content_of_notMem_database isMdb member]
  refine ⟨⟨reaches, quiet⟩, ?_, ?_, ?_, ?_⟩
  · split <;> rfl
  · intro name member
    rw [← aside.stash name member]
    split
    · simp [World.content, World.load, backed]
    · rfl
  · intro name isMdb
    have noFile : (middle.files .dataDir).lookup name = none := empty name isMdb
    split
    · simp only [World.content, World.load, backed, Function.update_self]
      cases inLoaded : loaded.lookup name with
      | none =>
          have absent : name ∉ loaded := AList.lookup_eq_none.mp inLoaded
          rw [AList.lookup_union_right absent, noFile]
      | some content =>
          have present : name ∈ loaded := JsMap.mem_iff_lookup.mpr ⟨content, inLoaded⟩
          rw [AList.lookup_union_left present, inLoaded]
    · exact noFile
  · have same := aside.sameRun.starts
    split
    · exact Nat.le_of_eq same.symm
    · exact Nat.le_of_eq same.symm

/-- Starting and waiting keep a replaced database as it is. -/
theorem Replaced.of_starts {faults : Faults} {loaded : JsMap Content}
    {middle later : World Content} (replaced : Replaced faults loaded initial middle)
    (files : later.files = middle.files) (backup : later.backup = middle.backup)
    (starts : middle.starts ≤ later.starts) : Replaced faults loaded initial later := by
  have content : ∀ place name, later.content place name = middle.content place name := by
    intro place name
    rw [World.content, files, World.content]
  exact
    { movesAside := replaced.movesAside
      backup := backup.trans replaced.backup
      stash := fun name member => (content _ _).trans (replaced.stash name member)
      dataDir := fun name isMdb => (content _ _).trans (replaced.dataDir name isMdb)
      starts := Nat.le_trans replaced.starts starts }

/-- What follows slapadd in the body of the `try` keeps the replaced database when
it throws. -/
theorem Replaced.of_startSlapd {faults : Faults} {loaded : JsMap Content} {baseDn : String}
    {error : IoError} {middle later : World Content}
    (replaced : Replaced faults loaded initial middle)
    (thrown : (do
      startSlapd faults.spawn
      waitForSlapd baseDn none faults.polls
      quietly (perform faults.rmSurplus (World.removeAll .stash))) middle = .error error later) :
    Replaced faults loaded initial later := by
  cases spawned : faults.spawn with
  | some spawnError =>
      rw [spawned] at thrown
      have failed : startSlapd (some spawnError) middle = .error spawnError middle :=
        perform_some _ _
      rw [bind_error failed] at thrown
      cases thrown
      exact replaced
  | none =>
      rw [spawned] at thrown
      have started : startSlapd none middle = .ok () { middle with starts := middle.starts + 1 } :=
        perform_none _
      rw [bind_ok started] at thrown
      have kept : Replaced faults loaded initial { middle with starts := middle.starts + 1 } :=
        replaced.of_starts rfl rfl (Nat.le_succ _)
      rcases waitForSlapd_state baseDn none faults.polls
        { middle with starts := middle.starts + 1 } with answered | ⟨waitError, silent⟩
      · rw [bind_ok answered, quietly_perform] at thrown
        cases thrown
      · rw [bind_error silent] at thrown
        cases thrown
        exact kept

/-- The body of the `try` throws in one of three kinds of states. -/
theorem interrupted_of_replaceDatabase {faults : Faults} {loaded : JsMap Content}
    {baseDn : String} {error : IoError} {middle : World Content}
    (thrown : replaceDatabase faults loaded baseDn initial = .error error middle) :
    Interrupted faults loaded initial middle := by
  unfold replaceDatabase at thrown
  by_cases reaches : faults.ReachesMoves
  · have present : ∀ name ∈ (initial.files .dataDir).keys, ∃ content,
        initial.content .dataDir name = some content := fun name member =>
      JsMap.mem_iff_lookup.mp (AList.mem_keys.mpr member)
    rw [bind_ok (stopSlapd_ok reaches.1)] at thrown
    rcases moveEachAside_spec faults (initial.files .dataDir).nodupKeys present with
      ⟨aside, moved, quiet, done⟩ |
        ⟨before, failing, rest, moveError, aside, split, quiet, failed, moved, ended⟩
    · rw [bind_ok ((moveDatabaseAside_eq reaches.2.1 reaches.2.2).trans done),
        modify_bind] at thrown
      have replaced := MovedAside.replaced loaded reaches quiet moved
      cases loads : faults.slapadd with
      | some slapaddError =>
          rw [loads, bind_error (perform_some _ _)] at thrown
          cases thrown
          simp only [loads, reduceCtorEq, if_false] at replaced
          exact .replaced replaced
      | none =>
          rw [loads, bind_ok (perform_none _), bind_ok (quietly_perform _ _)] at thrown
          simp only [id, ite_self] at thrown
          simp only [loads, if_true] at replaced
          exact .replaced (replaced.of_startSlapd thrown)
    · rw [bind_error ((moveDatabaseAside_eq reaches.2.1 reaches.2.2).trans ended)] at thrown
      cases thrown
      exact .moving reaches split quiet (by simp [failed]) moved
  · obtain ⟨earlyError, failed⟩ := stop_and_move_of_not_reachesMoves reaches _
    rw [failed] at thrown
    cases thrown
    exact .early reaches

/-! ## The recovery -/

/-- The state after the recovery asked for a start. -/
def restarted (faults : Faults) (world : World Content) : World Content :=
  if faults.respawn.isNone then { world with starts := world.starts + 1 } else world

@[simp] theorem content_restarted (faults : Faults) (place : Place) (name : String) :
    (restarted faults world).content place name = world.content place name := by
  unfold restarted
  split <;> rfl

theorem starts_restarted (faults : Faults) : (restarted faults world).starts =
    world.starts + if faults.respawn = none then 1 else 0 := by
  unfold restarted
  cases faults.respawn <;> rfl

/-- The last steps of the recovery ask for a start, and wait. -/
theorem restart_eq (faults : Faults) (baseDn : String) (world : World Content) :
    (quietly (startSlapd faults.respawn) >>= fun _ =>
      quietly (waitForSlapd baseDn none faults.repolls)) world =
      .ok () (restarted faults world) := by
  rw [startSlapd, bind_ok (quietly_perform _ _)]
  unfold quietly
  rcases waitForSlapd_state baseDn none faults.repolls (restarted faults world) with
    answered | ⟨error, silent⟩
  · exact tryCatch_ok answered
  · exact tryCatch_error silent

/-- What the recovery leaves behind. -/
structure Recovery (faults : Faults) (middle final : World Content) : Prop where
  starts : final.starts = middle.starts + if faults.respawn = none then 1 else 0
  content_of_none : middle.backup = none → ∀ place name,
    final.content place name = middle.content place name
  dataDir : ∀ moved, middle.backup = some moved → ∀ name, final.content .dataDir name =
    if name ∈ moved then
      if (faults.back name).Delivers then middle.content .stash name
      else if faults.clear name = none then none
      else middle.content .dataDir name
    else middle.content .dataDir name
  stash : ∀ moved, middle.backup = some moved → ∀ name, final.content .stash name =
    if faults.rmStash = none then none
    else if name ∈ moved ∧ (faults.back name).throws = none then none
    else middle.content .stash name

theorem recover_spec (faults : Faults) (baseDn : String) {middle : World Content}
    (backed : ∀ moved, middle.backup = some moved →
      moved.Nodup ∧ ∀ name ∈ moved, ∃ content, middle.content .stash name = some content) :
    ∃ final, Recovery faults middle final ∧ recover faults baseDn middle = .ok () final := by
  unfold recover
  rw [get_bind]
  cases backup : middle.backup with
  | none =>
      refine ⟨restarted faults middle, ⟨starts_restarted faults, ?_, ?_, ?_⟩,
        restart_eq faults baseDn middle⟩
      · exact fun _ place name => content_restarted faults place name
      · simp [backup]
      · simp [backup]
  | some moved =>
      obtain ⟨distinct, present⟩ := backed moved backup
      obtain ⟨restored, putBack, done⟩ := restoreDatabase_spec faults distinct present
      have quiet : quietly (restoreDatabase faults moved) middle = .ok () restored :=
        tryCatch_ok done
      let cleared := if faults.rmStash.isNone then restored.removeAll .stash else restored
      have starts : cleared.starts = middle.starts := by
        rw [← putBack.sameRun.starts]
        unfold cleared
        split <;> rfl
      have content : ∀ place name, cleared.content place name =
          if place = .stash ∧ faults.rmStash = none then none
          else restored.content place name := by
        intro place name
        unfold cleared
        cases faults.rmStash <;> simp
      refine ⟨restarted faults cleared, ⟨?_, ?_, ?_, ?_⟩, ?_⟩
      · rw [starts_restarted, starts]
      · simp [backup]
      · intro other otherEq name
        obtain rfl : moved = other := Option.some.inj (backup.symm.trans otherEq)
        simp [content, putBack.dataDir]
      · intro other otherEq name
        obtain rfl : moved = other := Option.some.inj (backup.symm.trans otherEq)
        simp [content, putBack.stash]
      · dsimp only
        rw [bind_ok quiet, bind_ok (quietly_perform _ _)]
        exact restart_eq faults baseDn cleared

/-! ## The whole run -/

/-- The dump file is written: what comes before it accepted the request. -/
def Accepted (request : Request) (faults : Faults) : Prop :=
  (∃ dataDir, checkRequest request = .ok dataDir) ∧ faults.writeFile = none

/-- A run that rejects before the dump is written has touched nothing. -/
theorem eq_of_not_accepted {request : Request} {faults : Faults} {loaded : JsMap Content}
    {error : IoError} (notAccepted : ¬ Accepted request faults)
    (rejected : seedFromMasterLdif request faults loaded initial = .error error final) :
    final = initial := by
  unfold seedFromMasterLdif at rejected
  cases checked : checkRequest request with
  | error checkError =>
      rw [checked] at rejected
      cases rejected
      rfl
  | ok dataDir =>
      cases written : faults.writeFile with
      | none => exact absurd ⟨⟨dataDir, checked⟩, written⟩ notAccepted
      | some writeError =>
          rw [checked] at rejected
          dsimp only at rejected
          rw [written, bind_error (perform_some _ _)] at rejected
          cases rejected
          rfl

/-- Where the body of the `try` throws, `backup` lists files that are in the stash. -/
theorem Interrupted.backed {faults : Faults} {loaded : JsMap Content} {middle : World Content}
    (noBackup : initial.backup = none) (interrupted : Interrupted faults loaded initial middle) :
    ∀ moved, middle.backup = some moved →
      moved.Nodup ∧ ∀ name ∈ moved, ∃ content, middle.content .stash name = some content := by
  intro moved backup
  cases interrupted with
  | early _ => simp [noBackup] at backup
  | moving _ _ _ _ aside =>
      rw [aside.sameRun.backup, noBackup] at backup
      contradiction
  | replaced replaced =>
      obtain rfl : initial.database = moved := Option.some.inj (replaced.backup.symm.trans backup)
      refine ⟨(initial.files .dataDir).nodupKeys.filter _, ?_⟩
      intro name member
      obtain ⟨content, present⟩ := (mem_database.mp member).2
      exact ⟨content, (replaced.stash name member).trans present⟩

/-- A run that rejects later stops in one of three kinds of states and recovers from
there. -/
theorem recovery_of_rejected {request : Request} {faults : Faults} {loaded : JsMap Content}
    {error : IoError} (accepted : Accepted request faults) (fresh : initial.Fresh)
    (rejected : seedFromMasterLdif request faults loaded initial = .error error final) :
    ∃ middle, Interrupted faults loaded { initial with dump := true } middle ∧
      Recovery faults middle final := by
  obtain ⟨⟨dataDir, checked⟩, written⟩ := accepted
  have swept : ∀ world : World Content, ∃ later, rmDump faults world = .ok () later ∧
      later.files = world.files ∧ later.starts = world.starts := by
    intro world
    refine ⟨_, quietly_perform _ _, ?_⟩
    split <;> exact ⟨rfl, rfl⟩
  unfold seedFromMasterLdif at rejected
  rw [checked] at rejected
  dsimp only at rejected
  rw [written, bind_ok (perform_none _)] at rejected
  cases ran : replaceDatabase faults loaded request.baseDn { initial with dump := true } with
  | ok value middle =>
      obtain ⟨later, removed, -⟩ := swept middle
      rw [bind_ok (tryCatch_ok ran), bind_ok removed] at rejected
      cases rejected
  | error tryError middle =>
      have interrupted := interrupted_of_replaceDatabase ran
      have backed := Interrupted.backed
        (by exact fresh.backup : ({ initial with dump := true } : World Content).backup = none)
        interrupted
      obtain ⟨recovered, recovery, done⟩ := recover_spec faults request.baseDn backed
      obtain ⟨later, removed, files, starts⟩ := swept recovered
      have caught : rejectSeeding faults request.baseDn tryError middle = .error _ later :=
        (bind_ok done).trans (bind_ok removed)
      rw [bind_error ((tryCatch_error ran).trans caught)] at rejected
      cases rejected
      refine ⟨middle, interrupted, ?_, ?_, ?_, ?_⟩
      · rw [starts, recovery.starts]
      · intro noBackup place name
        rw [World.content, files]
        exact recovery.content_of_none noBackup place name
      · intro moved backup name
        rw [World.content, files]
        exact recovery.dataDir moved backup name
      · intro moved backup name
        rw [World.content, files]
        exact recovery.stash moved backup name

/-! ## When the old directory is back -/

/-- The data directory is as before where nothing was moved aside, and only there. -/
theorem same_of_moving_iff {keys moved : List String} {name : String} {rest : List String}
    {middle : World Content} (split : initial.database = moved ++ name :: rest)
    (aside : MovedAside keys moved initial middle)
    (files : ∀ place file, final.content place file = middle.content place file) :
    (∀ file, isMdbFile file = true →
      final.content .dataDir file = initial.content .dataDir file) ↔ moved = [] := by
  constructor
  · intro same
    cases moved with
    | nil => rfl
    | cons first moved =>
        have member : first ∈ initial.database := by simp [split]
        obtain ⟨isMdb, content, present⟩ := mem_database.mp member
        have gone := same first isMdb
        rw [files, aside.dataDir, if_pos List.mem_cons_self, present] at gone
        contradiction
  · rintro rfl file _
    rw [files, aside.dataDir, if_neg List.not_mem_nil]

/-- Moving back every file restores the data directory unless slapadd wrote files that
were not there. -/
theorem same_of_replaced_iff {faults : Faults} {loaded : JsMap Content} {middle : World Content}
    (replaced : Replaced faults loaded initial middle) (recovery : Recovery faults middle final)
    (delivers : ∀ name, (faults.back name).Delivers) :
    (∀ file, isMdbFile file = true →
      final.content .dataDir file = initial.content .dataDir file) ↔
      (faults.slapadd = none → ∀ name, isMdbFile name = true → name ∈ loaded →
        name ∈ initial.database) := by
  have value : ∀ file, isMdbFile file = true → final.content .dataDir file =
      if file ∈ initial.database then initial.content .dataDir file
      else if faults.slapadd = none then loaded.lookup file else none := by
    intro file isMdb
    rw [recovery.dataDir _ replaced.backup]
    by_cases member : file ∈ initial.database
    · simp [member, delivers file, replaced.stash file member]
    · simp [member, replaced.dataDir file isMdb]
  constructor
  · intro same loads name isMdb inLoaded
    by_contra absent
    have empty := (value name isMdb).symm.trans (same name isMdb)
    rw [if_neg absent, if_pos loads, content_of_notMem_database isMdb absent] at empty
    exact AList.lookup_eq_none.mp empty inLoaded
  · intro known file isMdb
    rw [value file isMdb]
    by_cases member : file ∈ initial.database
    · rw [if_pos member]
    · rw [if_neg member, content_of_notMem_database isMdb member]
      split
      · rename_i loads
        exact AList.lookup_eq_none.mpr fun inLoaded => member (known loads file isMdb inLoaded)
      · rfl

theorem restored_iff_of_recovery {faults : Faults} {loaded : JsMap Content} {middle : World Content}
    (noBackup : initial.backup = none) (recovers : faults.Recovers)
    (interrupted : Interrupted faults loaded initial middle)
    (recovery : Recovery faults middle final) :
    Restored initial final ↔ faults.LeavesNoTrace loaded initial.database := by
  have starts : final.starts = middle.starts + 1 := by
    rw [recovery.starts, if_pos recovers.2]
  cases interrupted with
  | early notReached =>
      constructor
      · intro _
        exact ⟨fun reaches => absurd reaches notReached,
          fun movesAside => absurd movesAside.1 notReached⟩
      · intro _
        exact ⟨fun name _ => recovery.content_of_none noBackup .dataDir name, by omega⟩
  | @moving _ moved name rest reaches split quiet thrown aside =>
      have files := recovery.content_of_none (aside.sameRun.backup.trans noBackup)
      have same := same_of_moving_iff split aside files
      constructor
      · intro restored
        obtain rfl := same.mp restored.same
        refine ⟨?_, ?_⟩
        · intro _ first others firstEq _
          rw [split, List.nil_append, List.cons.injEq] at firstEq
          rwa [← firstEq.1]
        · intro movesAside
          exact absurd (movesAside.2 name (by simp [split])) thrown
      · intro leavesNoTrace
        refine ⟨same.mpr ?_, by have := aside.sameRun.starts; omega⟩
        cases moved with
        | nil => rfl
        | cons first moved =>
            exact absurd (quiet first List.mem_cons_self)
              (leavesNoTrace.1 reaches first _ split ⟨name, by simp, thrown⟩)
  | replaced replaced =>
      have delivers := fun name => MoveFaults.delivers_of_throws_eq_none (recovers.1 name)
      have same := same_of_replaced_iff replaced recovery delivers
      constructor
      · intro restored
        refine ⟨?_, fun _ => same.mp restored.same⟩
        rintro _ first rest split ⟨name, member, thrown⟩
        have inDatabase : name ∈ initial.database := by simp [split, member]
        exact absurd (replaced.movesAside.2 name inDatabase) thrown
      · intro leavesNoTrace
        refine ⟨same.mpr (leavesNoTrace.2 replaced.movesAside), ?_⟩
        have := replaced.starts
        omega

theorem nothingLost_without_backup_iff {faults : Faults} {loaded : JsMap Content} {middle : World Content}
    (noBackup : initial.backup = none) (interrupted : Interrupted faults loaded initial middle)
    (recovery : Recovery faults middle final) :
    NothingLost initial final ↔ faults.KeepsFiles loaded initial := by
  cases interrupted with
  | early notReached =>
      constructor
      · intro _ movesAside
        exact absurd movesAside.1 notReached
      · intro _ name content _ present
        exact Or.inl ((recovery.content_of_none noBackup .dataDir name).trans present)
  | @moving _ moved name rest reaches split quiet thrown aside =>
      have files := recovery.content_of_none (aside.sameRun.backup.trans noBackup)
      constructor
      · intro _ movesAside
        exact absurd (movesAside.2 name (by simp [split])) thrown
      · intro _ file content _ present
        by_cases member : file ∈ moved
        · exact Or.inr ((files _ _).trans ((aside.stash file member).trans present))
        · left
          rw [files, aside.dataDir, if_neg member, present]
  | replaced replaced =>
      constructor
      · intro kept _ removed name member
        obtain ⟨isMdb, content, present⟩ := mem_database.mp member
        have stash : final.content .stash name = none := by
          rw [recovery.stash _ replaced.backup, if_pos removed]
        have dataDir := (kept name content isMdb present).resolve_right (by simp [stash])
        rw [recovery.dataDir _ replaced.backup, if_pos member] at dataDir
        by_cases delivers : (faults.back name).Delivers
        · exact Or.inl delivers
        · right
          rw [if_neg delivers, replaced.dataDir name isMdb] at dataDir
          rw [present]
          grind
      · intro keeps name content isMdb present
        have member : name ∈ initial.database := mem_database.mpr ⟨isMdb, content, present⟩
        rw [recovery.dataDir _ replaced.backup, recovery.stash _ replaced.backup,
          if_pos member, replaced.stash name member, replaced.dataDir name isMdb, present]
        by_cases delivers : (faults.back name).Delivers
        · simp [delivers]
        · have thrown : (faults.back name).throws ≠ none := fun quiet =>
            delivers (MoveFaults.delivers_of_throws_eq_none quiet)
          by_cases removed : faults.rmStash = none
          · obtain ⟨notCleared, loads, equal⟩ :=
              (keeps replaced.movesAside removed name member).resolve_left delivers
            simp [delivers, notCleared, loads, equal, present]
          · simp [delivers, thrown, removed]

/-- A run that rejects has restored the directory exactly when it left no trace, given
that its recovery succeeds; and whatever failed, it has lost no old file exactly when it
kept the files it could not move back. -/
theorem seedFromMasterLdif_keeps_iff {request : Request} {faults : Faults}
    {loaded : JsMap Content} {error : IoError} (fresh : initial.Fresh)
    (rejected : seedFromMasterLdif request faults loaded initial = .error error final) :
    (Accepted request faults → faults.Recovers →
      (Restored initial final ↔ faults.LeavesNoTrace loaded initial.database)) ∧
    (NothingLost initial final ↔
      (Accepted request faults → faults.KeepsFiles loaded initial)) := by
  by_cases accepted : Accepted request faults
  · obtain ⟨middle, interrupted, recovery⟩ := recovery_of_rejected accepted fresh rejected
    have noBackup : ({ initial with dump := true } : World Content).backup = none := fresh.backup
    constructor
    · intro _ recovers
      have restored := restored_iff_of_recovery noBackup recovers interrupted recovery
      exact ⟨fun back => restored.mp ⟨back.same, back.started⟩,
        fun leaves => ⟨(restored.mpr leaves).same, (restored.mpr leaves).started⟩⟩
    · have kept := nothingLost_without_backup_iff noBackup interrupted recovery
      exact ⟨fun nothingLost _ => kept.mp nothingLost, fun keeps => kept.mpr (keeps accepted)⟩
  · obtain rfl := eq_of_not_accepted accepted rejected
    refine ⟨fun wasAccepted => absurd wasAccepted accepted, ?_⟩
    exact ⟨fun _ wasAccepted => absurd wasAccepted accepted,
      fun _ name content _ present => Or.inl present⟩

/-! ## One step that fails -/

/-- The steps after the dump file is written, up to the answer of the new slapd. -/
inductive Step where
  | stop
  | makeStash
  | list
  | move (name : String)
  | slapadd
  | start
  | wait
  deriving DecidableEq, Repr

/-- Only this step fails. -/
def Faults.only (step : Step) (error : IoError) : Faults :=
  match step with
  | .stop => { terminate := some error }
  | .makeStash => { mkdir := some error }
  | .list => { readdir := some error }
  | .move name => { aside := fun other => if other = name then { rename := some error } else {} }
  | .slapadd => { slapadd := some error }
  | .start => { spawn := some error }
  | .wait => { polls := [some error] }

private def dumpOfBase : Request where
  ldif := "dn: dc=x\nentryUUID: 1\n"
  baseDn := "dc=x"
  running := true
  dataDir := .ok "/var/lib/ldap"

private def oldDatabase : World String where
  files
    | .dataDir => ((∅ : JsMap String).insert "lock.mdb" "LOCK").insert "data.mdb" "DATA"
    | .stash => ∅

private theorem fresh_oldDatabase : oldDatabase.Fresh :=
  ⟨fun _ => rfl, rfl⟩

private theorem accepted_dumpOfBase (faults : Faults) (written : faults.writeFile = none) :
    Accepted dumpOfBase faults :=
  ⟨⟨"/var/lib/ldap", by decide +kernel⟩, written⟩

/-- A failing slapadd leaves the old database where it was. -/
theorem restored_of_slapadd_fails : ∃ error final,
    seedFromMasterLdif dumpOfBase (Faults.only .slapadd ⟨"", "no space"⟩) ∅ oldDatabase =
      .error error final ∧ Restored oldDatabase final ∧ NothingLost oldDatabase final := by
  obtain ⟨error, final, ran⟩ : ∃ error final, seedFromMasterLdif dumpOfBase
      (Faults.only .slapadd ⟨"", "no space"⟩) ∅ oldDatabase = .error error final := ⟨_, _, rfl⟩
  have keeps := seedFromMasterLdif_keeps_iff fresh_oldDatabase ran
  refine ⟨error, final, ran, ?_, ?_⟩
  · refine (keeps.1 (accepted_dumpOfBase _ rfl) ⟨fun _ => rfl, rfl⟩).mpr ⟨?_, ?_⟩
    · rintro _ first rest - ⟨name, -, thrown⟩
      exact absurd rfl thrown
    · intro _ loads
      simp [Faults.only] at loads
  · exact keeps.2.mpr fun _ _ _ name _ => Or.inl True.intro

/-- A move that fails after another one leaves the database in two places, and a restore
that fails to move a file deletes it with the stash. -/
theorem not_seedFromMasterLdif_keeps :
    (¬ ∀ (request : Request) (step : Step) (failure : IoError) (loaded : JsMap String)
        (initial : World String) (error : IoError) (final : World String), initial.Fresh →
      Accepted request (Faults.only step failure) →
      seedFromMasterLdif request (Faults.only step failure) loaded initial = .error error final →
      Restored initial final) ∧
    ¬ ∀ (request : Request) (faults : Faults) (loaded : JsMap String) (initial : World String)
        (error : IoError) (final : World String), initial.Fresh →
      seedFromMasterLdif request faults loaded initial = .error error final →
      NothingLost initial final := by
  constructor
  · intro restores
    have restored := restores dumpOfBase (.move "lock.mdb") ⟨"EACCES", "permission denied"⟩ ∅
      oldDatabase _ _ fresh_oldDatabase (accepted_dumpOfBase _ rfl) rfl
    have same := restored.same "data.mdb" (by decide)
    revert same
    decide +kernel
  · intro keeps
    have nothingLost := keeps dumpOfBase
      { slapadd := some ⟨"", "no space"⟩, back := fun _ => { rename := some ⟨"EIO", "i/o error"⟩ } }
      ∅ oldDatabase _ _ fresh_oldDatabase rfl
    have kept := nothingLost "data.mdb" "DATA" (by decide) (by decide +kernel)
    revert kept
    decide +kernel

end ThetaDirectory.Seeding
