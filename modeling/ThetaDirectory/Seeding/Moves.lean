import ThetaDirectory.Library.Effect
import ThetaDirectory.Seeding.Seed

/-!
# Moving the database aside and back

What the two loops of moves leave in the data directory and in the stash, whichever
of their calls throw.
-/

namespace ThetaDirectory.Seeding

open Library Library.Effect

variable {Content : Type} {world final : World Content}

namespace World

/-- The content of a file. -/
def content (world : World Content) (place : Place) (name : String) : Option Content :=
  (world.files place).lookup name

@[simp] theorem content_remove (place other : Place) (name file : String) :
    (world.remove place name).content other file =
      if other = place ∧ file = name then none else world.content other file := by
  unfold content remove
  by_cases here : other = place
  · subst here
    by_cases same : file = name
    · subst same
      simp
    · simp [same, AList.lookup_erase_ne same]
  · simp [here]

@[simp] theorem content_write (place other : Place) (name file : String) (content : Content) :
    (world.write place name content).content other file =
      if other = place ∧ file = name then some content else world.content other file := by
  unfold World.content write
  by_cases here : other = place
  · subst here
    by_cases same : file = name
    · subst same
      simp
    · simp [same, AList.lookup_insert_ne same]
  · simp [here]

@[simp] theorem content_removeAll (place other : Place) (file : String) :
    (world.removeAll place).content other file =
      if other = place then none else world.content other file := by
  unfold content removeAll
  by_cases here : other = place
  · subst here
    simp
  · simp [here]

/-- Nothing but files differs. -/
structure SameRun (world final : World Content) : Prop where
  starts : final.starts = world.starts
  backup : final.backup = world.backup

theorem SameRun.refl (world : World Content) : SameRun world world := ⟨rfl, rfl⟩

theorem SameRun.trans {middle : World Content} (first : SameRun world middle)
    (second : SameRun middle final) : SameRun world final :=
  ⟨second.starts.trans first.starts, second.backup.trans first.backup⟩

theorem sameRun_remove (place : Place) (name : String) : SameRun world (world.remove place name) :=
  ⟨rfl, rfl⟩

theorem sameRun_write (place : Place) (name : String) (content : Content) :
    SameRun world (world.write place name content) :=
  ⟨rfl, rfl⟩

end World

open World

theorem perform_none (effect : World Content → World Content) :
    perform none effect world = .ok () (effect world) := rfl

theorem perform_some (error : IoError) (effect : World Content → World Content) :
    perform (some error) effect world = .error error world := rfl

/-- A quiet call always returns; a failed one has no effect. -/
theorem quietly_perform (fault : Option IoError) (effect : World Content → World Content) :
    quietly (perform fault effect) world =
      .ok () (if fault.isNone then effect world else world) := by
  unfold quietly
  cases fault with
  | none => exact tryCatch_ok (perform_none effect)
  | some error => exact tryCatch_error (perform_some error effect)

/-! ## One file -/

namespace MoveFaults

/-- What the move throws, if it does. -/
def throws (faults : MoveFaults) : Option IoError :=
  match faults.rename with
  | none => none
  | some error => if error.code ≠ "EXDEV" then some error else faults.copyFile.or faults.rm

/-- The file arrives at its target. -/
def Delivers (faults : MoveFaults) : Prop :=
  match faults.rename with
  | none => True
  | some error => error.code = "EXDEV" ∧ faults.copyFile = none

instance (faults : MoveFaults) : Decidable faults.Delivers := by
  unfold Delivers
  split <;> infer_instance

theorem delivers_of_throws_eq_none {faults : MoveFaults} (quiet : faults.throws = none) :
    faults.Delivers := by
  unfold throws at quiet
  unfold Delivers
  split at quiet
  · simp [*]
  · split at quiet
    · contradiction
    · rename_i crosses
      simp_all

end MoveFaults

/-- What one move leaves behind. -/
structure Moved (faults : MoveFaults) (source target : Place) (name : String)
    (world final : World Content) : Prop where
  sameRun : SameRun world final
  source_self : final.content source name =
    if faults.throws = none then none else world.content source name
  target_self : final.content target name =
    if faults.Delivers then world.content source name else world.content target name
  other : ∀ place file, file ≠ name → final.content place file = world.content place file

/-- A move of a file that is there returns or throws as its calls do. -/
theorem moveFile_spec (faults : MoveFaults) {source target : Place} (apart : source ≠ target)
    {name : String} {content : Content} (present : world.content source name = some content) :
    ∃ final, Moved faults source target name world final ∧
      moveFile faults source target name world =
        match faults.throws with
        | none => .ok () final
        | some error => .error error final := by
  have lookup : (world.files source).lookup name = some content := present
  have renamed : rename faults.rename source target name world =
      perform faults.rename (fun world => (world.write target name content).remove source name)
        world := by
    simp only [rename]
    rw [get_bind]
    simp [lookup]
  unfold moveFile
  cases renameFault : faults.rename with
  | none =>
      rw [renameFault] at renamed
      refine ⟨(world.write target name content).remove source name, ⟨?_, ?_, ?_, ?_⟩, ?_⟩
      · exact (sameRun_write _ _ _).trans (sameRun_remove _ _)
      · simp [MoveFaults.throws, renameFault]
      · simp [MoveFaults.Delivers, renameFault, apart.symm, present]
      · intro place file different
        simp [different]
      · simp only [MoveFaults.throws, renameFault]
        exact tryCatch_ok renamed
  | some error =>
      rw [renameFault] at renamed
      rw [tryCatch_error (renamed.trans (perform_some error _))]
      by_cases crosses : error.code = "EXDEV"
      · have copied : copyFile faults.copyFile source target name world =
            perform faults.copyFile (World.write target name content) world := by
          simp only [copyFile]
          rw [get_bind]
          simp [lookup]
        simp only [ne_eq, crosses, not_true_eq_false, if_false]
        cases copyFault : faults.copyFile with
        | some copyError =>
            rw [copyFault] at copied
            refine ⟨world, ⟨SameRun.refl _, ?_, ?_, fun _ _ _ => rfl⟩, ?_⟩
            · simp [MoveFaults.throws, renameFault, crosses, copyFault]
            · simp [MoveFaults.Delivers, renameFault, copyFault]
            · simp only [MoveFaults.throws, renameFault, crosses, copyFault, ne_eq,
                not_true_eq_false, if_false, Option.some_or]
              exact bind_error (copied.trans (perform_some copyError _))
        | none =>
            rw [copyFault] at copied
            rw [bind_ok (copied.trans (perform_none _))]
            cases rmFault : faults.rm with
            | none =>
                refine ⟨(world.write target name content).remove source name, ⟨?_, ?_, ?_, ?_⟩, ?_⟩
                · exact (sameRun_write _ _ _).trans (sameRun_remove _ _)
                · simp [MoveFaults.throws, renameFault, crosses, copyFault, rmFault]
                · simp [MoveFaults.Delivers, renameFault, crosses, copyFault, apart.symm, present]
                · intro place file different
                  simp [different]
                · simp only [MoveFaults.throws, renameFault, crosses, copyFault, rmFault, ne_eq,
                    not_true_eq_false, if_false, Option.or_none]
                  rfl
            | some rmError =>
                refine ⟨world.write target name content, ⟨sameRun_write _ _ _, ?_, ?_, ?_⟩, ?_⟩
                · simp [MoveFaults.throws, renameFault, crosses, copyFault, rmFault, apart]
                · simp [MoveFaults.Delivers, renameFault, crosses, copyFault, present]
                · intro place file different
                  simp [different]
                · simp only [MoveFaults.throws, renameFault, crosses, copyFault, rmFault, ne_eq,
                    not_true_eq_false, if_false, Option.none_or]
                  rfl
      · simp only [ne_eq, crosses, not_false_eq_true, if_true]
        refine ⟨world, ⟨SameRun.refl _, ?_, ?_, fun _ _ _ => rfl⟩, ?_⟩
        · simp [MoveFaults.throws, renameFault, crosses]
        · simp [MoveFaults.Delivers, renameFault, crosses]
        · simp only [MoveFaults.throws, renameFault, ne_eq, crosses, not_false_eq_true, if_true]
          rfl

/-! ## The loop that moves aside -/

/-- Of the files the loop went over, these were taken out of the data directory and
are in the stash. -/
structure MovedAside (names moved : List String) (world final : World Content) : Prop where
  sameRun : SameRun world final
  dataDir : ∀ name, final.content .dataDir name =
    if name ∈ moved then none else world.content .dataDir name
  stash : ∀ name ∈ moved, final.content .stash name = world.content .dataDir name
  other : ∀ name, name ∉ names → final.content .stash name = world.content .stash name

theorem MovedAside.refl (world : World Content) : MovedAside [] [] world world :=
  ⟨SameRun.refl _, by simp, by simp, fun _ _ => rfl⟩

theorem MovedAside.mono {names more moved : List String} (aside : MovedAside names moved world final)
    (subset : names ⊆ more) : MovedAside more moved world final :=
  { aside with other := fun name absent => aside.other name fun member => absent (subset member) }

/-- A failed move takes nothing out. -/
theorem Moved.movedAside_of_throws {faults : MoveFaults} {name : String} {error : IoError}
    (moved : Moved faults .dataDir .stash name world final) (thrown : faults.throws = some error) :
    MovedAside [name] [] world final := by
  refine ⟨moved.sameRun, ?_, by simp, ?_⟩
  · intro file
    simp only [List.not_mem_nil, if_false]
    by_cases same : file = name
    · subst same
      simp [moved.source_self, thrown]
    · exact moved.other .dataDir file same
  · intro file absent
    exact moved.other .stash file (by simpa using absent)

theorem Moved.movedAside_cons {faults : MoveFaults} {name : String} {names moved : List String}
    {middle : World Content} (first : Moved faults .dataDir .stash name world middle)
    (quiet : faults.throws = none) (later : MovedAside names moved middle final)
    (notLater : name ∉ names) (subset : moved ⊆ names) :
    MovedAside (name :: names) (name :: moved) world final := by
  have notMoved : name ∉ moved := fun member => notLater (subset member)
  refine ⟨first.sameRun.trans later.sameRun, ?_, ?_, ?_⟩
  · intro file
    rw [later.dataDir]
    by_cases same : file = name
    · subst same
      simp [notMoved, first.source_self, quiet]
    · simp [same, first.other .dataDir file same]
  · intro file member
    by_cases same : file = name
    · subst same
      rw [later.other file notLater, first.target_self,
        if_pos (MoveFaults.delivers_of_throws_eq_none quiet)]
    · have inMoved : file ∈ moved := by simpa [same] using member
      rw [later.stash file inMoved, first.other .dataDir file same]
  · intro file absent
    simp only [List.mem_cons, not_or] at absent
    rw [later.other file absent.2, first.other .stash file absent.1]

/-- How the loop ends: all database files are moved, or one throws after those
before it were moved. -/
theorem moveEachAside_spec (faults : Faults) {names : List String} (distinct : names.Nodup)
    (present : ∀ name ∈ names, ∃ content, world.content .dataDir name = some content) :
    (∃ final, MovedAside names (names.filter isMdbFile) world final ∧
      (∀ name ∈ names.filter isMdbFile, (faults.aside name).throws = none) ∧
      moveEachAside faults names world = .ok (names.filter isMdbFile) final) ∨
    (∃ moved name rest error final, names.filter isMdbFile = moved ++ name :: rest ∧
      (∀ other ∈ moved, (faults.aside other).throws = none) ∧
      (faults.aside name).throws = some error ∧ MovedAside names moved world final ∧
      moveEachAside faults names world = .error error final) := by
  induction names generalizing world with
  | nil => exact Or.inl ⟨world, MovedAside.refl world, by simp, rfl⟩
  | cons name names ih =>
      obtain ⟨notLater, distinct⟩ := List.nodup_cons.mp distinct
      by_cases isMdb : isMdbFile name = true
      · obtain ⟨content, here⟩ := present name List.mem_cons_self
        obtain ⟨middle, moved, ran⟩ :=
          moveFile_spec (faults.aside name) (by decide : Place.dataDir ≠ .stash) here
        simp only [moveEachAside, isMdb, if_true, List.filter_cons]
        cases outcome : (faults.aside name).throws with
        | some error =>
            rw [outcome] at ran
            refine Or.inr ⟨[], name, _, error, middle, rfl, by simp, outcome, ?_,
              bind_error ran⟩
            exact (moved.movedAside_of_throws outcome).mono (by simp)
        | none =>
            rw [outcome] at ran
            have stillPresent : ∀ other ∈ names, ∃ content,
                middle.content .dataDir other = some content := by
              intro other member
              have different : other ≠ name := fun same => notLater (same ▸ member)
              rw [moved.other .dataDir other different]
              exact present other (List.mem_cons_of_mem _ member)
            rw [bind_ok ran]
            rcases ih distinct stillPresent with
              ⟨final, aside, quiet, done⟩ |
                ⟨before, failing, rest, error, final, split, quiet, thrown, aside, failed⟩
            · refine Or.inl ⟨final, moved.movedAside_cons outcome aside notLater
                (List.filter_subset_self _), ?_, ?_⟩
              · rintro other (_ | ⟨_, member⟩)
                · exact outcome
                · exact quiet other member
              · rw [bind_ok done]
                rfl
            · have subset : before ⊆ names := fun other member =>
                List.mem_of_mem_filter (split ▸ List.mem_append_left _ member)
              refine Or.inr ⟨name :: before, failing, rest, error, final, by simp [split], ?_,
                thrown, moved.movedAside_cons outcome aside notLater subset, bind_error failed⟩
              rintro other (_ | ⟨_, member⟩)
              · exact outcome
              · exact quiet other member
      · have skipped : names.filter isMdbFile = (name :: names).filter isMdbFile := by
          rw [List.filter_cons_of_neg isMdb]
        simp only [moveEachAside, isMdb]
        have later := ih distinct fun other member => present other (List.mem_cons_of_mem _ member)
        rw [skipped] at later
        rcases later with ⟨final, aside, rest⟩ |
          ⟨before, failing, rest, error, final, split, quiet, thrown, aside, failed⟩
        · exact Or.inl ⟨final, aside.mono (by simp), rest⟩
        · exact Or.inr ⟨before, failing, rest, error, final, split, quiet, thrown,
            aside.mono (by simp), failed⟩

/-! ## The loop that moves back -/

/-- What restoring these files leaves behind. -/
structure PutBack (faults : Faults) (names : List String) (world final : World Content) :
    Prop where
  sameRun : SameRun world final
  dataDir : ∀ name, final.content .dataDir name =
    if name ∈ names then
      if (faults.back name).Delivers then world.content .stash name
      else if faults.clear name = none then none
      else world.content .dataDir name
    else world.content .dataDir name
  stash : ∀ name, final.content .stash name =
    if name ∈ names ∧ (faults.back name).throws = none then none
    else world.content .stash name

/-- Restoring never throws. -/
theorem restoreDatabase_spec (faults : Faults) {names : List String} (distinct : names.Nodup)
    (present : ∀ name ∈ names, ∃ content, world.content .stash name = some content) :
    ∃ final, PutBack faults names world final ∧
      restoreDatabase faults names world = .ok () final := by
  induction names generalizing world with
  | nil => exact ⟨world, ⟨SameRun.refl _, by simp, by simp⟩, rfl⟩
  | cons name names ih =>
      obtain ⟨notLater, distinct⟩ := List.nodup_cons.mp distinct
      obtain ⟨content, here⟩ := present name List.mem_cons_self
      let cleared : World Content :=
        if (faults.clear name).isNone then world.remove .dataDir name else world
      have sameCleared : SameRun world cleared := by
        unfold cleared
        split
        · exact sameRun_remove _ _
        · exact SameRun.refl _
      have clearedStash : ∀ file, cleared.content .stash file = world.content .stash file := by
        intro file
        unfold cleared
        split <;> simp
      have clearedDataDir : ∀ file, cleared.content .dataDir file =
          if file = name ∧ faults.clear name = none then none
          else world.content .dataDir file := by
        intro file
        unfold cleared
        cases faults.clear name <;> simp
      obtain ⟨middle, moved, ran⟩ := moveFile_spec (faults.back name)
        (by decide : Place.stash ≠ .dataDir) ((clearedStash name).trans here)
      have quiet : quietly (moveFile (faults.back name) .stash .dataDir name) cleared =
          .ok () middle := by
        unfold quietly
        cases outcome : (faults.back name).throws with
        | none =>
            rw [outcome] at ran
            exact tryCatch_ok ran
        | some error =>
            rw [outcome] at ran
            exact tryCatch_error ran
      have stillPresent : ∀ other ∈ names, ∃ content,
          middle.content .stash other = some content := by
        intro other member
        have different : other ≠ name := fun same => notLater (same ▸ member)
        rw [moved.other .stash other different, clearedStash]
        exact present other (List.mem_cons_of_mem _ member)
      obtain ⟨final, putBack, done⟩ := ih distinct stillPresent
      refine ⟨final, ⟨sameCleared.trans (moved.sameRun.trans putBack.sameRun), ?_, ?_⟩, ?_⟩
      · intro file
        rw [putBack.dataDir]
        by_cases same : file = name
        · subst same
          simp [notLater, moved.target_self, clearedStash, clearedDataDir]
        · simp [same, moved.other _ file same, clearedStash, clearedDataDir]
      · intro file
        rw [putBack.stash]
        by_cases same : file = name
        · subst same
          simp [notLater, moved.source_self, clearedStash]
        · simp [same, moved.other _ file same, clearedStash]
      · rw [restoreDatabase, bind_ok (quietly_perform _ _), bind_ok quiet, done]

end ThetaDirectory.Seeding
