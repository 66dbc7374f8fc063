import ThetaDirectory.Migration.Alongside

/-!
# Imports that stop

What a run of an import has left whatever becomes of its operations, where the accounts it added are
those of the first rows.
-/

namespace ThetaDirectory.Migration

open Accounts Library Library.Effect

variable (conf : LdapConf)

/-- The client and the server tell the DNs of plain names apart: a group stands where a rollback
deletes only if it has the name, but for case. -/
def PlacesApart : Prop :=
  ∀ name other, isUsername name = true → isUsername other = true →
    groupDn conf name = rollbackDn conf other → lc name = lc other

/-- Rows with plain names, no two of which are the same but for case. -/
structure NamedApart (rows : List PlannedUser) : Prop where
  named : ∀ row ∈ rows, isUsername row.username = true
  apart : rows.Pairwise fun row other => lc row.username ≠ lc other.username

/-- No group stands where the rollback of one of the rows deletes. -/
def Clear (rows : List PlannedUser) (directory : LdapDirectory) : Prop :=
  ∀ row ∈ rows, ∀ group ∈ directory.groups, group.dn ≠ rollbackDn conf row.username

/-- The directory has an account of the row. -/
def Stored (row : PlannedUser) (directory : LdapDirectory) : Prop :=
  ∃ person ∈ directory.people, person.uid = row.username

/-- The directory has a group at the place of the row's own. -/
def StandsOwn (row : PlannedUser) (directory : LdapDirectory) : Prop :=
  ∃ group ∈ directory.groups, group.dn = groupDn conf row.username

/-- Accounts and places of groups that are new are those of the rows. -/
structure Grown (rows : List PlannedUser) (before after : LdapDirectory) : Prop where
  kept : ∀ person ∈ before.people, person ∈ after.people
  accounts : ∀ person ∈ after.people,
    person ∈ before.people ∨ ∃ row ∈ rows, person.uid = row.username
  places : ∀ group ∈ after.groups, (∃ other ∈ before.groups, other.dn = group.dn) ∨
    ∃ row ∈ rows, group.dn = groupDn conf row.username

variable {conf} {row : PlannedUser} {rows plan : List PlannedUser} {before middle after : LdapDirectory}
  {stores later : Stores} {imported : Imported} {options : ApplyOptions}
  {related : Stores → Stores → Prop}

theorem NamedApart.tail (names : NamedApart (row :: rows)) : NamedApart rows :=
  ⟨fun other listed => names.named other (List.mem_cons_of_mem _ listed),
    (List.pairwise_cons.mp names.apart).2⟩

theorem NamedApart.head_ne (names : NamedApart (row :: rows)) {other : PlannedUser}
    (listed : other ∈ rows) : lc row.username ≠ lc other.username :=
  (List.pairwise_cons.mp names.apart).1 other listed

/-! ## What rows add -/

theorem Grown.refl (rows : List PlannedUser) (directory : LdapDirectory) :
    Grown conf rows directory directory where
  kept _ listed := listed
  accounts _ listed := Or.inl listed
  places group listed := Or.inl ⟨group, listed, rfl⟩

theorem Grown.cons (first : Grown conf [row] before middle) (rest : Grown conf rows middle after) :
    Grown conf (row :: rows) before after where
  kept person listed := rest.kept person (first.kept person listed)
  accounts person listed := by
    rcases rest.accounts person listed with earlier | ⟨other, member, named⟩
    · rcases first.accounts person earlier with known | ⟨other, member, named⟩
      · exact Or.inl known
      · exact Or.inr ⟨row, List.mem_cons_self, List.mem_singleton.mp member ▸ named⟩
    · exact Or.inr ⟨other, List.mem_cons_of_mem _ member, named⟩
  places group listed := by
    rcases rest.places group listed with ⟨earlier, member, sameDn⟩ | ⟨other, member, named⟩
    · rcases first.places earlier member with ⟨known, isKnown, same⟩ | ⟨other, member, named⟩
      · exact Or.inl ⟨known, isKnown, same.trans sameDn⟩
      · refine Or.inr ⟨row, List.mem_cons_self, sameDn.symm.trans ?_⟩
        exact List.mem_singleton.mp member ▸ named
    · exact Or.inr ⟨other, List.mem_cons_of_mem _ member, named⟩

theorem Grouped.people (grouped : Grouped conf row before after) : after.people = before.people := by
  rcases grouped with rfl | ⟨number, added⟩
  · rfl
  · rw [added.left]
    rfl

theorem grown_of_grouped (grouped : Grouped conf row before after) : Grown conf [row] before after := by
  rcases grouped with rfl | ⟨number, added⟩
  · exact Grown.refl _ _
  · rw [added.left]
    constructor
    · exact fun person listed => listed
    · exact fun person listed => Or.inl listed
    · intro group listed
      rcases List.mem_append.mp listed with known | own
      · exact Or.inl ⟨group, known, rfl⟩
      · cases List.mem_singleton.mp own
        exact Or.inr ⟨row, List.mem_singleton_self row, rfl⟩

theorem grown_of_account (account : AccountLeft conf row before after) :
    Grown conf [row] before after := by
  obtain ⟨middle, person, grouped, named, rfl⟩ := account
  have grown := grown_of_grouped grouped
  constructor
  · exact fun other listed => List.mem_append_left _ (grown.kept other listed)
  · intro other listed
    rcases List.mem_append.mp listed with known | own
    · exact grown.accounts other known
    · cases List.mem_singleton.mp own
      exact Or.inr ⟨row, List.mem_singleton_self row, named⟩
  · exact grown.places

theorem stored_of_account (account : AccountLeft conf row before after) : Stored row after := by
  obtain ⟨middle, person, -, named, rfl⟩ := account
  exact ⟨person, List.mem_append_right _ (List.mem_singleton_self person), named⟩

theorem Stored.framed (stored : Stored row stores.directory) (framed : Framed stores later) :
    Stored row later.directory := by
  unfold Stored
  rw [framed.people]
  exact stored

theorem Grown.framed (grown : Grown conf rows before stores.directory) (framed : Framed stores later) :
    Grown conf rows before later.directory := by
  have mem_place {group : GroupEntry} (listed : group ∈ later.directory.groups) :
      ∃ other ∈ stores.directory.groups, other.dn = group.dn := by
    have place := List.mem_map_of_mem (f := (·.dn)) listed
    rw [framed.places] at place
    exact List.mem_map.mp place
  constructor
  · rw [framed.people]
    exact grown.kept
  · rw [framed.people]
    exact grown.accounts
  · intro group listed
    obtain ⟨other, member, sameDn⟩ := mem_place listed
    rw [← sameDn]
    exact grown.places other member

section Row

variable (framed : ∀ before after, related before after → Framed before after)
include framed

theorem stored_of_behind (behind : Behind conf row related stores later) :
    Stored row later.directory := by
  obtain ⟨middle, added, kept⟩ := behind
  exact (stored_of_account added.account).framed (framed _ _ kept)

theorem grown_of_left (left : Left conf row related stores later) :
    Grown conf [row] stores.directory later.directory := by
  rcases left with ⟨grouped, -⟩ | ⟨middle, added, kept⟩
  · exact grown_of_grouped grouped
  · exact (grown_of_account added.account).framed (framed _ _ kept)

end Row

/-- Rows that come later stay clear of what the first rows add. -/
theorem Clear.behind {first : List PlannedUser} (placesApart : PlacesApart conf)
    (names : NamedApart (first ++ rows)) (clear : Clear conf (first ++ rows) before)
    (grown : Grown conf first before after) : Clear conf rows after := by
  intro other member group listed sameDn
  have later := List.mem_append_right first member
  rcases grown.places group listed with ⟨known, isKnown, same⟩ | ⟨own, isRow, named⟩
  · exact clear other later known isKnown (same.trans sameDn)
  · have sameName := placesApart own.username other.username
      (names.named own (List.mem_append_left rows isRow)) (names.named other later)
      (named.symm.trans sameDn)
    exact (List.pairwise_append.mp names.apart).2.2 own isRow other member sameName

theorem Clear.tail (placesApart : PlacesApart conf) (names : NamedApart (row :: rows))
    (clear : Clear conf (row :: rows) before) (grown : Grown conf [row] before after) :
    Clear conf rows after :=
  @Clear.behind conf rows before after [row] placesApart names clear grown

/-! ## Rows in their order -/

theorem importUsers_skip (skipped : row.importable = false) :
    ∃ report, ∀ imported, importUsers conf options (row :: plan) imported =
      importUsers conf options plan imported >>= fun rest => pure (report :: rest.1, rest.2) := by
  refine ⟨⟨row.username, .skipped, (truthy row.blocking.head?).getD "rejected by operator"⟩, ?_⟩
  intro imported
  funext stores
  exact bind_ok (importUser_skipped skipped)

theorem importables_skip (skipped : row.importable = false) :
    importables (row :: plan) = importables plan :=
  List.filter_cons_of_neg (ne_true_of_eq_false skipped)

theorem importables_cons (importable : row.importable = true) :
    importables (row :: plan) = row :: importables plan :=
  List.filter_cons_of_pos importable

/-- However an import of rows behaves that are skipped at the head, it behaves so without the head. -/
theorem ends_skip {returns : List UserReport × Imported → Stores → Prop} {throws : Failure → Stores → Prop}
    (skipped : row.importable = false)
    (stays : ∀ report rest after, returns rest after → returns (report :: rest.1, rest.2) after)
    (ends : Ends returns throws (importUsers conf options plan imported stores)) :
    Ends returns throws (importUsers conf options (row :: plan) imported stores) := by
  obtain ⟨report, same⟩ := @importUsers_skip conf row plan options skipped
  rw [same]
  apply ends.bind
  exact fun rest after returned => stays report rest after returned

/-- What a row has left, whatever it keeps behind `User.add`. -/
theorem importUser_left (options : ApplyOptions) (names : NamedApart (row :: rows))
    (clear : Clear conf (row :: rows) stores.directory) (importable : row.importable = true) :
    Ends
      (fun result after => Left conf row Framed stores after ∧
        (result.2.isSome → Behind conf row Framed stores after))
      (fun _ after => Left conf row Framed stores after) (importUser conf options row stores) := by
  have named := ne_empty_of_isUsername (names.named row List.mem_cons_self)
  exact importUser_ended named (clear row List.mem_cons_self) importable fun created =>
    framed_settleUser options row created

theorem importUsers_grown (placesApart : PlacesApart conf) (names : NamedApart (importables plan))
    (clear : Clear conf (importables plan) stores.directory) :
    Ends (fun _ after => Grown conf (importables plan) stores.directory after.directory)
      (fun _ after => Grown conf (importables plan) stores.directory after.directory)
      (importUsers conf options plan imported stores) := by
  induction plan generalizing stores imported with
  | nil => exact Grown.refl _ _
  | cons row plan ih =>
      cases importable : row.importable with
      | false =>
          rw [importables_skip importable] at names clear ⊢
          exact ends_skip importable (fun _ _ _ grown => grown) (ih names clear)
      | true =>
          rw [importables_cons importable] at names clear ⊢
          have all {middle after : Stores} (left : Left conf row Framed stores middle)
              (rest : Grown conf (importables plan) middle.directory after.directory) :=
            (grown_of_left (fun _ _ framed => framed) left).cons rest
          have first := (importUser_left options names clear importable).mono (fun _ _ left => left)
            fun _ after left => all left (Grown.refl _ after.directory)
          apply Ends.bind first
          intro result middle reached
          have later := clear.tail placesApart names (grown_of_left (fun _ _ framed => framed) reached.1)
          have rest := (@ih middle (imported.remember row.username result.2) names.tail later).mono
            (fun _ _ grown => all reached.1 grown) fun _ _ grown => all reached.1 grown
          exact rest.bind fun _ _ grown => grown

/-! ## Rows that add no account -/

/-- The directory has neither account nor group of any of the rows. -/
def Untouched (conf : LdapConf) (rows : List PlannedUser) (directory : LdapDirectory) : Prop :=
  ∀ row ∈ rows, ¬ Stored row directory ∧ ¬ StandsOwn conf row directory

theorem standsOwn_of_groupLeft {number : Option Int} (left : GroupLeft conf row number before after) :
    StandsOwn conf row after := by
  rw [left.left]
  exact ⟨ownGroup conf row number, List.mem_append_right _ (List.mem_singleton_self _), rfl⟩

/-- A row and rows behind it that leave everything as it is. -/
theorem importUsers_cons_unstored (placesApart : PlacesApart conf)
    (names : NamedApart (row :: importables plan))
    (clear : Clear conf (row :: importables plan) stores.directory) (importable : row.importable = true)
    (rest : ∀ (middle : Stores) (known : Imported), Clear conf (importables plan) middle.directory →
      Ends
        (fun result after => Untouched conf (importables plan) after.directory →
          SameEntries middle after ∧ result.2 = known)
        (fun _ after => Untouched conf (importables plan) after.directory → SameEntries middle after)
        (importUsers conf options plan known middle)) :
    Ends
      (fun result after => ¬ Stored row after.directory →
        Untouched conf (importables plan) after.directory →
          (Grouped conf row stores.directory after.directory ∧ after.locked = stores.locked) ∧
            result.2 = imported)
      (fun _ after => ¬ Stored row after.directory →
        Untouched conf (importables plan) after.directory →
          Grouped conf row stores.directory after.directory ∧ after.locked = stores.locked)
      (importUsers conf options (row :: plan) imported stores) := by
  have unstored {after : Stores} (left : Left conf row Framed stores after)
      (free : ¬ Stored row after.directory) :
      Grouped conf row stores.directory after.directory ∧ after.locked = stores.locked :=
    left.resolve_right fun behind => free (stored_of_behind (fun _ _ framed => framed) behind)
  have first := (importUser_left options names clear importable).mono
    (fun _ _ left => left) fun _ after left free
      (_ : Untouched conf (importables plan) after.directory) => unstored left free
  apply Ends.bind first
  intro result middle reached
  have later := clear.tail placesApart names (grown_of_left (fun _ _ framed => framed) reached.1)
  have kept {after : Stores} (same : SameEntries middle after) (free : ¬ Stored row after.directory) :
      Grouped conf row stores.directory after.directory ∧ after.locked = stores.locked := by
    rw [same.directory] at free ⊢
    rw [same.locked]
    exact unstored reached.1 free
  have others := (rest middle (imported.remember row.username result.2) later).mono (fun _ _ left => left)
    fun _ after left free (untouched : Untouched conf (importables plan) after.directory) =>
      kept (left untouched) free
  apply others.bind
  intro back after left free untouched
  obtain ⟨same, isKnown⟩ := left untouched
  refine ⟨kept same free, ?_⟩
  cases created : result.2 with
  | none =>
      rw [created] at isKnown
      exact isKnown
  | some user =>
      have behind := stored_of_behind (fun _ _ framed => framed) (reached.2 (created ▸ rfl))
      rw [same.directory] at free
      exact absurd behind free

theorem importUsers_unstored (placesApart : PlacesApart conf) (names : NamedApart (importables plan))
    (clear : Clear conf (importables plan) stores.directory) :
    Ends
      (fun result after => Untouched conf (importables plan) after.directory →
        SameEntries stores after ∧ result.2 = imported)
      (fun _ after => Untouched conf (importables plan) after.directory → SameEntries stores after)
      (importUsers conf options plan imported stores) := by
  induction plan generalizing stores imported with
  | nil => exact fun _ => ⟨Std.Refl.refl stores, rfl⟩
  | cons row plan ih =>
      cases importable : row.importable with
      | false =>
          rw [importables_skip importable] at names clear ⊢
          exact ends_skip importable (fun _ _ _ left => left) (ih names clear)
      | true =>
          rw [importables_cons importable] at names clear ⊢
          have same {after : Stores}
              (left : Grouped conf row stores.directory after.directory ∧ after.locked = stores.locked)
              (untouched : Untouched conf (row :: importables plan) after.directory) :
              SameEntries stores after := by
            refine ⟨left.1.resolve_right ?_, left.2⟩
            rintro ⟨number, added⟩
            exact (untouched row List.mem_cons_self).2 (standsOwn_of_groupLeft added)
          have ends := @importUsers_cons_unstored conf row plan stores imported options placesApart names
            clear importable fun middle known later => ih names.tail later
          apply ends.mono
          · intro result after left untouched
            have kept := left (untouched row List.mem_cons_self).1
              fun other listed => untouched other (List.mem_cons_of_mem _ listed)
            exact ⟨same kept.1 untouched, kept.2⟩
          · intro _ after left untouched
            exact same (left (untouched row List.mem_cons_self).1
              fun other listed => untouched other (List.mem_cons_of_mem _ listed)) untouched

/-! ## Rows behind the accounts -/

/-- The mail or the phone number of the row is the account's. -/
def Claims (conf : LdapConf) (row : PlannedUser) (person : AccountEntry) : Prop :=
  (row.fields.mail ≠ "" ∧ person.mail.any (conf.sameValue · row.fields.mail) = true) ∨
    (row.fields.mobile ≠ "" ∧ person.mobile.any (conf.sameValue · row.fields.mobile) = true)

/-- At most the first of the rows has left its group, with the number that it asks for, and no
account stands in its way. -/
structure Begun (conf : LdapConf) (rows : List PlannedUser) (directory : LdapDirectory) : Prop where
  unstored : ∀ row ∈ rows, ¬ Stored row directory
  first : ∀ row ∈ rows.head?, StandsOwn conf row directory →
    (readInteger row.gidNumber).isSome = true ∧ ∀ person ∈ directory.people, ¬ Claims conf row person
  later : ∀ row ∈ rows.tail, ¬ StandsOwn conf row directory

/-- The row has left its group, with the number that it asks for, and may still add its account. -/
structure HalfAdded (conf : LdapConf) (row : PlannedUser) (before after : Stores) : Prop where
  asked : (readInteger row.gidNumber).isSome = true
  group : GroupLeft conf row (readInteger row.gidNumber) before.directory after.directory
  locked : after.locked = before.locked
  free : ∀ person ∈ before.directory.people, ¬ Claims conf row person

/-- Nothing is left of the rows, or the group of the first. -/
def Resumed (conf : LdapConf) (rows : List PlannedUser) (before after : Stores) : Prop :=
  SameEntries before after ∨ ∃ row ∈ rows.head?, HalfAdded conf row before after

theorem resumed_of_grouped (grouped : Grouped conf row stores.directory later.directory)
    (locked : later.locked = stores.locked) (begun : Begun conf (row :: rows) later.directory) :
    Resumed conf (row :: rows) stores later := by
  rcases grouped with same | ⟨number, added⟩
  · exact Or.inl ⟨same, locked⟩
  · obtain ⟨asked, free⟩ := begun.first row rfl (standsOwn_of_groupLeft added)
    have people : later.directory.people = stores.directory.people := by
      rw [added.left]
      rfl
    rw [people] at free
    exact Or.inr ⟨row, rfl, asked, added.asked asked ▸ added, locked, free⟩

theorem importUsers_begun (placesApart : PlacesApart conf) (names : NamedApart (importables plan))
    (clear : Clear conf (importables plan) stores.directory) :
    Ends
      (fun result after => Begun conf (importables plan) after.directory →
        Resumed conf (importables plan) stores after ∧ result.2 = imported)
      (fun _ after => Begun conf (importables plan) after.directory →
        Resumed conf (importables plan) stores after)
      (importUsers conf options plan imported stores) := by
  induction plan with
  | nil => exact fun _ => ⟨Or.inl (Std.Refl.refl stores), rfl⟩
  | cons row plan ih =>
      cases importable : row.importable with
      | false =>
          rw [importables_skip importable] at names clear ⊢
          exact ends_skip importable (fun _ _ _ left => left) (ih names clear)
      | true =>
          rw [importables_cons importable] at names clear ⊢
          have ends := @importUsers_cons_unstored conf row plan stores imported options placesApart names
            clear importable fun middle known later => importUsers_unstored placesApart names.tail later
          have untouched {directory : LdapDirectory}
              (begun : Begun conf (row :: importables plan) directory) :
              Untouched conf (importables plan) directory :=
            fun other listed => ⟨begun.unstored other (List.mem_cons_of_mem _ listed),
              begun.later other listed⟩
          apply ends.mono
          · intro result after left begun
            have kept := left (begun.unstored row List.mem_cons_self) (untouched begun)
            exact ⟨resumed_of_grouped kept.1.1 kept.1.2 begun, kept.2⟩
          · intro _ after left begun
            have kept := left (begun.unstored row List.mem_cons_self) (untouched begun)
            exact resumed_of_grouped kept.1 kept.2 begun

/-! ## Rows whose accounts are there -/

theorem unclaimed_iff {directory : LdapDirectory} : Unclaimed conf directory (newUser row) ↔
    ∀ person ∈ directory.people, ¬ Claims conf row person := by
  have given (text : String) : (truthy (some text)).isSome = true ↔ text ≠ "" := by
    simp [truthy, Option.filter]
  have searched (field : AccountEntry → Option String) (wanted : String) :
      directory.has conf field (some wanted) = false ↔
        ∀ person ∈ directory.people, (field person).any (conf.sameValue · wanted) = false := by
    simp [LdapDirectory.has]
  constructor
  · intro unclaimed person listed claims
    rcases claims with ⟨some, same⟩ | ⟨some, same⟩
    · have none := (searched _ _).mp (unclaimed.mail ((given _).mpr some)) person listed
      exact Bool.false_ne_true (none.symm.trans same)
    · have none := (searched _ _).mp (unclaimed.mobile ((given _).mpr some)) person listed
      exact Bool.false_ne_true (none.symm.trans same)
  · intro free
    constructor
    · intro some
      apply (searched _ _).mpr
      intro person listed
      exact Bool.eq_false_iff.mpr fun same => free person listed (Or.inl ⟨(given _).mp some, same⟩)
    · intro some
      apply (searched _ _).mpr
      intro person listed
      exact Bool.eq_false_iff.mpr fun same => free person listed (Or.inr ⟨(given _).mp some, same⟩)

/-- The account of the row is the one that has its mail or phone number. -/
structure Finished (conf : LdapConf) (row : PlannedUser) (directory : LdapDirectory) : Prop where
  claimed : ∃ person ∈ directory.people, Claims conf row person
  owned : ∀ person ∈ directory.people, Claims conf row person → person.uid = row.username

theorem Finished.stored {directory : LdapDirectory} (finished : Finished conf row directory) :
    Stored row directory := by
  obtain ⟨person, listed, claims⟩ := finished.claimed
  exact ⟨person, listed, finished.owned person listed claims⟩

theorem Stored.of_grown (names : NamedApart (row :: rows)) (stored : Stored row after)
    (grown : Grown conf rows before after) : Stored row before := by
  obtain ⟨person, listed, named⟩ := stored
  rcases grown.accounts person listed with known | ⟨other, member, isOther⟩
  · exact ⟨person, known, named⟩
  · exact absurd (congrArg lc (named.symm.trans isOther)) (names.head_ne member)

/-- A row whose account is there at the end has added it. -/
theorem added_of_finished (names : NamedApart (row :: rows))
    (left : Left conf row SameEntries stores later) (grown : Grown conf rows later.directory after)
    (unstored : ¬ Stored row stores.directory) (finished : Finished conf row after) :
    Added conf row stores later ∧ Unclaimed conf stores.directory (newUser row) := by
  have first := grown_of_left (fun _ _ same => same.framed) left
  constructor
  · rcases left with ⟨grouped, -⟩ | ⟨middle, added, same⟩
    · have stored := finished.stored.of_grown names grown
      unfold Stored at stored
      rw [grouped.people] at stored
      exact absurd stored unstored
    · exact added.congr same
  · apply unclaimed_iff.mpr
    intro person listed claims
    have kept := grown.kept person (first.kept person listed)
    exact unstored ⟨person, listed, finished.owned person kept claims⟩

theorem unstored_tail (names : NamedApart (row :: rows))
    (unstored : ∀ other ∈ row :: rows, ¬ Stored other before) (grown : Grown conf [row] before after) :
    ∀ other ∈ rows, ¬ Stored other after := by
  rintro other listed ⟨person, member, named⟩
  rcases grown.accounts person member with known | ⟨own, isRow, isOwn⟩
  · exact unstored other (List.mem_cons_of_mem _ listed) ⟨person, known, named⟩
  · cases List.mem_singleton.mp isRow
    exact names.head_ne listed (congrArg lc (isOwn.symm.trans named))

/-- What a row leaves in a run without faults whose call is known. -/
theorem importUser_calm {fresh : Stores} (options : ApplyOptions) (settled : Settled row)
    (importable : row.importable = true) (calm : fresh.fates = []) {data : NewUser}
    (turned : Adding.turns conf (refusals row) 7 fresh.directory
      (userAdd conf ⟨newUser row, importOptions⟩) = (after, .added data)) :
    ∃ result final, importUser conf options row fresh = .ok result final ∧ final.fates = [] ∧
      SameEntries { fresh with directory := after } final := by
  have ran := @addTurns_eq conf row fresh calm 7 (userAdd conf ⟨newUser row, importOptions⟩)
  rw [turned] at ran
  have adds : Ends (fun _ final => SameEntries { fresh with directory := after } final)
      (fun _ final => SameEntries { fresh with directory := after } final) (addUser conf row fresh) := by
    apply Ends.tryCatch
    · rw [bind_ok ran]
      exact idle_readAdded (.added data) { fresh with directory := after }
    · intro failure middle same
      cases failure with
      | stopped => exact same
      | thrown error =>
          dsimp only
          split <;> exact same
  have imports : Ends (fun _ final => SameEntries { fresh with directory := after } final)
      (fun _ final => SameEntries { fresh with directory := after } final)
      (importUser conf options row fresh) := by
    unfold importUser
    rw [if_pos importable]
    apply Ends.tryCatch
    · apply adds.bind
      intro created middle same
      have reported := keeps_reportUser (@idle_settleUser conf row options settled created) middle
      apply Ends.bind (reported.mono (fun _ _ kept => IsTrans.trans _ _ _ same kept)
        fun _ _ kept => IsTrans.trans _ _ _ same kept)
      exact fun report final kept => kept
    · intro failure middle same
      cases failure with
      | stopped => exact same
      | thrown error => exact same
  have ends := @agree_importUser conf (fun _ _ => False) options row fresh fresh
    ⟨calm, calm, Std.Refl.refl fresh⟩
  cases result : importUser conf options row fresh with
  | ok value final =>
      rw [result] at imports ends
      exact ⟨value, final, rfl, ends.2.calm, imports⟩
  | error error final =>
      rw [result] at ends
      exact ends.1.elim

theorem importUsers_none (none : importables plan = []) :
    ∃ reports, importUsers conf options plan imported stores = .ok (reports, imported) stores := by
  induction plan with
  | nil => exact ⟨[], rfl⟩
  | cons row plan ih =>
      cases importable : row.importable with
      | false =>
          rw [importables_skip importable] at none
          obtain ⟨reports, ran⟩ := ih none
          obtain ⟨report, same⟩ := @importUsers_skip conf row plan options importable
          rw [same, bind_ok ran]
          exact ⟨report :: reports, rfl⟩
      | true =>
          rw [importables_cons importable] at none
          cases none

/-- An import of the rows without faults gets to the same entries. -/
def Repeats (conf : LdapConf) (options : ApplyOptions) (plan : List PlannedUser) (known : Imported)
    (fresh after : Stores) : Prop :=
  ∃ result final, importUsers conf options plan known fresh = .ok result final ∧ final.fates = [] ∧
    SameEntries final after

theorem Repeats.cons {fresh next final : Stores} {known : Imported}
    {result : UserReport × Option AccountEntry}
    (ran : importUser conf options row fresh = .ok result next)
    (repeats : Repeats conf options plan (known.remember row.username result.2) next final) :
    Repeats conf options (row :: plan) known fresh final := by
  obtain ⟨rest, last, others, calm, same⟩ := repeats
  refine ⟨(result.1 :: rest.1, rest.2), last, ?_, calm, same⟩
  exact (bind_ok ran).trans (bind_ok others)

/-- A row that has added its account does so in a run without faults. -/
theorem exists_importUser_of_added {fresh : Stores} (options : ApplyOptions) (settled : Settled row)
    (importable : row.importable = true) (calm : fresh.fates = []) (same : SameEntries fresh stores)
    (added : Added conf row stores later) (unclaimed : Unclaimed conf stores.directory (newUser row)) :
    ∃ result final, importUser conf options row fresh = .ok result final ∧ final.fates = [] ∧
      SameEntries final later := by
  obtain ⟨data, turned⟩ := added.calm unclaimed
  rw [same.directory] at turned
  obtain ⟨result, final, ran, ended, left⟩ := importUser_calm options settled importable calm turned
  refine ⟨result, final, ran, ended, left.directory.symm, ?_⟩
  exact (added.locked.trans same.locked).trans left.locked.symm

/-- A run that stops behind a row has no account of the rows that follow. -/
theorem repeats_of_stop {fresh : Stores} {known : Imported} (names : NamedApart (row :: importables plan))
    (settled : Settled row) (importable : row.importable = true) (calm : fresh.fates = [])
    (same : SameEntries fresh stores)
    (unstored : ∀ other ∈ row :: importables plan, ¬ Stored other stores.directory)
    (left : Left conf row SameEntries stores later)
    (finished : ∀ other ∈ row :: importables plan, Finished conf other later.directory) :
    Repeats conf options (row :: plan) known fresh later := by
  have grown := grown_of_left (fun _ _ same => same.framed) left
  obtain ⟨added, unclaimed⟩ := added_of_finished names left (Grown.refl _ _)
    (unstored row List.mem_cons_self) (finished row List.mem_cons_self)
  have none : importables plan = [] := by
    apply List.eq_nil_iff_forall_not_mem.mpr
    intro other listed
    exact unstored_tail names unstored grown other listed
      (finished other (List.mem_cons_of_mem _ listed)).stored
  obtain ⟨result, final, ran, ended, reached⟩ :=
    exists_importUser_of_added options settled importable calm same added unclaimed
  obtain ⟨reports, others⟩ := @importUsers_none conf plan final
    (known.remember row.username result.2) options none
  exact Repeats.cons ran ⟨_, final, others, ended, reached⟩

/-- Rows whose accounts are there at the end are imported as in a run without faults. -/
theorem importUsers_finished {fresh : Stores} {known : Imported} (placesApart : PlacesApart conf)
    (names : NamedApart (importables plan)) (clear : Clear conf (importables plan) stores.directory)
    (settled : ∀ row ∈ importables plan, Settled row) (calm : fresh.fates = [])
    (same : SameEntries fresh stores)
    (unstored : ∀ row ∈ importables plan, ¬ Stored row stores.directory) :
    Ends
      (fun _ after => (∀ row ∈ importables plan, Finished conf row after.directory) →
        Repeats conf options plan known fresh after)
      (fun _ after => (∀ row ∈ importables plan, Finished conf row after.directory) →
        Repeats conf options plan known fresh after)
      (importUsers conf options plan imported stores) := by
  induction plan generalizing stores imported fresh known with
  | nil => exact fun _ => ⟨_, fresh, rfl, calm, same⟩
  | cons row plan ih =>
      cases importable : row.importable with
      | false =>
          rw [importables_skip importable] at names clear settled unstored ⊢
          have skipped {after : Stores} (repeats : Repeats conf options plan known fresh after) :
              Repeats conf options (row :: plan) known fresh after :=
            Repeats.cons (importUser_skipped importable) repeats
          have rest := (@ih stores imported fresh known names clear settled calm same unstored).mono
            (fun _ _ repeats finished => skipped (repeats finished))
            fun _ _ repeats finished => skipped (repeats finished)
          exact ends_skip importable (fun _ _ _ repeats => repeats) rest
      | true =>
          rw [importables_cons importable] at names clear settled unstored ⊢
          have isSettled := settled row List.mem_cons_self
          have named := ne_empty_of_isUsername (names.named row List.mem_cons_self)
          have first := @importUser_ended conf row stores options SameEntries _ _ named
            (clear row List.mem_cons_self) importable fun created => idle_settleUser options isSettled created
          apply Ends.bind (first.mono (fun _ _ left => left) fun _ _ left =>
            repeats_of_stop names isSettled importable calm same unstored left)
          intro result middle reached
          have grown := grown_of_left (fun _ _ same => same.framed) reached.1
          have later := clear.tail placesApart names grown
          by_cases good : Added conf row stores middle ∧ Unclaimed conf stores.directory (newUser row)
          · obtain ⟨again, final, ran, ended, left⟩ := exists_importUser_of_added options isSettled
              importable calm same good.1 good.2
            have all {after : Stores}
                (repeats : (∀ other ∈ importables plan, Finished conf other after.directory) →
                  Repeats conf options plan (known.remember row.username again.2) final after)
                (finished : ∀ other ∈ row :: importables plan, Finished conf other after.directory) :
                Repeats conf options (row :: plan) known fresh after :=
              Repeats.cons ran (repeats fun other listed =>
                finished other (List.mem_cons_of_mem _ listed))
            have rest := (@ih middle (imported.remember row.username result.2) final
              (known.remember row.username again.2) names.tail later
              (fun other listed => settled other (List.mem_cons_of_mem _ listed)) ended left
              (unstored_tail names unstored grown)).mono
              (fun _ _ repeats => all repeats) fun _ _ repeats => all repeats
            exact rest.bind fun _ _ repeats => repeats
          -- A row that is not added now is not there at the end.
          · have missing {after : Stores}
                (more : Grown conf (importables plan) middle.directory after.directory)
                (finished : ∀ other ∈ row :: importables plan, Finished conf other after.directory) :
                Repeats conf options (row :: plan) known fresh after :=
              absurd (added_of_finished names reached.1 more (unstored row List.mem_cons_self)
                (finished row List.mem_cons_self)) good
            have rest := (@importUsers_grown conf plan middle (imported.remember row.username result.2)
              options placesApart names.tail later).mono
              (fun _ _ more => missing more) fun _ _ more => missing more
            exact rest.bind fun _ _ repeats => repeats

end ThetaDirectory.Migration
