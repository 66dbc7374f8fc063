import Mathlib.Data.List.Nodup
import ThetaDirectory.Spokes.Distinct

/-!
# Repairing duplicate ServerIDs

`repairDuplicateServerIds` of `models/index.js`, which runs at boot: of the rows that share an id
the oldest keeps it, and the others are moved to free ones.
-/

namespace ThetaDirectory.Spokes

/-- A row with the time of its registration. -/
structure AgedSpoke extends SiteSpoke where
  created_on : Option Int
  deriving DecidableEq, Repr

/-- The order of `localeCompare`. -/
structure Collation where
  le : String → String → Bool
  trans : ∀ text other third, le text other = true → le other third = true → le text third = true
  total : ∀ text other, (le text other || le other text) = true

namespace AgedSpoke

/-- The id of a row that has one. -/
def serverId (row : AgedSpoke) : Option Nat := assignedId row.ldapServerId

def createdOn (row : AgedSpoke) : Int := row.created_on.getD 0

/-- The order of a group. -/
def before (collation : Collation) (row other : AgedSpoke) : Bool :=
  row.createdOn < other.createdOn ||
    row.createdOn == other.createdOn && collation.le row.id other.id

end AgedSpoke

def serverIdsOf (rows : List AgedSpoke) : List Nat := rows.filterMap (·.serverId)

/-- The rows with an id. -/
def sharing (rows : List AgedSpoke) (id : Nat) : List AgedSpoke :=
  rows.filter fun row => row.serverId = some id

/-- The map `byId`, in the order of its insertions. -/
def byId (rows : List AgedSpoke) : List (Nat × List AgedSpoke) :=
  (serverIdsOf rows).eraseDups.map fun id => (id, sharing rows id)

/-- The rows of a group that are moved. -/
def surplus (collation : Collation) (group : List AgedSpoke) : List AgedSpoke :=
  if group.length < 2 then [] else (group.mergeSort (AgedSpoke.before collation)).tail

/-- The update of a row, if the database carries it out. -/
def assign (succeeds : Bool) (rows : List AgedSpoke) (key : String) (id : Nat) : List AgedSpoke :=
  if succeeds then
    rows.map fun row => if row.id = key then { row with ldapServerId := some id } else row
  else rows

/-- The lowest id that is not used. -/
def lowestFree (used : List Nat) : Nat := stepPast used used.length 2

/-- One turn of the inner loop: the table and the used ids. -/
def reassign (succeeds : String → Bool) (state : List AgedSpoke × List Nat) (row : AgedSpoke) :
    List AgedSpoke × List Nat :=
  let next := lowestFree state.2
  (assign (succeeds row.id) state.1 row.id next, next :: state.2)

def repairDuplicateServerIds (collation : Collation) (succeeds : String → Bool)
    (rows : List AgedSpoke) : List AgedSpoke :=
  ((byId rows).foldl (fun state group => (surplus collation group.2).foldl (reassign succeeds) state)
    (rows, 1 :: (byId rows).map Prod.fst)).1

/-- What the repair is for. -/
structure Repaired (rows after : List AgedSpoke) : Prop where
  distinct : (serverIdsOf after).Nodup
  reserved : 1 ∉ serverIdsOf after
  oldest : ∀ id ∈ serverIdsOf rows, id ≠ 1 → ∃ row ∈ sharing rows id, row ∈ after ∧
    ∀ other ∈ sharing rows id, row.createdOn ≤ other.createdOn
  others : ∀ row ∈ rows, (∀ id ∈ row.serverId, id ≠ 1 ∧ sharing rows id = [row]) → row ∈ after

/-! ## Which rows are moved -/

variable {collation : Collation} {rows group : List AgedSpoke} {row other : AgedSpoke} {id : Nat}

theorem nodup_eraseDups : ∀ ids : List Nat, ids.eraseDups.Nodup
  | [] => List.nodup_nil
  | id :: ids => by
      rw [List.eraseDups_cons, List.nodup_cons, List.mem_eraseDups]
      exact ⟨by simp, nodup_eraseDups _⟩
termination_by ids => ids.length
decreasing_by exact Nat.lt_succ_of_le (List.length_filter_le _ _)

theorem mem_sharing : row ∈ sharing rows id ↔ row ∈ rows ∧ row.serverId = some id := by
  rw [sharing, List.mem_filter, decide_eq_true_iff]

theorem mem_serverIdsOf : id ∈ serverIdsOf rows ↔ ∃ row ∈ rows, row.serverId = some id :=
  List.mem_filterMap

theorem AgedSpoke.before_trans (row other third : AgedSpoke)
    (first : row.before collation other = true) (second : other.before collation third = true) :
    row.before collation third = true := by
  simp only [before, Bool.or_eq_true, Bool.and_eq_true, decide_eq_true_eq, beq_iff_eq] at *
  rcases first with older | ⟨same, le⟩
  · rcases second with next | ⟨next, -⟩
    · exact Or.inl (Int.lt_trans older next)
    · exact Or.inl (next ▸ older)
  · rcases second with next | ⟨next, other⟩
    · exact Or.inl (same ▸ next)
    · exact Or.inr ⟨same.trans next, collation.trans _ _ _ le other⟩

theorem AgedSpoke.before_total (row other : AgedSpoke) :
    (row.before collation other || other.before collation row) = true := by
  simp only [before, Bool.or_eq_true, Bool.and_eq_true, decide_eq_true_eq, beq_iff_eq]
  rcases Int.lt_trichotomy row.createdOn other.createdOn with older | same | younger
  · exact Or.inl (Or.inl older)
  · have le := collation.total row.id other.id
    rw [Bool.or_eq_true] at le
    exact le.imp (fun first => Or.inr ⟨same, first⟩) fun second => Or.inr ⟨same.symm, second⟩
  · exact Or.inr (Or.inl younger)

theorem AgedSpoke.le_of_before (first : row.before collation other = true) :
    row.createdOn ≤ other.createdOn := by
  simp only [before, Bool.or_eq_true, Bool.and_eq_true, decide_eq_true_eq, beq_iff_eq] at first
  exact first.elim Int.le_of_lt fun same => Int.le_of_eq same.1

/-- All rows of a group but the oldest are moved. -/
theorem exists_oldest (collation : Collation) (nonempty : group ≠ []) :
    ∃ first, (first :: surplus collation group).Perm group ∧
      ∀ other ∈ group, first.createdOn ≤ other.createdOn := by
  unfold surplus
  split
  · rename_i small
    cases group with
    | nil => exact absurd rfl nonempty
    | cons first rest =>
        have none : rest = [] := List.length_eq_zero_iff.mp
          (Nat.lt_one_iff.mp (Nat.lt_of_succ_lt_succ small))
        subst none
        exact ⟨first, List.Perm.refl _, by simp⟩
  · have permuted := List.mergeSort_perm group (AgedSpoke.before collation)
    have sorted := List.pairwise_mergeSort (@AgedSpoke.before_trans collation)
      AgedSpoke.before_total group
    cases isSorted : group.mergeSort (AgedSpoke.before collation) with
    | nil => exact absurd (List.nil_perm.mp (isSorted ▸ permuted)) nonempty
    | cons first rest =>
        rw [isSorted] at permuted sorted
        refine ⟨first, permuted, fun other member => ?_⟩
        rcases List.mem_cons.mp (permuted.mem_iff.mpr member) with rfl | later
        · exact Int.le_refl _
        · exact AgedSpoke.le_of_before (List.rel_of_pairwise_cons sorted later)

theorem surplus_subset (collation : Collation) (group : List AgedSpoke) :
    surplus collation group ⊆ group := by
  by_cases empty : group = []
  · rw [empty]
    exact List.Subset.refl []
  · obtain ⟨first, all, -⟩ := exists_oldest collation empty
    exact fun row member => all.mem_iff.mp (List.mem_cons_of_mem first member)

/-- The rows that are moved, in the order of their moves. -/
def moved (collation : Collation) (rows : List AgedSpoke) : List AgedSpoke :=
  (byId rows).flatMap fun group => surplus collation group.2

theorem mem_moved : row ∈ moved collation rows ↔
    ∃ id ∈ serverIdsOf rows, row ∈ surplus collation (sharing rows id) := by
  unfold moved byId
  rw [List.flatMap_map, List.mem_flatMap]
  exact exists_congr fun id => and_congr_left fun _ => List.mem_eraseDups

/-- Of the rows with an id just one, among the oldest, is not moved. -/
theorem exists_unmoved (keys : (rows.map (·.id)).Nodup) (shared : id ∈ serverIdsOf rows) :
    ∃ first ∈ sharing rows id, first ∉ moved collation rows ∧
      (∀ other ∈ sharing rows id, first.createdOn ≤ other.createdOn) ∧
        ∀ other ∈ sharing rows id, other ∉ moved collation rows → other = first := by
  have nonempty : sharing rows id ≠ [] := by
    obtain ⟨row, member, isId⟩ := mem_serverIdsOf.mp shared
    exact List.ne_nil_of_mem (mem_sharing.mpr ⟨member, isId⟩)
  obtain ⟨first, all, oldest⟩ := exists_oldest collation nonempty
  have inGroup : first ∈ sharing rows id := all.mem_iff.mp List.mem_cons_self
  have distinct : (first :: surplus collation (sharing rows id)).Nodup :=
    all.nodup_iff.mpr ((List.Nodup.of_map _ keys).filter _)
  refine ⟨first, inGroup, ?_, oldest, ?_⟩
  · intro isMoved
    obtain ⟨other, -, inSurplus⟩ := mem_moved.mp isMoved
    have same : other = id := by
      have member := surplus_subset collation _ inSurplus
      exact Option.some.inj ((mem_sharing.mp member).2.symm.trans (mem_sharing.mp inGroup).2)
    exact (List.nodup_cons.mp distinct).1 (same ▸ inSurplus)
  · intro other member stays
    rcases List.mem_cons.mp (all.mem_iff.mpr member) with isFirst | inSurplus
    · exact isFirst
    · exact absurd (mem_moved.mpr ⟨id, shared, inSurplus⟩) stays

/-- No row is moved twice. -/
theorem nodup_moved (collation : Collation) (keys : (rows.map (·.id)).Nodup) :
    ((moved collation rows).map (·.id)).Nodup := by
  have distinct : (moved collation rows).Nodup := by
    unfold moved byId
    rw [List.flatMap_map, List.nodup_flatMap]
    constructor
    · intro id _
      by_cases empty : sharing rows id = []
      · rw [empty]
        exact List.nodup_nil
      · obtain ⟨first, all, -⟩ := exists_oldest collation empty
        exact (List.nodup_cons.mp (all.nodup_iff.mpr ((List.Nodup.of_map _ keys).filter _))).2
    · apply (nodup_eraseDups (serverIdsOf rows)).imp
      intro id other different row member memberOther
      have own := (mem_sharing.mp (surplus_subset collation _ member)).2
      have its := (mem_sharing.mp (surplus_subset collation _ memberOther)).2
      exact different (Option.some.inj (own.symm.trans its))
  apply distinct.map_on
  intro row member other memberOther same
  obtain ⟨id, -, inSurplus⟩ := mem_moved.mp member
  obtain ⟨number, -, inOther⟩ := mem_moved.mp memberOther
  exact List.inj_on_of_nodup_map keys (mem_sharing.mp (surplus_subset collation _ inSurplus)).1
    (mem_sharing.mp (surplus_subset collation _ inOther)).1 same

/-! ## Where they are moved -/

/-- The ids of the moved rows. -/
def allot : List Nat → List AgedSpoke → List (String × Nat)
  | _, [] => []
  | used, row :: rows => (row.id, lowestFree used) :: allot (lowestFree used :: used) rows

/-- A row behind some moves. -/
def settle (moves : List (String × Nat)) (row : AgedSpoke) : AgedSpoke :=
  moves.foldl (fun row move =>
    if row.id = move.1 then { row with ldapServerId := some move.2 } else row) row

theorem foldl_reassign (used : List Nat) (moves rows : List AgedSpoke) :
    (moves.foldl (reassign fun _ => true) (rows, used)).1 = rows.map (settle (allot used moves)) := by
  induction moves generalizing used rows with
  | nil => exact (List.map_id' rows).symm
  | cons row moves ih =>
      rw [List.foldl_cons, reassign]
      dsimp only
      rw [ih, assign, if_pos rfl, List.map_map]
      rfl

theorem repair_eq (collation : Collation) (rows : List AgedSpoke) :
    repairDuplicateServerIds collation (fun _ => true) rows =
      rows.map (settle (allot (1 :: (byId rows).map Prod.fst) (moved collation rows))) := by
  rw [repairDuplicateServerIds, ← List.foldl_flatMap, ← foldl_reassign]
  rfl

theorem map_fst_allot (used : List Nat) (moves : List AgedSpoke) :
    (allot used moves).map Prod.fst = moves.map (·.id) := by
  induction moves generalizing used with
  | nil => rfl
  | cons row moves ih => rw [allot, List.map_cons, ih, List.map_cons]

/-- The ids that are given are new. -/
theorem allot_new (used : List Nat) (moves : List AgedSpoke) :
    ((allot used moves).map Prod.snd).Nodup ∧
      ∀ move ∈ allot used moves, 2 ≤ move.2 ∧ move.2 ∉ used := by
  induction moves generalizing used with
  | nil => exact ⟨List.nodup_nil, by simp [allot]⟩
  | cons row moves ih =>
      obtain ⟨distinct, new⟩ := ih (lowestFree used :: used)
      constructor
      · rw [allot, List.map_cons, List.nodup_cons]
        refine ⟨fun again => ?_, distinct⟩
        obtain ⟨move, member, same⟩ := List.mem_map.mp again
        exact (new move member).2 (same ▸ List.mem_cons_self)
      · rw [allot, List.forall_mem_cons]
        refine ⟨⟨le_stepPast used _ _, stepPast_notMem used 2⟩, fun move member => ?_⟩
        obtain ⟨two_le, free⟩ := new move member
        exact ⟨two_le, fun listed => free (List.mem_cons_of_mem _ listed)⟩

variable {moves : List (String × Nat)}

theorem settle_cons (move : String × Nat) : settle (move :: moves) row =
    settle moves (if row.id = move.1 then { row with ldapServerId := some move.2 } else row) := rfl

theorem settle_of_notMem (absent : row.id ∉ moves.map Prod.fst) : settle moves row = row := by
  induction moves with
  | nil => rfl
  | cons move moves ih =>
      rw [List.map_cons, List.mem_cons, not_or] at absent
      rw [settle_cons, if_neg absent.1, ih absent.2]

theorem ldapServerId_settle (distinct : (moves.map Prod.fst).Nodup) (move : (row.id, id) ∈ moves) :
    (settle moves row).ldapServerId = some id := by
  induction moves generalizing row with
  | nil => cases move
  | cons first moves ih =>
      rw [List.map_cons, List.nodup_cons] at distinct
      rw [settle_cons]
      rcases List.mem_cons.mp move with isFirst | later
      · rw [← isFirst, if_pos rfl, settle_of_notMem]
        exact fun again => distinct.1 (isFirst ▸ again)
      · have apart : row.id ≠ first.1 := fun same =>
          distinct.1 (same ▸ List.mem_map_of_mem later)
        rw [if_neg apart]
        exact ih distinct.2 later

/-! ## What the repair does -/

/-- The ids in use when the repair starts. -/
def takenIds (rows : List AgedSpoke) : List Nat := 1 :: (byId rows).map Prod.fst

theorem mem_takenIds : id ∈ takenIds rows ↔ id = 1 ∨ id ∈ serverIdsOf rows := by
  rw [takenIds, List.mem_cons, byId, List.map_map]
  change id = 1 ∨ id ∈ (serverIdsOf rows).eraseDups.map (fun id => id) ↔ _
  rw [List.map_id', List.mem_eraseDups]

/-- The moves of the repair. -/
def movesOf (collation : Collation) (rows : List AgedSpoke) : List (String × Nat) :=
  allot (takenIds rows) (moved collation rows)

theorem mem_of_moved (isMoved : row ∈ moved collation rows) : row ∈ rows := by
  obtain ⟨id, -, inSurplus⟩ := mem_moved.mp isMoved
  exact (mem_sharing.mp (surplus_subset collation _ inSurplus)).1

theorem settle_unmoved (keys : (rows.map (·.id)).Nodup) (member : row ∈ rows)
    (stays : row ∉ moved collation rows) : settle (movesOf collation rows) row = row := by
  apply settle_of_notMem
  rw [movesOf, map_fst_allot]
  intro listed
  obtain ⟨other, isMoved, same⟩ := List.mem_map.mp listed
  exact stays (List.inj_on_of_nodup_map keys (mem_of_moved isMoved) member same ▸ isMoved)

/-- A row that is moved gets an id that no row had. -/
theorem settle_moved (keys : (rows.map (·.id)).Nodup) (isMoved : row ∈ moved collation rows) :
    ∃ id, (row.id, id) ∈ movesOf collation rows ∧
      (settle (movesOf collation rows) row).serverId = some id ∧
        id ≠ 1 ∧ id ∉ serverIdsOf rows := by
  have listed : row.id ∈ (movesOf collation rows).map Prod.fst := by
    rw [movesOf, map_fst_allot]
    exact List.mem_map_of_mem isMoved
  obtain ⟨move, member, same⟩ := List.mem_map.mp listed
  obtain ⟨two_le, free⟩ := (allot_new (takenIds rows) (moved collation rows)).2 move member
  have isMove : (row.id, move.2) ∈ movesOf collation rows := same ▸ member
  have distinct : ((movesOf collation rows).map Prod.fst).Nodup := by
    rw [movesOf, map_fst_allot]
    exact nodup_moved collation keys
  rw [mem_takenIds, not_or] at free
  refine ⟨move.2, isMove, ?_, free⟩
  have positive : move.2 ≠ 0 := Nat.ne_of_gt (Nat.lt_of_lt_of_le Nat.zero_lt_two two_le)
  rw [AgedSpoke.serverId, ldapServerId_settle distinct isMove]
  simp [assignedId, positive]

/-- No two rows have one id behind the repair. -/
theorem eq_of_settled (keys : (rows.map (·.id)).Nodup) (member : row ∈ rows) (memberOther : other ∈ rows)
    (own : (settle (movesOf collation rows) row).serverId = some id)
    (its : (settle (movesOf collation rows) other).serverId = some id) : row = other := by
  by_cases isMoved : row ∈ moved collation rows
  · obtain ⟨new, isMove, isNew, -, free⟩ := settle_moved keys isMoved
    have sameNew : new = id := Option.some.inj (isNew.symm.trans own)
    by_cases otherMoved : other ∈ moved collation rows
    · obtain ⟨number, otherMove, isNumber, -⟩ := settle_moved keys otherMoved
      have sameNumber : number = id := Option.some.inj (isNumber.symm.trans its)
      have distinct := (allot_new (takenIds rows) (moved collation rows)).1
      have sameMove := List.inj_on_of_nodup_map distinct isMove otherMove
        (sameNew.trans sameNumber.symm)
      exact List.inj_on_of_nodup_map keys member memberOther (congrArg Prod.fst sameMove)
    · rw [settle_unmoved keys memberOther otherMoved] at its
      exact absurd (mem_serverIdsOf.mpr ⟨other, memberOther, its⟩) (sameNew ▸ free)
  · rw [settle_unmoved keys member isMoved] at own
    have shared : id ∈ serverIdsOf rows := mem_serverIdsOf.mpr ⟨row, member, own⟩
    by_cases otherMoved : other ∈ moved collation rows
    · obtain ⟨number, -, isNumber, -, free⟩ := settle_moved keys otherMoved
      have sameNumber : number = id := Option.some.inj (isNumber.symm.trans its)
      exact absurd shared (sameNumber ▸ free)
    · rw [settle_unmoved keys memberOther otherMoved] at its
      obtain ⟨first, -, -, -, only⟩ := @exists_unmoved collation rows id keys shared
      rw [only row (mem_sharing.mpr ⟨member, own⟩) isMoved,
        only other (mem_sharing.mpr ⟨memberOther, its⟩) otherMoved]

theorem unmoved_stays (keys : (rows.map (·.id)).Nodup) (member : row ∈ rows)
    (stays : row ∉ moved collation rows) :
    row ∈ repairDuplicateServerIds collation (fun _ => true) rows := by
  rw [repair_eq]
  exact List.mem_map.mpr ⟨row, member, settle_unmoved keys member stays⟩

/-- The oldest row with the master's id keeps it, too. -/
theorem reserved_stays (collation : Collation) (keys : (rows.map (·.id)).Nodup)
    (reserved : 1 ∈ serverIdsOf rows) :
    1 ∈ serverIdsOf (repairDuplicateServerIds collation (fun _ => true) rows) := by
  obtain ⟨first, inGroup, unmoved, -⟩ := @exists_unmoved collation rows 1 keys reserved
  obtain ⟨member, isOne⟩ := mem_sharing.mp inGroup
  exact mem_serverIdsOf.mpr ⟨first, unmoved_stays keys member unmoved, isOne⟩

/-- The repair does all it should exactly when no row has the master's id. -/
theorem repaired_iff (collation : Collation) (rows : List AgedSpoke)
    (keys : (rows.map (·.id)).Nodup) :
    Repaired rows (repairDuplicateServerIds collation (fun _ => true) rows) ↔
      1 ∉ serverIdsOf rows := by
  constructor
  · intro repaired reserved
    exact repaired.reserved (reserved_stays collation keys reserved)
  · intro free
    have stays (row : AgedSpoke) (member : row ∈ rows) (unmoved : row ∉ moved collation rows) :=
      unmoved_stays keys member unmoved
    rw [repair_eq] at stays ⊢
    change Repaired rows (rows.map (settle (movesOf collation rows)))
    constructor
    · rw [serverIdsOf, List.filterMap_map]
      apply List.pairwise_filterMap.mpr
      apply (List.pairwise_map.mp keys).imp_of_mem
      intro row other member memberOther different id own number its same
      subst same
      exact different (congrArg (fun row : AgedSpoke => row.id)
        (eq_of_settled keys member memberOther own its))
    · intro reserved
      obtain ⟨after, inAfter, isOne⟩ := mem_serverIdsOf.mp reserved
      obtain ⟨row, member, rfl⟩ := List.mem_map.mp inAfter
      by_cases isMoved : row ∈ moved collation rows
      · obtain ⟨id, -, isNew, notOne, -⟩ := settle_moved keys isMoved
        exact notOne (Option.some.inj (isNew.symm.trans isOne))
      · rw [settle_unmoved keys member isMoved] at isOne
        exact free (mem_serverIdsOf.mpr ⟨row, member, isOne⟩)
    · intro id shared _
      obtain ⟨first, inGroup, unmoved, oldest, -⟩ := @exists_unmoved collation rows id keys shared
      exact ⟨first, inGroup, stays first (mem_sharing.mp inGroup).1 unmoved, oldest⟩
    · intro row member alone
      apply stays row member
      intro isMoved
      obtain ⟨id, shared, inSurplus⟩ := mem_moved.mp isMoved
      have inGroup := surplus_subset collation _ inSurplus
      have only := (alone id (mem_sharing.mp inGroup).2).2
      rw [only] at inSurplus
      cases inSurplus

/-- The order of code points. -/
def byCodePoint : Collation where
  le := fun text other => decide (text ≤ other)
  trans := fun _ _ _ first second =>
    decide_eq_true (String.le_trans (of_decide_eq_true first) (of_decide_eq_true second))
  total := fun text other => by
    rw [Bool.or_eq_true, decide_eq_true_iff, decide_eq_true_iff]
    exact String.le_total text other

private def agedRow (id : String) (ldapServerId : Nat) (created_on : Int) : AgedSpoke :=
  ⟨⟨id, "https://" ++ id, none, "", false, "", "", some ldapServerId⟩, some created_on⟩

theorem repaired_iff_shared :
    Repaired [agedRow "b" 2 7, agedRow "a" 2 5, agedRow "c" 3 6]
        (repairDuplicateServerIds byCodePoint (fun _ => true)
          [agedRow "b" 2 7, agedRow "a" 2 5, agedRow "c" 3 6]) ↔
      1 ∉ serverIdsOf [agedRow "b" 2 7, agedRow "a" 2 5, agedRow "c" 3 6] :=
  repaired_iff byCodePoint [agedRow "b" 2 7, agedRow "a" 2 5, agedRow "c" 3 6] (by decide)

/-- Of two rows with the master's id only the younger one is moved. -/
theorem not_repaired : ¬ ∀ rows : List AgedSpoke, (rows.map (·.id)).Nodup →
    Repaired rows (repairDuplicateServerIds byCodePoint (fun _ => true) rows) := by
  intro always
  have keys : ([agedRow "a" 1 5, agedRow "b" 1 7].map (·.id)).Nodup := by decide
  exact (always _ keys).reserved (reserved_stays byCodePoint keys (by decide))

end ThetaDirectory.Spokes
