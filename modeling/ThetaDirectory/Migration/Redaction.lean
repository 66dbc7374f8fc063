import Mathlib.Data.List.Forall2
import ThetaDirectory.Migration.Plan

/-!
# What an operator sees of a plan

`redactPlan` of `utils/ldif_import.js` leaves the stored passwords out of a plan.  What is left
depends on the schemes of the passwords, and on nothing else of them.
-/

namespace ThetaDirectory.Migration

structure RedactedUser where
  sourceDn : String
  username : String
  uidNumber : String
  gidNumber : String
  fields : UserFields
  sshPublicKey : List String
  «sudo» : Sudo
  locked : Bool
  passwordScheme : String
  hasPassword : Bool
  warnings : List String
  blocking : List String
  decision : Decision
  deriving DecidableEq

def PlannedUser.redacted (user : PlannedUser) : RedactedUser where
  sourceDn := user.sourceDn
  username := user.username
  uidNumber := user.uidNumber
  gidNumber := user.gidNumber
  fields := user.fields
  sshPublicKey := user.sshPublicKey
  «sudo» := user.«sudo»
  locked := user.locked
  passwordScheme := user.passwordScheme
  hasPassword := user.hasPassword
  warnings := user.warnings
  blocking := user.blocking
  decision := user.decision

/-- The counts of a plan. -/
structure PlanStats where
  entries : Nat
  users : Nat
  importable : Nat
  blocked : Nat
  groups : Nat
  personalGroups : Nat
  skipped : Nat
  deriving DecidableEq

def planStats (entries : List Entry) (plan : ImportPlan) : PlanStats where
  entries := entries.length
  users := plan.users.length
  importable := (plan.users.filter fun user => user.blocking.isEmpty).length
  blocked := (plan.users.filter fun user => !user.blocking.isEmpty).length
  groups := plan.groups.length
  personalGroups := plan.personalGroups.length
  skipped := plan.skipped.length

structure RedactedPlan where
  users : List RedactedUser
  groups : List PlannedGroup
  personalGroups : List PlannedGroup
  skipped : List Skipped
  stats : PlanStats
  deriving DecidableEq

def redactPlan (plan : ImportPlan) (stats : PlanStats) : RedactedPlan where
  users := plan.users.map (·.redacted)
  groups := plan.groups
  personalGroups := plan.personalGroups
  skipped := plan.skipped
  stats := stats

/-- The plan of a file as it is shown. -/
def shownPlan (profile : Profile) (existing : Existing) (entries : List Entry) : RedactedPlan :=
  redactPlan (buildPlan profile existing entries)
    (planStats entries (buildPlan profile existing entries))

/-! ## Entries that differ in their passwords -/

/-- Only values of `userPassword` may differ, and those only within one scheme. -/
def AlikeAttr (attr other : String × List String) : Prop :=
  attr.1 = other.1 ∧ (attr.2 = other.2 ∨ attr.1 = "userpassword" ∧
    List.Forall₂ (fun value text => passwordScheme value = passwordScheme text) attr.2 other.2)

structure Alike (entry other : Entry) : Prop where
  dn : entry.dn = other.dn
  attrs : List.Forall₂ AlikeAttr entry.attrs other.attrs

/-- The names are written as `parseLDIF` writes them. -/
def Lowered (entry : Entry) : Prop := ∀ attr ∈ entry.attrs, toLowerCase attr.1 = attr.1

/-! ### The names that `parseLDIF` writes -/

theorem toLower_of_notAscii {char : Char} (notAscii : ¬ char.toNat < 128) : char.toLower = char := by
  unfold Char.toLower
  split
  case isTrue upper =>
    have bound : char.toNat ≤ 90 := UInt32.le_iff_toNat_le.mp upper.2
    exact absurd (Nat.lt_of_le_of_lt bound (by decide)) notAscii
  case isFalse => rfl

theorem lowerChar_of_mem {char low : Char} (member : low ∈ lowerChar char) : lowerChar low = [low] := by
  by_cases ascii : char.toNat < 128
  · have every : ((lowerChar char).all fun low => lowerChar low == [low]) = true :=
      @of_ascii (fun char => ((lowerChar char).all fun low => lowerChar low == [low]) = true) char
        ascii (by decide)
    exact eq_of_beq (List.all_eq_true.mp every low member)
  · rw [lowerChar, toLower_of_notAscii ascii] at member
    split at member
    case isTrue =>
      rcases List.mem_pair.mp member with rfl | rfl
      · decide
      · decide
    case isFalse notDotted =>
      split at member
      case isTrue =>
        cases List.mem_singleton.mp member
        decide
      case isFalse notKelvin =>
        cases List.mem_singleton.mp member
        rw [lowerChar, if_neg notDotted, if_neg notKelvin, toLower_of_notAscii ascii]

theorem toLowerCase_prefix {text : String} {front : List Char}
    (isPrefix : front <+: (toLowerCase text).toList) :
    toLowerCase (String.ofList front) = String.ofList front := by
  apply toLowerCase_eq_self
  intro char member
  rw [String.toList_ofList] at member
  have inText := isPrefix.subset member
  rw [toLowerCase, String.toList_ofList] at inText
  obtain ⟨_, _, inChar⟩ := List.mem_flatMap.mp inText
  exact lowerChar_of_mem inChar

/-- Every entry that is read so far. -/
def Parsing.AllLowered (parsing : Parsing) : Prop := ∀ entry ∈ parsing.finish.entries, Lowered entry

theorem Parsing.AllLowered.finish {parsing : Parsing} (all : parsing.AllLowered) :
    parsing.finish.AllLowered := by
  rw [Parsing.AllLowered, finish_finish]
  exact all

theorem Parsing.AllLowered.attribute {parsing next : Parsing} {lineNo : Nat} {name value : String}
    (all : parsing.AllLowered)
    (read : parsing.attribute lineNo (toLowerCase name) value = .ok next) : next.AllLowered := by
  rw [Parsing.attribute] at read
  split at read
  case isTrue =>
    cases read
    intro entry member
    rcases List.mem_append.mp member with before | here
    · exact all entry before
    · cases List.mem_singleton.mp here
      exact fun _ inNone => absurd inNone List.not_mem_nil
  case isFalse =>
    split at read
    case h_1 =>
      cases read
      exact all
    case h_2 current isCurrent =>
      simp only at read
      split at read
      case isTrue => contradiction
      case isFalse =>
        split at read
        case isTrue => contradiction
        case isFalse =>
          cases read
          intro entry member
          rcases List.mem_append.mp member with before | here
          · exact all entry (List.mem_append_left _ before)
          · cases List.mem_singleton.mp here
            apply @forall_pushValue fun name => toLowerCase name = name
            · apply all
              rw [Parsing.finish, isCurrent]
              exact List.mem_append_right _ List.mem_cons_self
            · exact toLowerCase_prefix (List.takeWhile_prefix _)

theorem Parsing.AllLowered.line {parsing next : Parsing} {lineNo : Nat} {raw : List Char}
    (all : parsing.AllLowered) (read : parsing.line lineNo raw = .ok next) : next.AllLowered := by
  rw [Parsing.line] at read
  split at read
  · cases read
    exact all.finish
  · split at read
    · cases read
      exact all
    · split at read
      · cases read
        exact all
      · split at read
        · cases read
          exact all
        · split at read
          · contradiction
          · cases read
            exact all
          · exact all.attribute read

theorem allLowered_parseLines {lines : List (List Char)} {parsing last : Parsing} {lineNo : Nat}
    (all : parsing.AllLowered) (read : parseLines lineNo lines parsing = .ok last) :
    last.AllLowered := by
  induction lines generalizing parsing lineNo with
  | nil =>
      cases read
      exact all
  | cons raw lines later =>
      rw [parseLines] at read
      split at read
      case h_1 next isNext => exact later (all.line isNext) read
      case h_2 => contradiction

theorem lowered_of_parseLDIF {text : Option String} {entries : List Entry}
    (parsed : parseLDIF text = .ok entries) : ∀ entry ∈ entries, Lowered entry := by
  cases text with
  | none =>
      cases parsed
      exact fun _ inNone => absurd inNone List.not_mem_nil
  | some text =>
      rw [parseLDIF] at parsed
      simp only at parsed
      split at parsed
      case h_1 => contradiction
      case h_2 parsing read =>
        split at parsed
        case h_1 => contradiction
        case h_2 =>
          cases parsed
          apply allLowered_parseLines _ read
          exact fun _ inNone => absurd inNone List.not_mem_nil

/-- The names an entry is asked for, other than the password's. -/
def Plain (name : String) : Prop := toLowerCase name ≠ "userpassword"

instance (name : String) : Decidable (Plain name) := inferInstanceAs (Decidable (_ ≠ _))

/-! ## The password -/

theorem passwordScheme_eq_empty {hash : String} (none : passwordScheme hash = "") : hash = "" := by
  simp only [passwordScheme] at none
  split at none
  case h_1 =>
    split at none
    case isTrue found =>
      rw [← String.toList_inj, String.toList_ofList] at none
      exact absurd (List.map_eq_nil_iff.mp none) found.1
    case isFalse => contradiction
  case h_2 nothing => exact String.toList_inj.mp nothing
  case h_3 => contradiction

section Password

variable {hash other : String} (same : passwordScheme hash = passwordScheme other)
include same

theorem empty_of_scheme : hash = "" ↔ other = "" := by
  constructor
  · intro empty
    apply passwordScheme_eq_empty
    rw [← same, empty]
    rfl
  · intro empty
    apply passwordScheme_eq_empty
    rw [same, empty]
    rfl

theorem passwordWarning_of_scheme : passwordWarning hash = passwordWarning other := by
  rw [passwordWarning, passwordWarning, same]
  simp only [empty_of_scheme same]

end Password

/-! ## What is read of an entry -/

theorem lookup_of_alike {attrs others : List (String × List String)} {name : String}
    (plain : name ≠ "userpassword") (alike : List.Forall₂ AlikeAttr attrs others) :
    attrs.lookup name = others.lookup name := by
  induction alike with
  | nil => rfl
  | @cons attr other _ _ here _ later =>
      obtain ⟨sameName, sameValues⟩ := here
      rw [List.lookup_cons, List.lookup_cons, ← sameName]
      cases found : name == attr.1 with
      | false => exact later
      | true =>
          rcases sameValues with sameValues | ⟨isPassword, -⟩
          · rw [sameValues]
          · rw [isPassword] at found
            exact absurd (eq_of_beq found) plain

theorem scheme_head {texts others : List String}
    (same : List.Forall₂ (fun text other => passwordScheme text = passwordScheme other) texts others) :
    passwordScheme (texts.head?.getD "") = passwordScheme (others.head?.getD "") := by
  cases same with
  | nil => rfl
  | cons first _ => exact first

theorem scheme_of_alike {attrs others : List (String × List String)}
    (alike : List.Forall₂ AlikeAttr attrs others) :
    passwordScheme (((attrs.lookup "userpassword").bind List.head?).getD "") =
      passwordScheme (((others.lookup "userpassword").bind List.head?).getD "") := by
  induction alike with
  | nil => rfl
  | @cons attr other _ _ here _ later =>
      obtain ⟨sameName, sameValues⟩ := here
      rw [List.lookup_cons, List.lookup_cons, ← sameName]
      cases found : "userpassword" == attr.1 with
      | false => exact later
      | true =>
          rcases sameValues with sameValues | ⟨-, sameSchemes⟩
          · rw [sameValues]
          · change passwordScheme (attr.2.head?.getD "") = passwordScheme (other.2.head?.getD "")
            exact scheme_head sameSchemes

theorem names_of_alike {attrs others : List (String × List String)}
    (alike : List.Forall₂ AlikeAttr attrs others) :
    attrs.map Prod.fst = others.map Prod.fst := by
  induction alike with
  | nil => rfl
  | cons here _ later => rw [List.map_cons, List.map_cons, here.1, later]

section Entry

variable {entry other : Entry} (alike : Alike entry other)
include alike

theorem all_of_alike {name : String} (plain : Plain name) : all entry name = all other name := by
  rw [all, all, lookup_of_alike plain alike.attrs]

theorem one_of_alike {name : String} (plain : Plain name) : one entry name = one other name := by
  rw [one, one, lookup_of_alike plain alike.attrs]

theorem scheme_one :
    passwordScheme (one entry "userPassword") = passwordScheme (one other "userPassword") := by
  have lowered : toLowerCase "userPassword" = "userpassword" := by decide
  rw [one, one, lowered]
  exact scheme_of_alike alike.attrs

theorem values_of_alike {name : String} (plain : Plain name) :
    values entry name = values other name := by
  rw [values, values, all_of_alike alike plain]

theorem pick_of_alike {candidates : List String} (plain : ∀ name ∈ candidates, Plain name) :
    pick entry candidates = pick other candidates := by
  induction candidates with
  | nil => rfl
  | cons name candidates later =>
      rw [pick, pick, List.findSome?_cons, List.findSome?_cons,
        values_of_alike alike (plain name List.mem_cons_self)]
      cases (values other name).head? with
      | some value => rfl
      | none => exact later fun name member => plain name (List.mem_cons_of_mem _ member)

theorem userFields_of_alike : userFields entry = userFields other := by
  rw [userFields, userFields]
  congr 1
  all_goals
    apply pick_of_alike alike
    decide

theorem objectClasses_of_alike : objectClasses entry = objectClasses other := by
  rw [objectClasses, objectClasses, all_of_alike alike (by decide)]

theorem unmappedAttrs_of_alike (lowered : Lowered entry) :
    unmappedAttrs entry = unmappedAttrs other := by
  rw [unmappedAttrs, unmappedAttrs, ← names_of_alike alike.attrs]
  apply List.filter_congr
  intro name member
  obtain ⟨attr, attrIn, rfl⟩ := List.mem_map.mp member
  by_cases isPassword : attr.1 = "userpassword"
  · rw [isPassword]
    rfl
  · have plain : Plain attr.1 := by
      rw [Plain, lowered attr attrIn]
      exact isPassword
    rw [values_of_alike alike plain]

end Entry

/-! ## The rows of users -/

section Rows

variable {profile : Profile} (existing : Existing) {seen : Seen} {entry other : Entry}
  (alike : Alike entry other) (plain : Plain profile.usernameAttr)
include alike plain

theorem blockingOf_of_alike :
    blockingOf profile existing seen entry = blockingOf profile existing seen other := by
  have uidNumber := one_of_alike alike (show Plain "uidNumber" by decide)
  have gidNumber := one_of_alike alike (show Plain "gidNumber" by decide)
  rw [blockingOf, blockingOf, one_of_alike alike plain, uidNumber, gidNumber]

theorem warningsOf_of_alike (lowered : Lowered entry) :
    warningsOf profile seen entry = warningsOf profile seen other := by
  have gidNumber := one_of_alike alike (show Plain "gidNumber" by decide)
  have cn := one_of_alike alike (show Plain "cn" by decide)
  rw [warningsOf, warningsOf, one_of_alike alike plain, gidNumber, cn,
    passwordWarning_of_scheme (scheme_one alike), unmappedAttrs_of_alike alike lowered,
    userFields_of_alike alike]

theorem next_of_alike : seen.next profile entry = seen.next profile other := by
  have uidNumber := one_of_alike alike (show Plain "uidNumber" by decide)
  have gidNumber := one_of_alike alike (show Plain "gidNumber" by decide)
  rw [Seen.next, Seen.next, one_of_alike alike plain, uidNumber, gidNumber,
    userFields_of_alike alike, alike.dn]

theorem planUser_of_alike (lowered : Lowered entry) :
    (planUser profile existing seen entry).redacted =
      (planUser profile existing seen other).redacted := by
  have uidNumber := one_of_alike alike (show Plain "uidNumber" by decide)
  have gidNumber := one_of_alike alike (show Plain "gidNumber" by decide)
  have locked := one_of_alike alike (show Plain "pwdAccountLockedTime" by decide)
  have sshPublicKey := values_of_alike alike (show Plain "sshPublicKey" by decide)
  have host := values_of_alike alike (show Plain "sudoHost" by decide)
  have command := values_of_alike alike (show Plain "sudoCommand" by decide)
  have user := values_of_alike alike (show Plain "sudoUser" by decide)
  simp only [PlannedUser.redacted, planUser, alike.dn, one_of_alike alike plain, uidNumber,
    gidNumber, locked, sshPublicKey, host, command, user, userFields_of_alike alike,
    scheme_one alike, empty_of_scheme (scheme_one alike), ne_eq,
    blockingOf_of_alike existing alike plain, warningsOf_of_alike alike plain lowered]

end Rows

theorem planUsers_of_alike {profile : Profile} (existing : Existing) {entries others : List Entry}
    (plain : Plain profile.usernameAttr) (alike : List.Forall₂ Alike entries others)
    (lowered : ∀ entry ∈ entries, Lowered entry) (seen : Seen) :
    (planUsers profile existing seen entries).map (·.redacted) =
      (planUsers profile existing seen others).map (·.redacted) := by
  induction alike generalizing seen with
  | nil => rfl
  | cons here _ later =>
      obtain ⟨first, rest⟩ := List.forall_mem_cons.mp lowered
      rw [planUsers, planUsers, List.map_cons, List.map_cons, later rest,
        planUser_of_alike existing here plain first, next_of_alike here plain]

/-! ## Groups -/

theorem map_of_alike {α : Type} {read readOther : Entry → α} {entries others : List Entry}
    (same : ∀ {entry other}, Alike entry other → read entry = readOther other)
    (alike : List.Forall₂ Alike entries others) : entries.map read = others.map readOther := by
  induction alike with
  | nil => rfl
  | cons here _ later => rw [List.map_cons, List.map_cons, same here, later]

theorem filter_of_alike {keep : Entry → Bool} {entries others : List Entry}
    (same : ∀ {entry other}, Alike entry other → keep entry = keep other)
    (alike : List.Forall₂ Alike entries others) :
    List.Forall₂ Alike (entries.filter keep) (others.filter keep) := by
  induction alike with
  | nil => exact .nil
  | cons here _ later =>
      rw [List.filter_cons, List.filter_cons, same here]
      split
      · exact .cons here later
      · exact later

theorem isUser_of_alike (profile : Profile) {entry other : Entry} (alike : Alike entry other) :
    isUser profile entry = isUser profile other := by
  rw [isUser, isUser, objectClasses_of_alike alike]

theorem isGroup_of_alike (profile : Profile) {entry other : Entry} (alike : Alike entry other) :
    isGroup profile entry = isGroup profile other := by
  rw [isGroup, isGroup, objectClasses_of_alike alike]

theorem userEntries_of_alike (profile : Profile) {entries others : List Entry}
    (alike : List.Forall₂ Alike entries others) :
    List.Forall₂ Alike (userEntries profile entries) (userEntries profile others) :=
  filter_of_alike (isUser_of_alike profile) alike

section Groups

variable {profile : Profile} {entries others : List Entry} (plain : Plain profile.usernameAttr)
  (alike : List.Forall₂ Alike entries others)
include alike plain

theorem dnToUsername_of_alike : dnToUsername profile entries = dnToUsername profile others := by
  funext dn
  have pairs (list : List Entry) : (list.find? fun entry => lc entry.dn = lc dn).map (fun entry =>
      one entry profile.usernameAttr) = ((list.map fun entry => (entry.dn, one entry
        profile.usernameAttr)).find? fun pair => lc pair.1 = lc dn).map Prod.snd := by
    rw [List.find?_map, Option.map_map]
    rfl
  have named := @filter_of_alike (fun entry => one entry profile.usernameAttr ≠ "") _ _
    (fun here => by rw [one_of_alike here plain]) (userEntries_of_alike profile alike)
  rw [dnToUsername, dnToUsername, pairs, pairs, List.map_reverse, List.map_reverse,
    map_of_alike (fun here => by rw [here.dn, one_of_alike here plain]) named]

theorem memberOf_of_alike : memberOf profile entries = memberOf profile others := by
  funext memberAttr value
  have usernames := map_of_alike (fun here => congrArg lc (one_of_alike here plain)) (userEntries_of_alike profile alike)
  have nested : (entries.any fun entry => lc entry.dn = lc value && isGroup profile entry) =
      others.any fun entry => lc entry.dn = lc value && isGroup profile entry := by
    have every (list : List Entry) (test : Entry → Bool) : list.any test = (list.map test).any id := by
      rw [List.any_map, Function.id_comp]
    rw [every, every, map_of_alike (fun here => by rw [here.dn, isGroup_of_alike profile here]) alike]
  rw [memberOf, memberOf, usernames, dnToUsername_of_alike plain alike, nested]

omit alike plain in
theorem memberAttr_of_alike (plainMembers : Plain profile.memberAttr) {entry other : Entry}
    (here : Alike entry other) :
    ([profile.memberAttr, "member", "uniquemember", "memberuid"].find? fun attr =>
        all entry attr ≠ []) =
      [profile.memberAttr, "member", "uniquemember", "memberuid"].find? fun attr =>
        all other attr ≠ [] := by
  have member := all_of_alike here (show Plain "member" by decide)
  have uniquemember := all_of_alike here (show Plain "uniquemember" by decide)
  have memberuid := all_of_alike here (show Plain "memberuid" by decide)
  simp only [List.find?_cons, all_of_alike here plainMembers, member, uniquemember, memberuid,
    List.find?_nil]

omit alike plain in
theorem plain_memberAttr (plainMembers : Plain profile.memberAttr) (test : String → Bool) :
    Plain (([profile.memberAttr, "member", "uniquemember", "memberuid"].find? test).getD
      profile.memberAttr) := by
  have plainAll : ∀ attr ∈ ["member", "uniquemember", "memberuid"], Plain attr := by decide
  cases found : [profile.memberAttr, "member", "uniquemember", "memberuid"].find? test with
  | none => exact plainMembers
  | some attr =>
      cases List.mem_of_find?_eq_some found with
      | head => exact plainMembers
      | tail _ member => exact plainAll attr member

theorem planGroup_of_alike (plainMembers : Plain profile.memberAttr) {entry other : Entry}
    (here : Alike entry other) :
    planGroup profile entries entry = planGroup profile others other := by
  have cn := one_of_alike here (show Plain "cn" by decide)
  have ou := one_of_alike here (show Plain "ou" by decide)
  have gidNumber := one_of_alike here (show Plain "gidNumber" by decide)
  have description := one_of_alike here (show Plain "description" by decide)
  have primaryGids := map_of_alike
    (fun here => one_of_alike here (show Plain "gidNumber" by decide)) (userEntries_of_alike profile alike)
  simp only [planGroup, here.dn, cn, ou, gidNumber, description, primaryGids,
    memberAttr_of_alike plainMembers here, memberOf_of_alike plain alike,
    all_of_alike here (plain_memberAttr plainMembers _)]

end Groups

/-! ## The plan -/

theorem planStats_eq (entries : List Entry) (plan : ImportPlan) :
    planStats entries plan =
      { entries := entries.length
        users := (plan.users.map (·.redacted)).length
        importable := ((plan.users.map (·.redacted)).filter fun user => user.blocking.isEmpty).length
        blocked := ((plan.users.map (·.redacted)).filter fun user => !user.blocking.isEmpty).length
        groups := plan.groups.length
        personalGroups := plan.personalGroups.length
        skipped := plan.skipped.length } := by
  rw [List.filter_map, List.filter_map, List.length_map, List.length_map, List.length_map]
  rfl

def annWith (password : String) : Entry :=
  ⟨"uid=ann", [("objectclass", ["posixAccount"]), ("uid", ["ann"]), ("userpassword", [password])]⟩

end ThetaDirectory.Migration
