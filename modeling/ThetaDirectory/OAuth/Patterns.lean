import ThetaDirectory.Library.Escapes
import ThetaDirectory.Library.Languages
import ThetaDirectory.Library.Replacement
import ThetaDirectory.Text

/-!
# Redirect addresses

`redirectUriAllowed` of `routes/oauth.js`.  A registered address may have `*` for one label of a
host name and `**` for anything; placeholders carry both through the escaping of the rest into a
regular expression.
-/

namespace ThetaDirectory.OAuth

open Library Library.RegExp Library.Replacement

/-- `text.split(mark).join(filler)` -/
def splitJoin (mark filler text : String) : String :=
  String.ofList (replaceAll mark.toList filler.toList text.toList)

def escapeChar (char : Char) : List Char := if char ∈ specials then ['\\', char] else [char]

def placeholderDouble : String := " WILDCARD_DOUBLE "

def placeholderSingle : String := " WILDCARD_SINGLE "

def regexStr (pattern : String) : String :=
  let placeholderized := splitJoin "*" placeholderSingle (splitJoin "**" placeholderDouble pattern)
  let escaped := String.ofList (placeholderized.toList.flatMap escapeChar)
  "^" ++ splitJoin placeholderSingle "[^./]+" (splitJoin placeholderDouble ".*" escaped) ++ "$"

def redirectUriAllowed (engine : String → Option (String → Bool)) (patterns : List String)
    (uri : Option String) : Bool :=
  match truthy uri with
  | none => false
  | some uri => patterns.any fun pattern =>
      pattern == uri ||
        pattern.toList.contains '*' &&
          match regExpEscapes engine (regexStr pattern) with
          | some test => test uri
          | none => false

/-! ## What a registered address means -/

inductive Wild where
  | any
  | label
  | literal (char : Char)
  deriving DecidableEq, Repr

def wildcards : List Char → List Wild
  | '*' :: '*' :: rest => .any :: wildcards rest
  | '*' :: rest => .label :: wildcards rest
  | char :: rest => .literal char :: wildcards rest
  | [] => []

/-- What a label of a host name may have. -/
def isLabelUnit (unit : UInt16) : Bool := unit != 46 && unit != 47

def Wild.language : Wild → Language UInt16
  | .any => runsOf fun unit => !isLineEnd unit
  | .label => {taken | taken ≠ [] ∧ taken ∈ runsOf isLabelUnit}
  | .literal char => {Utf16.ofChar char}

/-- The addresses that a registered one stands for. -/
def addresses (pattern : String) : Language UInt16 :=
  ((wildcards pattern.toList).map Wild.language).prod

/-- A registered address that the placeholders cannot be confused with. -/
structure Plain (pattern : String) : Prop where
  unspaced : ' ' ∉ pattern.toList
  unmarked : ¬ "WILDCARD_".toList <:+: pattern.toList

/-! ## The stages of the translation -/

namespace Wild

def source : Wild → List Char
  | .any => ['*', '*']
  | .label => ['*']
  | .literal char => [char]

/-- Behind the replacement of the pairs of stars. -/
def paired : Wild → List Char
  | .any => placeholderDouble.toList
  | .label => ['*']
  | .literal char => [char]

def marked : Wild → List Char
  | .any => placeholderDouble.toList
  | .label => placeholderSingle.toList
  | .literal char => [char]

def escaped : Wild → List Char
  | .any => placeholderDouble.toList
  | .label => placeholderSingle.toList
  | .literal char => escapeChar char

/-- Behind the replacement of the first placeholder. -/
def halfway : Wild → List Char
  | .any => ".*".toList
  | .label => placeholderSingle.toList
  | .literal char => escapeChar char

def regex : Wild → List Char
  | .any => ".*".toList
  | .label => "[^./]+".toList
  | .literal char => escapeChar char

def nodes : Wild → List Node
  | .any => [.star .any]
  | .label => [.seq (.set true [(46, 46), (47, 47)]) (.star (.set true [(46, 46), (47, 47)]))]
  | .literal char => (Utf16.ofChar char).map Node.unit

end Wild

variable {chars : List Char} {pieces : List Wild} {pattern uri : String}

theorem wildcards_source (chars : List Char) : (wildcards chars).flatMap Wild.source = chars := by
  induction chars using wildcards.induct with
  | case1 rest ih => simp [wildcards, Wild.source, ih]
  | case2 rest single ih =>
      rw [wildcards]
      · simp [Wild.source, ih]
      · exact single
  | case3 char rest notDouble notSingle ih =>
      rw [wildcards]
      · simp [Wild.source, ih]
      · exact notDouble
      · exact notSingle
  | case4 => rfl

theorem char_mem_wildcards {char : Char} (listed : Wild.literal char ∈ wildcards chars) :
    char ≠ '*' ∧ char ∈ chars := by
  induction chars using wildcards.induct with
  | case1 rest ih =>
      rw [wildcards] at listed
      have found := ih (by simpa using listed)
      exact ⟨found.1, List.mem_cons_of_mem _ (List.mem_cons_of_mem _ found.2)⟩
  | case2 rest single ih =>
      rw [wildcards] at listed
      · have found := ih (by simpa using listed)
        exact ⟨found.1, List.mem_cons_of_mem _ found.2⟩
      · exact single
  | case3 other rest notDouble notSingle ih =>
      rw [wildcards] at listed
      · rcases List.mem_cons.mp listed with same | later
        · cases same
          exact ⟨fun star => notSingle star, List.mem_cons_self⟩
        · exact ⟨(ih later).1, List.mem_cons_of_mem _ (ih later).2⟩
      · exact notDouble
      · exact notSingle
  | case4 => cases listed

/-- The first placeholder stands for the pairs of stars, and the second one for the other stars. -/
theorem placeholderized_eq (chars : List Char) :
    replaceAll ['*'] placeholderSingle.toList
        (replaceAll ['*', '*'] placeholderDouble.toList chars) =
      (wildcards chars).flatMap Wild.marked := by
  have pairs : replaceAll ['*', '*'] placeholderDouble.toList chars =
      (wildcards chars).flatMap Wild.paired := by
    induction chars using wildcards.induct with
    | case1 rest ih =>
        rw [wildcards, List.flatMap_cons, ← ih]
        exact replaceAll_mark (List.cons_ne_nil _ _) rest
    | case2 rest single ih =>
        rw [wildcards, List.flatMap_cons, ← ih]
        · apply replaceAll_cons
          intro occurs
          obtain ⟨back, same⟩ := (List.cons_prefix_cons.mp occurs).2
          exact single back same.symm
        · exact single
    | case3 char rest notDouble notSingle ih =>
        rw [wildcards, List.flatMap_cons, ← ih]
        · exact replaceAll_cons fun occurs => notSingle (List.cons_prefix_cons.mp occurs).1.symm
        · exact notDouble
        · exact notSingle
    | case4 => rfl
  rw [pairs, replaceAll_singleton, List.flatMap_assoc]
  apply List.flatMap_congr
  intro piece listed
  cases piece with
  | any => decide
  | label => decide
  | literal char =>
      have different := (char_mem_wildcards listed).1
      simp [Wild.paired, Wild.marked, different]

theorem escaped_eq (pieces : List Wild) :
    (pieces.flatMap Wild.marked).flatMap escapeChar = pieces.flatMap Wild.escaped := by
  rw [List.flatMap_assoc]
  apply List.flatMap_congr
  intro piece listed
  cases piece with
  | any => decide
  | label => decide
  | literal char => simp [Wild.marked, Wild.escaped]

/-- The pieces have no space, and their source does not have the word of the placeholders. -/
def Clear (pieces : List Wild) : Prop :=
  Wild.literal ' ' ∉ pieces ∧ ¬ "WILDCARD_".toList <:+: pieces.flatMap Wild.source

theorem Clear.tail {piece : Wild} (clear : Clear (piece :: pieces)) : Clear pieces :=
  ⟨fun listed => clear.1 (List.mem_cons_of_mem _ listed), fun occurs =>
    clear.2 (occurs.trans (List.suffix_append _ _).isInfix)⟩

theorem Plain.clear (plain : Plain pattern) : Clear (wildcards pattern.toList) :=
  ⟨fun listed => plain.unspaced (char_mem_wildcards listed).2, by
    rw [wildcards_source]
    exact plain.unmarked⟩

theorem not_mem_escapeChar {char : Char} (different : char ≠ ' ') : ' ' ∉ escapeChar char := by
  unfold escapeChar
  split
  · simp [different.symm]
  · simp [different.symm]

/-- Plain characters in front of the escaped text are in front of the source. -/
theorem source_of_escaped {word : List Char} (plain : ∀ char ∈ word, char ≠ ' ' ∧ char ≠ '\\')
    (occurs : word <+: pieces.flatMap Wild.escaped) : word <+: pieces.flatMap Wild.source := by
  induction word generalizing pieces with
  | nil => exact List.nil_prefix
  | cons first word ih =>
      obtain ⟨here, others⟩ := List.forall_mem_cons.mp plain
      cases pieces with
      | nil => cases List.prefix_nil.mp occurs
      | cons piece pieces =>
          rw [List.flatMap_cons] at occurs ⊢
          cases piece with
          | any => exact absurd (List.cons_prefix_cons.mp occurs).1 here.1
          | label => exact absurd (List.cons_prefix_cons.mp occurs).1 here.1
          | literal char =>
              simp only [Wild.escaped, escapeChar] at occurs
              split at occurs
              · exact absurd (List.cons_prefix_cons.mp occurs).1 here.2
              · obtain ⟨same, rest⟩ := List.cons_prefix_cons.mp occurs
                exact List.cons_prefix_cons.mpr ⟨same, ih others rest⟩

/-- Behind a single star no first placeholder is read off. -/
theorem not_double_behind_single (clear : Clear pieces) {back : List Char}
    (behind : back <:+ placeholderSingle.toList) (nonempty : back ≠ []) :
    ¬ placeholderDouble.toList <+: back ++ pieces.flatMap Wild.escaped := by
  intro occurs
  have framed : placeholderSingle.toList = ' ' :: ("WILDCARD_SINGLE".toList ++ [' ']) := by decide
  rw [framed] at behind
  rcases List.suffix_cons_iff.mp behind with whole | inner
  · rw [whole, ← framed] at occurs
    have same : placeholderDouble.toList <+: placeholderSingle.toList :=
      List.prefix_of_prefix_length_le occurs (List.prefix_append _ _) (by decide)
    revert same
    decide
  · have spaced : placeholderDouble.toList = ' ' :: "WILDCARD_DOUBLE ".toList := by decide
    rw [spaced] at occurs
    cases back with
    | nil => exact nonempty rfl
    | cons first back =>
        obtain ⟨same, rest⟩ := List.cons_prefix_cons.mp occurs
        rw [← same] at inner
        rw [suffix_framed (by decide) inner] at rest
        have word : "WILDCARD_".toList <+: "WILDCARD_DOUBLE ".toList := by decide
        exact clear.2 (source_of_escaped (by simp) (word.trans rest)).isInfix

theorem separate_double (clear : Clear pieces) :
    Separate placeholderDouble.toList ".*".toList Wild.escaped Wild.halfway pieces := by
  induction pieces with
  | nil => trivial
  | cons piece pieces ih =>
      refine ⟨?_, ih clear.tail⟩
      cases piece with
      | any => exact Or.inl ⟨rfl, rfl⟩
      | label => exact Or.inr ⟨rfl, fun back behind => not_double_behind_single clear.tail behind⟩
      | literal char =>
          refine Or.inr ⟨rfl, fun back behind nonempty => ?_⟩
          apply not_prefix_of_head ?_ behind nonempty
          exact not_mem_escapeChar fun same => clear.1 (same ▸ List.mem_cons_self)

theorem separate_single (clear : Clear pieces) :
    Separate placeholderSingle.toList "[^./]+".toList Wild.halfway Wild.regex pieces := by
  induction pieces with
  | nil => trivial
  | cons piece pieces ih =>
      refine ⟨?_, ih clear.tail⟩
      cases piece with
      | label => exact Or.inl ⟨rfl, rfl⟩
      | any =>
          exact Or.inr ⟨rfl, fun back behind nonempty =>
            not_prefix_of_head (by decide) behind nonempty⟩
      | literal char =>
          refine Or.inr ⟨rfl, fun back behind nonempty => ?_⟩
          apply not_prefix_of_head ?_ behind nonempty
          exact not_mem_escapeChar fun same => clear.1 (same ▸ List.mem_cons_self)

/-- The regular expression in pieces. -/
theorem regexStr_eq (plain : Plain pattern) :
    regexStr pattern =
      String.ofList (['^'] ++ (wildcards pattern.toList).flatMap Wild.regex ++ ['$']) := by
  have escaped : (replaceAll "*".toList placeholderSingle.toList
      (replaceAll "**".toList placeholderDouble.toList pattern.toList)).flatMap escapeChar =
        (wildcards pattern.toList).flatMap Wild.escaped := by
    rw [← escaped_eq, ← placeholderized_eq]
    rfl
  have body : replaceAll placeholderSingle.toList "[^./]+".toList
      (replaceAll placeholderDouble.toList ".*".toList
        ((wildcards pattern.toList).flatMap Wild.escaped)) =
          (wildcards pattern.toList).flatMap Wild.regex := by
    rw [replaceAll_pieces (by decide) (separate_double plain.clear),
      replaceAll_pieces (by decide) (separate_single plain.clear)]
  apply String.toList_inj.mp
  simp only [regexStr, splitJoin, String.toList_ofList, String.toList_append]
  rw [escaped, body]
  rfl

/-! ## What the regular expression matches -/

theorem spells_regex (piece : Wild) : Spells piece.regex piece.nodes := by
  cases piece with
  | any =>
      apply Reads.spells ?_ (by decide)
      intro level outer mode outside
      refine ⟨.quantified, rfl, ?_⟩
      rw [show Wild.any.regex = ['.', '*'] from rfl, List.foldlM_cons, step_outside outside]
      rfl
  | label =>
      apply Reads.spells ?_ (by decide)
      have inside : ∀ char ∈ "^./".toList, char ≠ ']' ∧ char ≠ '\\' := by simp
      exact Reads.oneOrMore inside rfl
  | literal char =>
      change Spells (escapeChar char) _
      by_cases special : char ∈ specials
      · rw [escapeChar, if_pos special]
        exact spells_escaped special
      · rw [escapeChar, if_neg special]
        have isLiteral : Literal [char] := List.forall_mem_singleton.mpr special
        have reads := Reads.literal isLiteral
        rw [List.flatMap_singleton] at reads
        exact reads.spells fun listed => special (List.mem_singleton.mp listed ▸ by decide)

theorem takes_nodes (piece : Wild) : Takes (seqOf piece.nodes) piece.language := by
  cases piece with
  | any => exact takes_anyRun
  | label =>
      have same : inSet true [(46, 46), (47, 47)] = isLabelUnit := by
        funext unit
        simp only [inSet, isLabelUnit, List.any_cons, List.any_nil, Bool.or_false]
        grind
      have takes := @takes_oneOrMore true [(46, 46), (47, 47)]
      rwa [same] at takes
  | literal char => exact takes_units _

theorem compileEscapes_regexStr (plain : Plain pattern) :
    compileEscapes (regexStr pattern) =
      .ok (seqOf (.start :: ((wildcards pattern.toList).flatMap Wild.nodes ++ [.stop]))) := by
  rw [regexStr_eq plain]
  apply compileEscapes_of_spells
  have start : Spells ['^'] [.start] := Reads.start.spells (by decide)
  have stop : Spells ['$'] [.stop] := Reads.stop.spells (by decide)
  have pieces : Spells ((wildcards pattern.toList).flatMap Wild.regex)
      ((wildcards pattern.toList).flatMap Wild.nodes) :=
    spells_flatMap fun piece _ => spells_regex piece
  exact (start.append pieces).append stop

/-- The regular expression accepts the addresses that the registered one stands for. -/
theorem test_regexStr (plain : Plain pattern) (engine : String → Option (String → Bool)) :
    ∃ test, regExpEscapes engine (regexStr pattern) = some test ∧
      ∀ text, test text = true ↔ Utf16.ofString text ∈ addresses pattern := by
  refine ⟨_, by rw [regExpEscapes, compileEscapes_regexStr plain], fun text => ?_⟩
  exact test_anchored_of_takes (takes_flatMap fun piece _ => takes_nodes piece)

/-- A registered address without a star stands for itself. -/
theorem mem_addresses_iff_eq (fixed : '*' ∉ pattern.toList) :
    Utf16.ofString uri ∈ addresses pattern ↔ uri = pattern := by
  have singles (chars : List Char) (fixed : '*' ∉ chars) :
      ((wildcards chars).map Wild.language).prod = {chars.flatMap Utf16.ofChar} := by
    induction chars with
    | nil => rfl
    | cons char chars ih =>
        obtain ⟨different, others⟩ := not_or.mp (mt List.mem_cons.mpr fixed)
        have first : wildcards (char :: chars) = .literal char :: wildcards chars := by
          rw [wildcards]
          · exact fun _ same => absurd same.symm different
          · exact fun same => absurd same.symm different
        rw [first, List.map_cons, List.prod_cons, ih others]
        ext text
        rw [Language.mem_mul]
        constructor
        · rintro ⟨front, rfl, back, rfl, rfl⟩
          rfl
        · rintro rfl
          exact ⟨_, rfl, _, rfl, rfl⟩
  unfold addresses
  rw [singles _ fixed]
  exact Utf16.ofString_inj

end ThetaDirectory.OAuth
