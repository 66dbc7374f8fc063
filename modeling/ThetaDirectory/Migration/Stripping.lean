import ThetaDirectory.Migration.RoundTrip

/-!
# Stripping operational attributes

`stripOperationalAttrs` of `utils/site_join.js` takes the attributes that slapd maintains out of an
export, line by line, before the lines are unfolded.  What it takes out of a text of content records
are the lines of such attributes that are not folded in front of their colon.
-/

namespace ThetaDirectory.Migration

open Library

def OPERATIONAL_ATTRS : List String :=
  ["structuralobjectclass", "entryuuid", "creatorsname", "createtimestamp", "entrycsn",
    "modifiersname", "modifytimestamp", "contextcsn", "subschemasubentry", "hassubordinates",
    "entrydn", "nsuniqueid", "pwdchangedtime", "pwdfailuretime", "pwdaccountlockedtime", "memberof"]

/-- `colon > 0 ? line.slice(0, colon) : ''` -/
def nameOf (line : List Char) : String :=
  if ':' ∈ line then String.ofList (line.takeWhile (· ≠ ':')) else ""

/-- The loop over the lines of the text. -/
def stripLines : Bool → List (List Char) → List (List Char)
  | _, [] => []
  | dropping, line :: lines =>
      if line.head? = some ' ' then
        if dropping then stripLines dropping lines else line :: stripLines dropping lines
      else if OPERATIONAL_ATTRS.contains (toLowerCase (nameOf line)) then stripLines true lines
      else line :: stripLines false lines

def stripOperationalAttrs (ldif : Option String) : String :=
  String.ofList (['\n'].intercalate (stripLines false ((ldif.getD "").toList.splitOn '\n')))

/-- The entry without its operational attributes. -/
def Entry.stripped (entry : Entry) : Entry :=
  { entry with attrs := entry.attrs.filter fun attr => !OPERATIONAL_ATTRS.contains attr.1 }

/-! ## Content records -/

/-- What stands behind the colon of a line, the spaces in front of a value included. -/
inductive Spec where
  | plain (text : List Char)
  | base64 (fill : Nat) (octets : List UInt8)

def Spec.text : Spec → List Char
  | .plain text => ':' :: text
  | .base64 fill octets =>
      ':' :: ':' :: (List.replicate fill ' ' ++ Octets.base64Encode octets)

/-- A plain value is on one line, and its first character tells it from the other forms. -/
def Spec.Allowed : Spec → Prop
  | .plain text => OneLine text ∧ ∀ char ∈ text.head?, char ≠ ':' ∧ char ≠ '<'
  | .base64 _ _ => True

def Spec.read : Spec → String
  | .plain text => String.ofList (dropSpace text)
  | .base64 _ octets => String.ofList (Octets.utf8Decode octets)

/-- A line of an attribute without options. -/
structure Attribute where
  base : List Char
  spec : Spec
  named : IsName base
  allowed : spec.Allowed
  reserved : toLowerCase (String.ofList base) ≠ "dn" ∧ toLowerCase (String.ofList base) ≠ "changetype"

def Attribute.key (own : Attribute) : String := toLowerCase (String.ofList own.base)

structure Distinguished where
  keyword : List Char
  spec : Spec
  isDn : keyword.map Char.toLower = ['d', 'n']
  allowed : spec.Allowed

inductive ContentLine where
  | empty
  | comment (remark : Comment)
  | version (line : VersionLine)
  | dn (line : Distinguished)
  | attr (line : Attribute)

def ContentLine.text : ContentLine → List Char
  | .empty => []
  | .comment remark => '#' :: remark.text
  | .version line => line.text
  | .dn line => line.keyword ++ line.spec.text
  | .attr line => line.base ++ line.spec.text

def ContentLine.operational : ContentLine → Bool
  | .attr line => OPERATIONAL_ATTRS.contains line.key
  | _ => false

/-- Attributes stand in the record that a DN opens and an empty line ends. -/
def InRecords : Bool → List ContentLine → Prop
  | _, [] => True
  | _, .empty :: lines => InRecords false lines
  | _, .dn _ :: lines => InRecords true lines
  | inRecord, .attr _ :: lines => inRecord = true ∧ InRecords inRecord lines
  | inRecord, _ :: lines => InRecords inRecord lines

/-- A line as it stands in the text: a first piece, and further ones behind a line feed and a
space. -/
structure Written where
  line : ContentLine
  first : List Char
  rest : List (List Char)
  whole : first ++ rest.flatten = line.text
  started : first = [] → rest = []

/-- The lines of the text. -/
def Written.pieces (written : Written) : List (List Char) :=
  written.first :: written.rest.map fun piece => ' ' :: piece

def writtenText (content : List Written) : String :=
  String.ofList ((content.flatMap Written.pieces).flatMap (· ++ ['\n']))

/-- Is the line taken out? -/
def Written.dropped (written : Written) : Bool :=
  written.line.operational && written.first.contains ':'

/-- The text means the same without the lines as it does without the attributes. -/
def Agrees (text : String) : Prop :=
  parseLDIF (some (stripOperationalAttrs (some text))) =
    (parseLDIF (some text)).map (List.map Entry.stripped)

/-! ## The text -/

theorem splitOn_lines (pieces : List (List Char)) (oneLine : ∀ piece ∈ pieces, OneLine piece) :
    (pieces.flatMap (· ++ ['\n'])).splitOn '\n' = pieces ++ [[]] := by
  induction pieces with
  | nil => rfl
  | cons piece pieces ih =>
      obtain ⟨here, later⟩ := List.forall_mem_cons.mp oneLine
      rw [List.flatMap_cons, List.append_assoc, List.singleton_append, splitOn_append here, ih later]
      rfl

theorem intercalate_lines (pieces : List (List Char)) :
    ['\n'].intercalate (pieces ++ [[]]) = pieces.flatMap (· ++ ['\n']) := by
  induction pieces with
  | nil => rfl
  | cons piece pieces ih =>
      rw [List.cons_append, List.intercalate_cons_of_ne_nil (by simp), ih, List.flatMap_cons,
        List.append_assoc]

/-- The loop goes on with the same decision in the rest of a line. -/
theorem stripLines_rest (dropping : Bool) (rest : List (List Char)) (lines : List (List Char)) :
    stripLines dropping (rest.map (fun piece => ' ' :: piece) ++ lines) =
      (if dropping then [] else rest.map fun piece => ' ' :: piece) ++ stripLines dropping lines := by
  induction rest with
  | nil => cases dropping <;> rfl
  | cons piece rest ih =>
      rw [List.map_cons, List.cons_append, stripLines, if_pos (show (' ' :: piece).head? = some ' ' from rfl), ih]
      cases dropping <;> rfl

/-! ## Names -/

theorem toLowerCase_keyword {keyword word : List Char} (isWord : keyword.map Char.toLower = word)
    (ascii : word.all (·.toNat < 128) = true) :
    toLowerCase (String.ofList keyword) = String.ofList word := by
  rw [toLowerCase, String.toList_ofList]
  apply congrArg
  induction keyword generalizing word with
  | nil => exact isWord
  | cons char keyword ih =>
      subst isWord
      rw [List.map_cons, List.all_cons, Bool.and_eq_true] at ascii
      have bound : char.toLower.toNat < 128 := of_decide_eq_true ascii.1
      have plain : char.toLower ≠ Char.ofNat 0x130 ∧ char.toLower ≠ Char.ofNat 0x212A := by
        constructor
        all_goals
          intro same
          rw [same] at bound
          exact absurd bound (by decide)
      rw [List.flatMap_cons, lowerChar_eq rfl plain, ih rfl ascii.2]
      rfl

theorem colon_notMem_base (own : Attribute) : ':' ∉ own.base :=
  fun member => (nameChar_spec (typeChar_ne (own.named.2 ':' member)).1).1.1 rfl

theorem takeWhile_spec {label : List Char} (spec : Spec) (free : ':' ∉ label) :
    (label ++ spec.text).takeWhile (· ≠ ':') = label := by
  cases spec with
  | plain text => exact (@parseLine_mark label text free).1
  | base64 fill octets => exact (@parseLine_mark label (':' :: _) free).1

/-- The name in front of the colon tells the lines of operational attributes. -/
theorem operational_name (line : ContentLine) :
    OPERATIONAL_ATTRS.contains (toLowerCase (String.ofList (line.text.takeWhile (· ≠ ':')))) =
      line.operational := by
  cases line with
  | empty => decide
  | comment remark =>
      have marked : ∀ name ∈ OPERATIONAL_ATTRS, name.toList.head? ≠ some '#' := by decide
      apply Bool.eq_false_iff.mpr
      intro listed
      apply marked _ (List.contains_iff_mem.mp listed)
      rw [toLowerCase, String.toList_ofList, String.toList_ofList]
      rfl
  | version version =>
      have free : ':' ∉ version.keyword := keyword_notMem version.isVersion (by decide)
      rw [ContentLine.text, VersionLine.text, (@parseLine_mark version.keyword _ free).1,
        toLowerCase_keyword version.isVersion (by decide)]
      change OPERATIONAL_ATTRS.contains (String.ofList "version".toList) = false
      decide
  | dn dn =>
      have free : ':' ∉ dn.keyword := keyword_notMem dn.isDn (by decide)
      rw [ContentLine.text, takeWhile_spec dn.spec free, toLowerCase_keyword dn.isDn (by decide)]
      change OPERATIONAL_ATTRS.contains (String.ofList ['d', 'n']) = false
      decide
  | attr own =>
      rw [ContentLine.text, takeWhile_spec own.spec (colon_notMem_base own)]
      rfl

theorem nameOf_first (written : Written) (colon : ':' ∈ written.first) :
    nameOf written.first = String.ofList (written.line.text.takeWhile (· ≠ ':')) := by
  obtain ⟨front, back, isFirst, free⟩ := List.eq_append_cons_of_mem colon
  rw [nameOf, if_pos colon, ← written.whole, isFirst, List.append_assoc, List.cons_append,
    (@parseLine_mark front _ free).1, (@parseLine_mark front _ free).1]

theorem dropped_eq (written : Written) :
    OPERATIONAL_ATTRS.contains (toLowerCase (nameOf written.first)) = written.dropped := by
  rw [Written.dropped]
  by_cases colon : ':' ∈ written.first
  · rw [nameOf_first written colon, operational_name, List.contains_iff_mem.mpr colon, Bool.and_true]
  · have none : written.first.contains ':' = false :=
      Bool.eq_false_iff.mpr fun listed => colon (List.contains_iff_mem.mp listed)
    rw [nameOf, if_neg colon, none, Bool.and_false]
    decide

/-! ## Lines -/

theorem oneLine_spec {spec : Spec} (allowed : spec.Allowed) : OneLine spec.text := by
  cases spec with
  | plain text => exact List.forall_mem_cons.mpr ⟨by decide, allowed.1⟩
  | base64 fill octets =>
      exact List.forall_mem_cons.mpr ⟨by decide, List.forall_mem_cons.mpr ⟨by decide,
        OneLine.append (oneLine_spaces fill) (oneLine_base64 octets)⟩⟩

theorem whole_line (line : ContentLine) : Whole line.text := by
  cases line with
  | empty => exact whole_gap .empty
  | comment remark => exact whole_remark remark
  | version version => exact whole_version version
  | dn dn => exact whole_keyword dn.isDn (by decide) (by decide) (oneLine_spec dn.allowed)
  | attr own =>
      have plain (char : Char) (member : char ∈ own.base) :=
        (nameChar_spec (typeChar_ne (own.named.2 char member)).1).1
      constructor
      · exact OneLine.append (fun char member => (plain char member).2.2.2) (oneLine_spec own.allowed)
      · intro isSpace
        rw [ContentLine.text, List.head?_append_of_ne_nil _ own.named.1] at isSpace
        exact (plain ' ' (List.mem_of_mem_head? isSpace)).2.2.1 rfl

/-- The line, as the model of unfolding has it. -/
def Written.folded (written : Written) : Folded where
  first := written.first
  rest := written.rest.map fun piece => (.lf, piece)
  last := .lf
  started := fun none => by rw [written.started none]; rfl

theorem line_folded (written : Written) : written.folded.line = written.line.text := by
  rw [← written.whole, Folded.line, Written.folded]
  simp [List.flatMap_map, List.flatMap_id']

theorem text_folded (written : Written) :
    written.folded.text = written.pieces.flatMap (· ++ ['\n']) := by
  obtain ⟨line, first, rest, whole, started⟩ := written
  have pieces (front : List Char) : front ++ rest.flatMap (fun piece => '\n' :: ' ' :: piece) ++ ['\n'] =
      front ++ '\n' :: (rest.map fun piece => ' ' :: piece).flatMap (· ++ ['\n']) := by
    clear whole started
    induction rest generalizing front with
    | nil => rw [List.flatMap_nil, List.append_nil, List.map_nil, List.flatMap_nil]
    | cons piece rest ih =>
        have next := ih (front ++ '\n' :: ' ' :: piece)
        rw [List.flatMap_cons, ← List.append_assoc, next, List.map_cons, List.flatMap_cons,
          List.append_assoc, List.append_assoc]
        rfl
  refine Eq.trans (congrArg (first ++ · ++ ['\n']) (List.flatMap_map _ _ _)) ((pieces first).trans ?_)
  rw [Written.pieces, List.flatMap_cons, List.append_assoc]
  rfl

theorem pieces_oneLine (written : Written) : ∀ piece ∈ written.pieces, OneLine piece := by
  have whole := (whole_line written.line).1
  rw [← written.whole] at whole
  obtain ⟨first, rest⟩ := oneLine_append_iff.mp whole
  refine List.forall_mem_cons.mpr ⟨first, ?_⟩
  intro spaced member
  obtain ⟨piece, inRest, rfl⟩ := List.mem_map.mp member
  exact List.forall_mem_cons.mpr ⟨by decide, fun char inside =>
    rest char (List.mem_flatten.mpr ⟨piece, inRest, inside⟩)⟩

/-- What the loop makes of one line. -/
theorem stripLines_written (written : Written) (dropping : Bool) (lines : List (List Char)) :
    stripLines dropping (written.pieces ++ lines) =
      (if written.dropped then [] else written.pieces) ++ stripLines written.dropped lines := by
  have starts : written.first.head? ≠ some ' ' := by
    intro spaced
    apply (whole_line written.line).2
    rw [← written.whole, List.head?_append, spaced]
    rfl
  rw [Written.pieces, List.cons_append, stripLines, if_neg starts, dropped_eq, stripLines_rest,
    stripLines_rest]
  cases written.dropped <;> rfl

theorem stripLines_content (content : List Written) (dropping : Bool) :
    stripLines dropping (content.flatMap Written.pieces ++ [[]]) =
      (content.filter fun written => !written.dropped).flatMap Written.pieces ++ [[]] := by
  induction content generalizing dropping with
  | nil =>
      rw [List.flatMap_nil, List.nil_append, stripLines, if_neg (by decide), nameOf,
        if_neg List.not_mem_nil, if_neg (by decide)]
      rfl
  | cons written content ih =>
      rw [List.flatMap_cons, List.append_assoc, stripLines_written, ih, List.filter_cons]
      cases written.dropped with
      | true => rfl
      | false => exact (List.append_assoc _ _ _).symm

theorem strip_writtenText (content : List Written) :
    stripOperationalAttrs (some (writtenText content)) =
      writtenText (content.filter fun written => !written.dropped) := by
  have oneLine : ∀ piece ∈ content.flatMap Written.pieces, OneLine piece := by
    intro piece member
    obtain ⟨written, -, inPieces⟩ := List.mem_flatMap.mp member
    exact pieces_oneLine written piece inPieces
  rw [stripOperationalAttrs, Option.getD_some, writtenText, String.toList_ofList,
    splitOn_lines _ oneLine, stripLines_content, intercalate_lines]
  rfl

theorem unfoldLines_writtenText (content : List Written) :
    unfoldLines (writtenText content).toList =
      content.map (fun written => written.line.text) ++ [[]] := by
  have whole : ∀ folded ∈ content.map Written.folded, Whole folded.line := by
    intro folded member
    obtain ⟨written, -, rfl⟩ := List.mem_map.mp member
    rw [line_folded]
    exact whole_line written.line
  have same : (writtenText content).toList = (content.map Written.folded).flatMap Folded.text := by
    rw [writtenText, String.toList_ofList, List.flatMap_assoc, List.flatMap_map]
    simp only [text_folded]
  rw [same, unfoldLines_layout _ (fun folded member => (whole folded member).1)
    fun folded member => (whole folded member).2, List.map_map]
  exact congrArg (· ++ [[]]) (List.map_congr_left fun written _ => line_folded written)

end ThetaDirectory.Migration
