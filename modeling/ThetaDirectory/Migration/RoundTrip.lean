import ThetaDirectory.Migration.Reading

/-!
# The round trip of a document

`parseLDIF` on a text of a document gives back the entries exactly when no line of the document is
misread.
-/

namespace ThetaDirectory.Migration

open Library

variable {encoding : Encoding} {value : String} {record : Record} {entry : Entry}
  {document : Document} {text : String} {entries : List Entry}

/-! ## Lines of a document -/

theorem oneLine_spaces (fill : Nat) : OneLine (List.replicate fill ' ') := by
  intro char member
  rw [List.eq_of_mem_replicate member]
  decide

theorem oneLine_base64 (octets : List UInt8) : OneLine (Octets.base64Encode octets) := by
  intro char member
  obtain ⟨digits, count, isText, allDigits, -⟩ := Octets.base64Encode_shape octets
  rw [isText] at member
  rcases List.mem_append.mp member with inDigits | inMarks
  · have notSpace := isSpace_digit64 (allDigits char inDigits)
    constructor <;> rintro rfl <;> exact absurd notSpace (by decide)
  · rw [List.eq_of_mem_replicate inMarks]
    decide

theorem oneLine_write (allowed : encoding.Allowed value) : OneLine (encoding.write value) := by
  cases encoding with
  | plain fill =>
      have safe : IsSafe value.toList := allowed
      refine List.forall_mem_cons.mpr ⟨by decide, OneLine.append (oneLine_spaces fill) ?_⟩
      exact fun char member => (safe.all char member).2.2
  | base64 fill =>
      exact List.forall_mem_cons.mpr ⟨by decide, List.forall_mem_cons.mpr ⟨by decide,
        OneLine.append (oneLine_spaces fill) (oneLine_base64 _)⟩⟩

/-- A line that `unfold` keeps as it is. -/
def Whole (line : List Char) : Prop := OneLine line ∧ Starts line

theorem whole_remark (remark : Comment) : Whole ('#' :: remark.text) :=
  ⟨List.forall_mem_cons.mpr ⟨by decide, remark.oneLine⟩, fun isSpace => nomatch isSpace⟩

theorem whole_gap (gap : Gap) : Whole gap.text := by
  cases gap with
  | empty => exact ⟨fun _ member => (nomatch member), fun isSpace => nomatch isSpace⟩
  | comment remark => exact whole_remark remark

theorem whole_keyword {keyword word rest : List Char} (isWord : keyword.map Char.toLower = word)
    (some : word ≠ []) (plain : ' ' ∉ word ∧ '\n' ∉ word ∧ '\r' ∉ word) (oneLine : OneLine rest) :
    Whole (keyword ++ rest) := by
  constructor
  · refine OneLine.append (fun char member => ⟨?_, ?_⟩) oneLine
    · rintro rfl
      exact @keyword_notMem _ _ '\n' isWord plain.2.1 member
    · rintro rfl
      exact @keyword_notMem _ _ '\r' isWord plain.2.2 member
  · intro isSpace
    cases keyword with
    | nil => exact some isWord.symm
    | cons char keyword =>
        cases isSpace
        exact @keyword_notMem _ _ ' ' isWord plain.1 List.mem_cons_self

theorem whole_dn (dn : DnLine) : Whole dn.text :=
  whole_keyword dn.isDn (by decide) (by decide) (oneLine_write dn.allowed)

theorem whole_version (version : VersionLine) : Whole version.text := by
  refine whole_keyword version.isVersion (by decide) (by decide) ?_
  refine List.forall_mem_cons.mpr ⟨by decide, OneLine.append ?_ ?_⟩
  · intro char member
    rw [List.eq_of_mem_replicate member]
    decide
  · intro char member
    have notSpace := isSpace_digit (version.isNumber.2 char member)
    constructor <;> rintro rfl <;> exact absurd notSpace (by decide)

theorem whole_attr (line : AttrLine) : Whole line.text := by
  have plain (char : Char) (member : char ∈ line.name) := (nameChar_spec (line.isName char member)).1
  constructor
  · exact OneLine.append (fun char member => (plain char member).2.2.2) (oneLine_write line.allowed)
  · have first : ∃ char rest, line.name = char :: rest := by
      unfold AttrLine.name
      cases base : line.base with
      | nil => exact absurd base line.named.1
      | cons char rest => exact ⟨char, _, rfl⟩
    obtain ⟨char, rest, isName⟩ := first
    unfold AttrLine.text
    rw [isName]
    intro isSpace
    exact (plain char (isName ▸ List.mem_cons_self)).2.2.1 (Option.some.inj isSpace)

theorem whole_record {record : Record} : ∀ line ∈ record.lines, Whole line := by
  intro line member
  rcases List.mem_append.mp member with front | inGap
  · rcases List.mem_cons.mp front with rfl | inBody
    · exact whole_dn record.dn
    · obtain ⟨bodyLine, -, rfl⟩ := List.mem_map.mp inBody
      cases bodyLine with
      | comment remark => exact whole_remark remark
      | attr attrLine => exact whole_attr attrLine
  · obtain ⟨gap, -, rfl⟩ := List.mem_map.mp inGap
    exact whole_gap gap

theorem whole_lines (document : Document) : ∀ line ∈ document.lines, Whole line := by
  intro line member
  rcases List.mem_append.mp member with front | inRecords
  · rcases List.mem_append.mp front with head | inGap
    · rcases List.mem_append.mp head with inHead | isVersion
      · obtain ⟨gap, -, rfl⟩ := List.mem_map.mp inHead
        exact whole_gap gap
      · obtain ⟨version, -, rfl⟩ := List.mem_map.mp isVersion
        exact whole_version version
    · obtain ⟨gap, -, rfl⟩ := List.mem_map.mp inGap
      exact whole_gap gap
  · obtain ⟨record, -, inRecord⟩ := List.mem_flatMap.mp inRecords
    exact whole_record line inRecord

/-- The lines of a text are those of its document. -/
theorem unfoldLines_text {document : Document} {text : String} (isText : document.Text text) :
    unfoldLines text.toList = document.lines ++ [[]] := by
  obtain ⟨layout, laid, same⟩ := isText.folds
  have whole : ∀ folded ∈ layout, Whole folded.line := by
    intro folded listed
    exact whole_lines document _ (laid ▸ List.mem_map.mpr ⟨folded, listed, rfl⟩)
  rw [same, unfoldLines_layout layout (fun folded listed => (whole folded listed).1)
    fun folded listed => (whole folded listed).2, laid]

/-! ## Entries -/

theorem lookup_rendered (valid : entry.Valid) (renders : record.Renders entry) (name : String) :
    entry.attrs.lookup name =
      if valuesOf name record.attrLines = [] then none
      else some (valuesOf name record.attrLines) := by
  cases found : entry.attrs.lookup name with
  | some values =>
      have listed : (name, values) ∈ entry.attrs := by
        obtain ⟨front, back, isList, -⟩ := List.lookup_eq_some_iff.mp found
        rw [isList]
        exact List.mem_append_right front List.mem_cons_self
      rw [renders.values (name, values) listed, if_neg (valid.values _ listed)]
  | none =>
      rw [if_pos]
      apply List.map_eq_nil_iff.mpr
      apply List.filter_eq_nil_iff.mpr
      intro line listed isKey
      have known := renders.known line listed
      rw [of_decide_eq_true isKey] at known
      obtain ⟨attr, inAttrs, isName⟩ := List.mem_map.mp known
      have other := List.lookup_eq_none_iff.mp found attr inAttrs
      rw [isName] at other
      simp at other

theorem same_read_iff (valid : entry.Valid) (renders : record.Renders entry) :
    record.read.Same entry ↔ record.dn.encoding.Close ∧
      ∀ line ∈ record.attrLines, line.looksVersion = false ∧ line.encoding.Close := by
  have lookups (name : String) : record.read.attrs.lookup name = entry.attrs.lookup name ↔
      readsOf name record.attrLines = valuesOf name record.attrLines := by
    rw [lookup_rendered valid renders name]
    change (record.attrLines.foldl AttrLine.push []).lookup name = _ ↔ _
    rw [lookup_push]
    change (if _ then none else some (readsOf name record.attrLines)) = _ ↔ _
    split <;> rename_i isReads <;> split <;> rename_i isValues
    · exact iff_of_true rfl (isReads.trans isValues.symm)
    · exact iff_of_false nofun fun same => isValues (same ▸ isReads)
    · exact iff_of_false nofun fun same => isReads (same ▸ isValues)
    · exact Option.some_inj
  rw [← readsOf_eq_iff, ← @read_eq_iff record.dn.encoding record.dn.dn]
  constructor
  · intro same
    exact ⟨same.dn.trans renders.dn.symm, fun key => (lookups key).mp (same.attrs key)⟩
  · rintro ⟨dn, all⟩
    exact ⟨dn.trans renders.dn, fun name => (lookups name).mpr (all name)⟩

/-- The entries of a text are read as they were written. -/
def Decodes (text : String) (entries : List Entry) : Prop :=
  ∃ read, parseLDIF (some text) = .ok read ∧ List.Forall₂ Entry.Same read entries

/-- No line of the document is misread. -/
structure Document.Faithful (document : Document) : Prop where
  dn : ∀ record ∈ document.records, record.dn.encoding.Close
  attrs : ∀ record ∈ document.records, ∀ line ∈ record.attrLines, line.Faithful

theorem open_body (valid : entry.Valid) (renders : record.Renders entry) : Open record.body := by
  intro line listed
  obtain ⟨attr, inAttrs, isKey⟩ := List.mem_map.mp (renders.known line listed)
  exact isKey ▸ valid.reserved attr inAttrs

theorem exists_entry {records : List Record} (renders : List.Forall₂ Record.Renders records entries)
    {record : Record} (listed : record ∈ records) : ∃ entry ∈ entries, record.Renders entry := by
  induction renders with
  | nil => cases listed
  | cons here others ih =>
      rcases List.mem_cons.mp listed with rfl | later
      · exact ⟨_, List.mem_cons_self, here⟩
      · obtain ⟨entry, inEntries, rendered⟩ := ih later
        exact ⟨entry, List.mem_cons_of_mem _ inEntries, rendered⟩

theorem forall₂_same_iff {records : List Record} (valid : ∀ entry ∈ entries, entry.Valid)
    (renders : List.Forall₂ Record.Renders records entries) :
    List.Forall₂ Entry.Same (records.map Record.read) entries ↔
      ∀ record ∈ records, record.dn.encoding.Close ∧
        ∀ line ∈ record.attrLines, line.looksVersion = false ∧ line.encoding.Close := by
  induction renders with
  | nil => exact iff_of_true List.Forall₂.nil fun _ listed => nomatch listed
  | cons here others ih =>
      obtain ⟨validHere, validOthers⟩ := List.forall_mem_cons.mp valid
      rw [List.map_cons, List.forall₂_cons, List.forall_mem_cons, same_read_iff validHere here,
        ih validOthers]

theorem isControl_read {dn : String} (plain : ∀ char ∈ dn.toList, isControl char = false) :
    ∀ char ∈ (encoding.read dn).toList, isControl char = false := by
  cases encoding with
  | base64 fill => exact plain
  | plain fill =>
      change ∀ char ∈ (String.ofList (List.replicate (fill - 1) ' ' ++ dn.toList)).toList, _
      rw [String.toList_ofList]
      refine List.forall_mem_append.mpr ⟨fun char member => ?_, plain⟩
      rw [List.eq_of_mem_replicate member]
      rfl

theorem parseLDIF_eq (isText : document.Text text) (valid : ∀ entry ∈ entries, entry.Valid)
    (renders : document.Renders entries) (own : AllOwn document.records) :
    parseLDIF (some text) = .ok (document.records.map Record.read) := by
  have isOpen : ∀ record ∈ document.records, Open record.body := by
    intro record listed
    obtain ⟨entry, inEntries, rendered⟩ := exists_entry renders listed
    exact open_body (valid entry inEntries) rendered
  obtain ⟨last, isLast, all⟩ := @Reads.append ⟨[], none⟩ document.lines [[]]
    (document.records.map Record.read) []
    (@Reads.append _ _ _ [] _ (reads_head document ⟨[], none⟩) (reads_records isOpen own))
    reads_last 1
  unfold parseLDIF
  dsimp only
  rw [unfoldLines_text isText, isLast]
  dsimp only
  have given : last.finish.entries = document.records.map Record.read :=
    all.trans (List.append_nil _)
  have plain : (document.records.map Record.read).find?
      (fun entry => entry.dn.toList.any isControl) = none := by
    apply List.find?_eq_none.mpr
    intro entry listed
    obtain ⟨record, inRecords, rfl⟩ := List.mem_map.mp listed
    obtain ⟨written, inEntries, rendered⟩ := exists_entry renders inRecords
    have noControl := (valid written inEntries).dn
    rw [← rendered.dn] at noControl
    intro control
    obtain ⟨char, member, isControl⟩ := List.any_eq_true.mp control
    exact Bool.false_ne_true ((isControl_read noControl char member).symm.trans isControl)
  rw [given, plain]

/-- A document is read as it was written exactly when no line of it is misread. -/
theorem decodes_iff (document : Document) (entries : List Entry)
    (valid : ∀ entry ∈ entries, entry.Valid) (renders : document.Renders entries) (text : String)
    (isText : document.Text text) : Decodes text entries ↔ document.Faithful := by
  by_cases own : AllOwn document.records
  · have result := parseLDIF_eq isText valid renders own
    have same := forall₂_same_iff valid renders
    constructor
    · rintro ⟨read, isRead, decoded⟩
      rw [result] at isRead
      cases isRead
      have faithful := same.mp decoded
      refine ⟨fun record listed => (faithful record listed).1, fun record listed line inLines => ?_⟩
      obtain ⟨notVersion, close⟩ := (faithful record listed).2 line inLines
      exact ⟨own record listed line inLines, notVersion, close⟩
    · intro faithful
      refine ⟨_, result, same.mpr fun record listed => ⟨faithful.dn record listed, ?_⟩⟩
      intro line inLines
      have isFaithful := faithful.attrs record listed line inLines
      exact ⟨isFaithful.value, isFaithful.close⟩
  · refine iff_of_false ?_ fun faithful => own fun record listed line inLines =>
      (faithful.attrs record listed line inLines).own
    rintro ⟨read, isRead, -⟩
    have isOpen : ∀ record ∈ document.records, Open record.body := by
      intro record listed
      obtain ⟨entry, inEntries, rendered⟩ := exists_entry renders listed
      exact open_body (valid entry inEntries) rendered
    have fails : Fails (document.lines ++ [[]]) ⟨[], none⟩ :=
      Fails.append ((reads_head document ⟨[], none⟩).fails (fails_records isOpen own)) _
    obtain ⟨error, isError⟩ := fails 1
    unfold parseLDIF at isRead
    dsimp only at isRead
    rw [unfoldLines_text isText, isError] at isRead
    cases isRead

/-! ## Two documents -/

/-- A record with one value, in Base64. -/
def sampleRecord (base : List Char) (named : IsName base) : Record where
  dn := ⟨['D', 'n'], .plain 1, "cn=x", by decide, ⟨forall_of_all (by decide), fun char isHead => by
    cases isHead
    decide⟩⟩
  body := [.attr ⟨base, [], .base64 0, "é", named, fun _ listed => (nomatch listed), trivial⟩]
  gap := []

def sampleDocument (base : List Char) (named : IsName base) : Document :=
  ⟨[], none, [], [sampleRecord base named]⟩

/-- One fold inside the DN. -/
def sampleLayout (base : List Char) : List Folded :=
  [⟨"Dn: c".toList, [(.crlf, "n=x".toList)], .lf, fun none => (nomatch none)⟩,
    ⟨base ++ "::w6k=".toList, [], .lf, fun _ => rfl⟩]

def snDocument : Document := sampleDocument ['S', 'n'] ⟨by decide, forall_of_all (by decide)⟩

theorem snDocument_text : snDocument.Text "Dn: c\r\n n=x\nSn::w6k=\n" :=
  ⟨sampleLayout ['S', 'n'], rfl, rfl⟩

theorem decodes_snDocument : Decodes "Dn: c\r\n n=x\nSn::w6k=\n" [⟨"cn=x", [("sn", ["é"])]⟩] := by
  refine (decodes_iff snDocument [⟨"cn=x", [("sn", ["é"])]⟩] ?_ ?_ _ snDocument_text).mpr ?_
  · intro entry listed
    rw [List.mem_singleton.mp listed]
    exact ⟨forall_of_all (by decide), by decide, by decide, by decide⟩
  · exact .cons ⟨rfl, by decide, by decide⟩ .nil
  · refine ⟨fun record listed => ?_, fun record listed line inLines => ?_⟩
    · rw [List.mem_singleton.mp listed]
      exact Nat.le_refl 1
    · rw [List.mem_singleton.mp listed] at inLines
      rw [List.mem_singleton.mp inLines]
      exact ⟨by decide, by decide, trivial⟩

def constructorDocument : Document := sampleDocument "constructor".toList ⟨by decide, forall_of_all (by decide)⟩

/-- An attribute that is called like an inherited property. -/
theorem not_decodes_constructor :
    constructorDocument.Renders [⟨"cn=x", [("constructor", ["é"])]⟩] ∧
      constructorDocument.Text "Dn: c\r\n n=x\nconstructor::w6k=\n" ∧
      ¬ Decodes "Dn: c\r\n n=x\nconstructor::w6k=\n" [⟨"cn=x", [("constructor", ["é"])]⟩] := by
  refine ⟨.cons ⟨rfl, by decide, by decide⟩ .nil, ⟨sampleLayout "constructor".toList, rfl, rfl⟩, ?_⟩
  rintro ⟨read, isRead, -⟩
  have thrown : parseLDIF (some "Dn: c\r\n n=x\nconstructor::w6k=\n") =
      .error ⟨"TypeError", "current.attrs[base].push is not a function", none⟩ := rfl
  rw [thrown] at isRead
  cases isRead

end ThetaDirectory.Migration
