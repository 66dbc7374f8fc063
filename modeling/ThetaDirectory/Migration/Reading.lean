import ThetaDirectory.Migration.Decoding

/-!
# Reading a document

What each line of a document does to the entry that is read, and so what a record, and all records,
come to.  A record with an attribute that every object inherits ends the reading.
-/

namespace ThetaDirectory.Migration

open Library

variable {parsing : Parsing} {lineNo : Nat} {raw label : List Char} {encoding : Encoding}
  {value : String} {line : AttrLine} {entries : List Entry} {current : Entry}

/-! ## One line -/

theorem line_empty : parsing.line lineNo [] = .ok parsing.finish := rfl

theorem line_skip (notEmpty : raw ≠ [])
    (skips : raw.head? = some '#' ∨ isVersionLine raw = true) :
    parsing.line lineNo raw = .ok parsing := by
  unfold Parsing.line
  rw [if_neg notEmpty]
  split
  · rfl
  · rename_i notComment
    split
    · rfl
    · rw [if_pos (skips.resolve_left notComment)]

theorem line_comment (text : List Char) : parsing.line lineNo ('#' :: text) = .ok parsing :=
  line_skip (List.cons_ne_nil _ _) (Or.inl rfl)

theorem mem_write : ':' ∈ encoding.write value := by
  cases encoding <;> exact List.mem_cons_self

/-- A name and a value. -/
theorem line_write (free : ':' ∉ label) (notComment : '#' ∉ label)
    (allowed : encoding.Allowed value)
    (notVersion : isVersionLine (label ++ encoding.write value) = false) :
    parsing.line lineNo (label ++ encoding.write value) =
      parsing.attribute lineNo (toLowerCase (String.ofList label)) (encoding.read value) := by
  have mark : ':' ∈ label ++ encoding.write value := List.mem_append_right _ mem_write
  have first : (label ++ encoding.write value).head? ≠ some '#' := by
    cases label with
    | nil => cases encoding <;> exact fun isMark => absurd (Option.some.inj isMark) (by decide)
    | cons char label =>
        intro isMark
        cases isMark
        exact notComment List.mem_cons_self
  unfold Parsing.line
  rw [if_neg (List.ne_nil_of_mem mark), if_neg first, if_neg, notVersion, if_neg Bool.false_ne_true,
    parseLine_write free allowed]
  intro isDash
  rw [isDash] at mark
  exact absurd mark (by decide)

/-- Letters of a keyword, in any case. -/
theorem lowerChar_eq {char low : Char} (isLow : char.toLower = low)
    (plain : low ≠ Char.ofNat 0x130 ∧ low ≠ Char.ofNat 0x212A) : lowerChar char = [low] := by
  subst isLow
  have dotted : char ≠ Char.ofNat 0x130 := by
    rintro rfl
    exact plain.1 (by decide)
  have kelvin : char ≠ Char.ofNat 0x212A := by
    rintro rfl
    exact plain.2 (by decide)
  unfold lowerChar
  rw [if_neg dotted, if_neg kelvin]

theorem keyword_notMem {keyword : List Char} {word : List Char} {mark : Char}
    (isWord : keyword.map Char.toLower = word) (free : mark.toLower ∉ word) : mark ∉ keyword :=
  fun member => free (isWord ▸ List.mem_map.mpr ⟨mark, member, rfl⟩)

theorem line_dn (dn : DnLine) :
    parsing.line lineNo dn.text =
      .ok ⟨parsing.finish.entries, some ⟨dn.encoding.read dn.dn, []⟩⟩ := by
  have free : ':' ∉ dn.keyword := keyword_notMem dn.isDn (by decide)
  have notVersion : isVersionLine dn.text = false := by
    refine (isVersionLine_write free).trans ?_
    rw [dn.isDn, decide_eq_false (by decide), Bool.false_and]
  have isDn : toLowerCase (String.ofList dn.keyword) = "dn" := by
    obtain ⟨first, rest, isKeyword, isD, isRest⟩ := List.map_eq_cons_iff.mp dn.isDn
    obtain ⟨second, last, rfl, isN, isLast⟩ := List.map_eq_cons_iff.mp isRest
    cases List.map_eq_nil_iff.mp isLast
    unfold toLowerCase
    rw [isKeyword, String.toList_ofList, List.flatMap_cons, List.flatMap_cons,
      lowerChar_eq isD (by decide), lowerChar_eq isN (by decide)]
    rfl
  refine (line_write free (keyword_notMem dn.isDn (by decide)) dn.allowed notVersion).trans ?_
  unfold Parsing.attribute
  rw [if_pos isDn]

theorem isSpace_digit {char : Char} (isDigit : char.isDigit = true) : isSpace char = false := by
  have plain : char.isAlphanum = true := Bool.or_eq_true_iff.mpr (Or.inr isDigit)
  exact @of_ascii (fun char => char.isDigit = true → isSpace char = false) char
    (toNat_of_isAlphanum plain) (by decide) isDigit

theorem isVersionNumber_digits {number : List Char} (some : number ≠ [])
    (allDigits : ∀ char ∈ number, char.isDigit = true) : isVersionNumber number = true := by
  have first : number.dropWhile isSpace = number := by
    cases number with
    | nil => rfl
    | cons digit digits =>
        have notSpace := isSpace_digit (allDigits digit List.mem_cons_self)
        exact List.dropWhile_cons_of_neg (by rw [notSpace]; exact Bool.false_ne_true)
  have taken : number.takeWhile (fun char => char.isDigit) = number :=
    List.takeWhile_eq_self_iff.mpr allDigits
  have dropped : number.dropWhile (fun char => char.isDigit) = [] :=
    List.dropWhile_eq_nil_iff.mpr allDigits
  unfold isVersionNumber
  dsimp only
  rw [first, taken, dropped, decide_eq_true some]
  rfl

theorem line_version (version : VersionLine) : parsing.line lineNo version.text = .ok parsing := by
  have free : ':' ∉ version.keyword := keyword_notMem version.isVersion (by decide)
  obtain ⟨front, back⟩ := @parseLine_mark version.keyword
    (List.replicate version.fill ' ' ++ version.number) free
  apply line_skip
  · exact List.ne_nil_of_mem (List.mem_append_right _ List.mem_cons_self)
  · apply Or.inr
    unfold isVersionLine VersionLine.text
    rw [front, back]
    change (decide (version.keyword.map Char.toLower = "version".toList) &&
      isVersionNumber (List.replicate version.fill ' ' ++ version.number)) = true
    rw [isVersionNumber_fill, version.isVersion, decide_eq_true rfl, Bool.true_and]
    exact isVersionNumber_digits version.isNumber.1 version.isNumber.2

/-- A line of an attribute of the record that is read. -/
theorem line_attr (notDn : line.key ≠ "dn") (notChange : line.key ≠ "changetype") :
    Parsing.line lineNo line.text ⟨entries, some current⟩ =
      if line.looksVersion then .ok ⟨entries, some current⟩
      else if (current.attrs.lookup line.key).isNone && inherited.contains line.key then
        .error ⟨"TypeError", "current.attrs[base].push is not a function", none⟩
      else
        .ok ⟨entries, some { current with
          attrs := pushValue current.attrs line.key (line.encoding.read line.value) }⟩ := by
  cases looks : line.looksVersion with
  | true =>
      refine line_skip ?_ (Or.inr ((isVersionLine_attr line).trans looks))
      exact List.ne_nil_of_mem (List.mem_append_right _ mem_write)
  | false =>
      have notComment : '#' ∉ line.name := fun member => (nameChar_spec (line.isName '#' member)).1.2.1 rfl
      refine (line_write (colon_notMem_name line) notComment line.allowed
        ((isVersionLine_attr line).trans looks)).trans ?_
      unfold Parsing.attribute
      rw [if_neg (toLowerCase_name_ne (by decide) notDn)]
      dsimp only
      rw [if_neg (toLowerCase_name_ne (by decide) notChange), takeWhile_name]
      rfl

/-! ## The attributes of a record -/

theorem lookup_pushValue (attrs : List (String × List String)) (base value name : String) :
    (pushValue attrs base value).lookup name =
      if name = base then some ((attrs.lookup base).getD [] ++ [value]) else attrs.lookup name := by
  induction attrs with
  | nil =>
      rw [pushValue, List.lookup_cons]
      by_cases same : name = base
      · rw [if_pos same, beq_iff_eq.mpr same]
        rfl
      · rw [if_neg same, beq_eq_false_iff_ne.mpr same]
  | cons own attrs ih =>
      obtain ⟨key, values⟩ := own
      rw [pushValue, List.lookup_cons]
      by_cases isBase : key = base
      · subst isBase
        rw [if_pos rfl, List.lookup_cons, List.lookup_cons]
        by_cases same : name = key
        · rw [if_pos same, beq_iff_eq.mpr same, beq_iff_eq.mpr rfl]
          rfl
        · rw [if_neg same, beq_eq_false_iff_ne.mpr same]
      · rw [if_neg isBase, List.lookup_cons, List.lookup_cons, ih,
          beq_eq_false_iff_ne.mpr (Ne.symm isBase)]
        by_cases same : name = key
        · subst same
          rw [beq_iff_eq.mpr rfl]
          exact (if_neg isBase).symm
        · rw [beq_eq_false_iff_ne.mpr same]

/-- The values that are read for an attribute. -/
def readsOf (key : String) (lines : List AttrLine) : List String :=
  (lines.filter fun line => line.key = key && !line.looksVersion).map fun line =>
    line.encoding.read line.value

def AttrLine.push (attrs : List (String × List String)) (line : AttrLine) :
    List (String × List String) :=
  if line.looksVersion then attrs
  else pushValue attrs line.key (line.encoding.read line.value)

theorem lookup_push (lines : List AttrLine) (attrs : List (String × List String)) (name : String) :
    (lines.foldl AttrLine.push attrs).lookup name =
      if readsOf name lines = [] then attrs.lookup name
      else some ((attrs.lookup name).getD [] ++ readsOf name lines) := by
  induction lines generalizing attrs with
  | nil => rfl
  | cons line lines ih =>
      rw [List.foldl_cons, ih]
      unfold AttrLine.push readsOf
      cases looks : line.looksVersion with
      | true =>
          rw [if_pos rfl, List.filter_cons_of_neg (by simp [looks])]
      | false =>
          rw [if_neg Bool.false_ne_true, lookup_pushValue]
          by_cases same : name = line.key
          · rw [if_pos same, List.filter_cons_of_pos (by simp [looks, same]), List.map_cons,
              if_neg (List.cons_ne_nil _ _), same]
            split
            · rename_i none
              rw [none]
            · rw [Option.getD_some, List.append_assoc]
              rfl
          · rw [if_neg same, List.filter_cons_of_neg (by simp [Ne.symm same])]

/-- Every line is read as it was written. -/
structure AttrLine.Faithful (line : AttrLine) : Prop where
  own : line.key ≠ "constructor"
  value : line.looksVersion = false
  close : line.encoding.Close

theorem inherited_key (line : AttrLine) :
    inherited.contains line.key = true ↔ line.key = "constructor" := by
  constructor
  · intro listed
    have plain : ∀ char ∈ line.key.toList, char ≠ '_' ∧ char.toLower = char := by
      rw [key_eq, String.toList_ofList]
      intro char member
      obtain ⟨before, inBase, isLow⟩ := List.mem_map.mp member
      subst isLow
      have isType := line.named.2 before inBase
      exact @of_ascii (fun char => isTypeChar char = true ∨ char = '.' →
          char.toLower ≠ '_' ∧ char.toLower.toLower = char.toLower) before
        (toNat_of_isNameChar (typeChar_ne isType).1) (by decide) isType
    have only : ∀ name ∈ inherited,
        name.toList.all (fun char => char != '_' && char.toLower == char) = true →
          name = "constructor" := by decide
    apply only line.key (List.contains_iff_mem.mp listed)
    apply List.all_eq_true.mpr
    intro char member
    simpa using plain char member
  · intro isKey
    rw [isKey]
    decide

/-- A list is read as it is exactly when each of its entries is. -/
theorem map_filter_eq_map_iff {α β : Type} {kept : α → Bool} {read write : α → β} (list : List α) :
    (list.filter kept).map read = list.map write ↔
      ∀ entry ∈ list, kept entry = true ∧ read entry = write entry := by
  induction list with
  | nil => exact iff_of_true rfl fun _ listed => nomatch listed
  | cons entry list ih =>
      rw [List.forall_mem_cons, ← ih]
      cases keeps : kept entry with
      | true =>
          rw [List.filter_cons_of_pos keeps, List.map_cons, List.map_cons, List.cons.injEq]
          simp
      | false =>
          rw [List.filter_cons_of_neg (by simp [keeps])]
          refine iff_of_false (fun same => ?_) fun both => nomatch both.1.1
          have lengths := congrArg List.length same
          have shorter := List.length_filter_le kept list
          simp only [List.length_map, List.length_cons] at lengths
          omega

/-- The values of every attribute are read as they are exactly when each line is. -/
theorem readsOf_eq_iff (lines : List AttrLine) :
    (∀ key, readsOf key lines = valuesOf key lines) ↔
      ∀ line ∈ lines, line.looksVersion = false ∧ line.encoding.Close := by
  have each (key : String) : readsOf key lines = valuesOf key lines ↔
      ∀ line ∈ lines, line.key = key → line.looksVersion = false ∧ line.encoding.Close := by
    have split : readsOf key lines =
        ((lines.filter fun line => line.key = key).filter fun line => !line.looksVersion).map
          fun line => line.encoding.read line.value := by
      unfold readsOf
      rw [List.filter_filter]
      congr 2
      funext line
      exact Bool.and_comm _ _
    rw [split]
    unfold valuesOf
    rw [map_filter_eq_map_iff]
    simp only [List.mem_filter, decide_eq_true_eq, and_imp, Bool.not_eq_true', read_eq_iff]
  constructor
  · intro same line listed
    exact (each line.key).mp (same line.key) line listed rfl
  · intro all key
    exact (each key).mpr fun line listed _ => all line listed

/-! ## Lines behind lines -/

theorem parseLines_cons (lines : List (List Char)) :
    parseLines lineNo (raw :: lines) parsing =
      match parsing.line lineNo raw with
      | .ok next => parseLines (lineNo + 1) lines next
      | .error error => .error error := rfl

theorem parseLines_append (lines more : List (List Char)) :
    parseLines lineNo (lines ++ more) parsing =
      match parseLines lineNo lines parsing with
      | .ok next => parseLines (lineNo + lines.length) more next
      | .error error => .error error := by
  induction lines generalizing lineNo parsing with
  | nil => rfl
  | cons raw lines ih =>
      rw [List.cons_append, parseLines_cons, parseLines_cons]
      cases parsing.line lineNo raw with
      | error error => rfl
      | ok next =>
          dsimp only
          rw [ih, List.length_cons, Nat.add_assoc, Nat.add_comm 1]

/-- The lines are read, whatever their numbers, and give these entries. -/
def Reads (lines : List (List Char)) (parsing : Parsing) (read : List Entry) : Prop :=
  ∀ lineNo, ∃ next, parseLines lineNo lines parsing = .ok next ∧
    next.finish.entries = parsing.finish.entries ++ read

def Fails (lines : List (List Char)) (parsing : Parsing) : Prop :=
  ∀ lineNo, ∃ error, parseLines lineNo lines parsing = .error error

variable {lines more : List (List Char)} {given later : List Entry}

theorem reads_nil : Reads [] parsing [] :=
  fun _ => ⟨parsing, rfl, (List.append_nil _).symm⟩

theorem Reads.append (first : Reads lines parsing given) (second : ∀ next, Reads more next later) :
    Reads (lines ++ more) parsing (given ++ later) := by
  intro lineNo
  obtain ⟨next, isNext, entries⟩ := first lineNo
  obtain ⟨last, isLast, all⟩ := second next (lineNo + lines.length)
  refine ⟨last, ?_, ?_⟩
  · rw [parseLines_append, isNext]
    exact isLast
  · rw [all, entries, List.append_assoc]

theorem Fails.append (first : Fails lines parsing) (more : List (List Char)) :
    Fails (lines ++ more) parsing := by
  intro lineNo
  obtain ⟨error, isError⟩ := first lineNo
  refine ⟨error, ?_⟩
  rw [parseLines_append, isError]

theorem Reads.fails (first : Reads lines parsing given) (second : ∀ next, Fails more next) :
    Fails (lines ++ more) parsing := by
  intro lineNo
  obtain ⟨next, isNext, -⟩ := first lineNo
  obtain ⟨error, isError⟩ := second next (lineNo + lines.length)
  refine ⟨error, ?_⟩
  rw [parseLines_append, isNext]
  exact isError

/-- A line that is skipped, or ends a record. -/
theorem reads_of_line (skips : ∀ lineNo, parsing.line lineNo raw = .ok parsing ∨
    parsing.line lineNo raw = .ok parsing.finish) : Reads [raw] parsing [] := by
  intro lineNo
  rcases skips lineNo with same | ended
  · exact ⟨parsing, by rw [parseLines_cons, same]; rfl, (List.append_nil _).symm⟩
  · exact ⟨parsing.finish, by rw [parseLines_cons, ended]; rfl, rfl⟩

theorem reads_gap (gap : List Gap) : ∀ parsing, Reads (gap.map Gap.text) parsing [] := by
  induction gap with
  | nil => exact fun _ => reads_nil
  | cons first gap ih =>
      intro parsing
      refine @Reads.append parsing [first.text] (gap.map Gap.text) [] [] (reads_of_line fun lineNo => ?_) ih
      cases first with
      | empty => exact Or.inr line_empty
      | comment remark => exact Or.inl (line_comment remark.text)

theorem reads_version (version : Option VersionLine) (parsing : Parsing) :
    Reads (version.toList.map VersionLine.text) parsing [] := by
  cases version with
  | none => exact reads_nil
  | some version => exact reads_of_line fun _ => Or.inl (line_version version)

/-! ## Records -/

/-- The attribute lines of a body, none of which has a reserved name. -/
def Open (body : List BodyLine) : Prop :=
  ∀ line ∈ body.filterMap BodyLine.attr?, line.key ≠ "dn" ∧ line.key ≠ "changetype"

theorem parseLines_body {body : List BodyLine} (isOpen : Open body)
    (own : ∀ line ∈ body.filterMap BodyLine.attr?, line.key ≠ "constructor") :
    parseLines lineNo (body.map BodyLine.text) ⟨entries, some current⟩ =
      .ok ⟨entries, some { current with
        attrs := (body.filterMap BodyLine.attr?).foldl AttrLine.push current.attrs }⟩ := by
  induction body generalizing lineNo current with
  | nil => rfl
  | cons first body ih =>
      cases first with
      | comment remark =>
          rw [List.map_cons, parseLines_cons, show BodyLine.text (.comment remark) = '#' :: remark.text from rfl,
            line_comment]
          exact ih isOpen own
      | attr line =>
          have here := isOpen line List.mem_cons_self
          have notOwn := own line List.mem_cons_self
          have step : Parsing.line lineNo line.text ⟨entries, some current⟩ =
              .ok ⟨entries, some { current with attrs := AttrLine.push current.attrs line }⟩ := by
            rw [line_attr here.1 here.2]
            unfold AttrLine.push
            split
            · rfl
            · rw [if_neg]
              rw [Bool.and_eq_true, inherited_key]
              exact fun both => notOwn both.2
          rw [List.map_cons, parseLines_cons, show BodyLine.text (.attr line) = line.text from rfl, step]
          exact ih (fun other listed => isOpen other (List.mem_cons_of_mem _ listed))
            fun other listed => own other (List.mem_cons_of_mem _ listed)

/-- A record with an attribute of that name is never read. -/
theorem fails_body {body : List BodyLine} (isOpen : Open body)
    (inheritedName : ∃ line ∈ body.filterMap BodyLine.attr?, line.key = "constructor")
    (fresh : current.attrs.lookup "constructor" = none) :
    Fails (body.map BodyLine.text) ⟨entries, some current⟩ := by
  induction body generalizing current with
  | nil =>
      obtain ⟨_, listed, -⟩ := inheritedName
      cases listed
  | cons first body ih =>
      intro lineNo
      cases first with
      | comment remark =>
          rw [List.map_cons, parseLines_cons, show BodyLine.text (.comment remark) = '#' :: remark.text from rfl,
            line_comment]
          exact ih isOpen inheritedName fresh (lineNo + 1)
      | attr line =>
          have here := isOpen line List.mem_cons_self
          have later : Open body := fun other listed => isOpen other (List.mem_cons_of_mem _ listed)
          rw [List.map_cons, parseLines_cons, show BodyLine.text (.attr line) = line.text from rfl,
            line_attr here.1 here.2]
          by_cases isOwn : line.key = "constructor"
          · have notVersion : line.looksVersion = false := by
              unfold AttrLine.looksVersion
              rw [isOwn]
              rfl
            rw [notVersion, if_neg Bool.false_ne_true, if_pos]
            · exact ⟨_, rfl⟩
            · rw [isOwn, fresh]
              decide
          · have rest : ∃ other ∈ body.filterMap BodyLine.attr?, other.key = "constructor" := by
              obtain ⟨other, listed, isOther⟩ := inheritedName
              rcases List.mem_cons.mp listed with rfl | listed
              · exact absurd isOther isOwn
              · exact ⟨other, listed, isOther⟩
            split
            · rename_i notError
              split at notError
              · cases notError
                exact ih later rest fresh (lineNo + 1)
              · split at notError
                · cases notError
                · cases notError
                  refine ih later rest ?_ (lineNo + 1)
                  rw [lookup_pushValue, if_neg (Ne.symm isOwn)]
                  exact fresh
            · exact ⟨_, rfl⟩

/-- What is read of a record. -/
def Record.read (record : Record) : Entry :=
  ⟨record.dn.encoding.read record.dn.dn, record.attrLines.foldl AttrLine.push []⟩

theorem reads_record {record : Record} (isOpen : Open record.body)
    (own : ∀ line ∈ record.attrLines, line.key ≠ "constructor") (parsing : Parsing) :
    Reads record.lines parsing [record.read] := by
  have front : Reads (record.dn.text :: record.body.map BodyLine.text) parsing [record.read] := by
    intro lineNo
    refine ⟨⟨parsing.finish.entries, some record.read⟩, ?_, rfl⟩
    rw [parseLines_cons, line_dn]
    exact parseLines_body isOpen own
  exact front.append (reads_gap record.gap)

theorem fails_record {record : Record} (isOpen : Open record.body)
    (inheritedName : ∃ line ∈ record.attrLines, line.key = "constructor") (parsing : Parsing) :
    Fails record.lines parsing := by
  have front : Fails (record.dn.text :: record.body.map BodyLine.text) parsing := by
    intro lineNo
    rw [parseLines_cons, line_dn]
    exact fails_body isOpen inheritedName rfl (lineNo + 1)
  exact front.append _

/-- No record has an attribute that is misread as a property every object has. -/
def AllOwn (records : List Record) : Prop :=
  ∀ record ∈ records, ∀ line ∈ record.attrLines, line.key ≠ "constructor"

theorem reads_records {records : List Record} (isOpen : ∀ record ∈ records, Open record.body)
    (own : AllOwn records) (parsing : Parsing) :
    Reads (records.flatMap Record.lines) parsing (records.map Record.read) := by
  induction records generalizing parsing with
  | nil => exact reads_nil
  | cons record records ih =>
      obtain ⟨here, others⟩ := List.forall_mem_cons.mp isOpen
      obtain ⟨ownHere, ownOthers⟩ := List.forall_mem_cons.mp own
      exact (reads_record here ownHere parsing).append (ih others ownOthers)

theorem fails_records {records : List Record} (isOpen : ∀ record ∈ records, Open record.body)
    (notOwn : ¬ AllOwn records) (parsing : Parsing) :
    Fails (records.flatMap Record.lines) parsing := by
  induction records generalizing parsing with
  | nil => exact absurd (fun _ listed => (nomatch listed)) notOwn
  | cons record records ih =>
      obtain ⟨here, others⟩ := List.forall_mem_cons.mp isOpen
      by_cases ownHere : ∀ line ∈ record.attrLines, line.key ≠ "constructor"
      · exact (reads_record here ownHere parsing).fails fun next =>
          ih others (fun ownOthers => notOwn (List.forall_mem_cons.mpr ⟨ownHere, ownOthers⟩)) next
      · apply (fails_record here ?_ parsing).append
        by_contra none
        exact ownHere fun line listed isKey => none ⟨line, listed, isKey⟩

theorem reads_head (document : Document) (parsing : Parsing) :
    Reads (document.head.map Gap.text ++ document.version.toList.map VersionLine.text ++
      document.gap.map Gap.text) parsing [] :=
  @Reads.append _ _ _ [] [] (@Reads.append _ _ _ [] [] (reads_gap document.head parsing)
    (reads_version document.version)) (reads_gap document.gap)

theorem reads_last (parsing : Parsing) : Reads [[]] parsing [] :=
  reads_of_line fun _ => Or.inr line_empty

end ThetaDirectory.Migration
