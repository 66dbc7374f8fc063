import ThetaDirectory.Migration.Stripping

/-!
# Operational attributes

`parseLDIF` on a text without the lines of operational attributes, beside the entries without the
attributes.  The two agree exactly when no such line is folded in front of its colon, or the text is
refused anyway.
-/

namespace ThetaDirectory.Migration

open Library

/-! ## Reading the lines -/

/-- What is thrown at an attribute that has the name of an inherited property. -/
def thrown : LdifError := ⟨"TypeError", "current.attrs[base].push is not a function", none⟩

/-- What a line does, wherever it stands. -/
def Parsing.content (parsing : Parsing) : ContentLine → Except LdifError Parsing
  | .empty => .ok parsing.finish
  | .comment _ => .ok parsing
  | .version _ => .ok parsing
  | .dn line => .ok ⟨parsing.finish.entries, some ⟨line.spec.read, []⟩⟩
  | .attr line =>
      if isVersionLine (line.base ++ line.spec.text) then .ok parsing
      else
        match parsing.current with
        | none => .ok parsing
        | some current =>
            if (current.attrs.lookup line.key).isNone && inherited.contains line.key then .error thrown
            else .ok ⟨parsing.entries, some { current with
              attrs := pushValue current.attrs line.key line.spec.read }⟩

def parseContent : List ContentLine → Parsing → Except LdifError Parsing
  | [], parsing => .ok parsing
  | line :: lines, parsing =>
      match parsing.content line with
      | .ok next => parseContent lines next
      | .error error => .error error

/-- The check at the end. -/
def checkDns (entries : List Entry) : Except LdifError (List Entry) :=
  match (entries.map Entry.dn).find? fun dn => dn.toList.any isControl with
  | some dn => .error ⟨"Error", "DN contains control characters: " ++
      String.ofList (JsonText.quote (Utf16.ofString dn)), some 400⟩
  | none => .ok entries

variable {parsing next last : Parsing} {lineNo : Nat} {label : List Char}

theorem parseLine_spec {spec : Spec} (free : ':' ∉ label) (allowed : spec.Allowed) :
    parseLine (label ++ spec.text) = .ok (some (String.ofList label, spec.read)) := by
  have split (rest : List Char) :
      parseLine (label ++ ':' :: rest) = parseValue (String.ofList label) rest := by
    obtain ⟨front, back⟩ := @parseLine_mark label rest free
    rw [parseLine, front, back]
  cases spec with
  | plain text =>
      obtain ⟨-, first⟩ := allowed
      rw [Spec.text, split, parseValue]
      · rfl
      · rintro encoded rfl
        exact (first ':' rfl).1 rfl
      · rintro encoded rfl
        exact (first '<' rfl).2 rfl
  | base64 fill octets =>
      obtain ⟨cleaned, isText⟩ := cleaned_base64 fill octets
      rw [Spec.text, split, parseValue, cleaned, if_pos isText, Octets.base64Decode_base64Encode]
      rfl

/-- A name with what stands behind it. -/
theorem line_spec {spec : Spec} (free : ':' ∉ label) (notComment : '#' ∉ label)
    (allowed : spec.Allowed) (notVersion : isVersionLine (label ++ spec.text) = false) :
    parsing.line lineNo (label ++ spec.text) =
      parsing.attribute lineNo (toLowerCase (String.ofList label)) spec.read := by
  have mark : ':' ∈ label ++ spec.text := by
    apply List.mem_append_right
    cases spec <;> exact List.mem_cons_self
  have first : (label ++ spec.text).head? ≠ some '#' := by
    cases label with
    | nil => cases spec <;> exact fun isMark => absurd (Option.some.inj isMark) (by decide)
    | cons char label =>
        intro isMark
        cases isMark
        exact notComment List.mem_cons_self
  rw [Parsing.line, if_neg (List.ne_nil_of_mem mark), if_neg first, if_neg, notVersion,
    if_neg Bool.false_ne_true, parseLine_spec free allowed]
  intro isDash
  rw [isDash] at mark
  exact absurd mark (by decide)

theorem takeWhile_key (own : Attribute) :
    String.ofList (own.key.toList.takeWhile (· ≠ ';')) = own.key := by
  have plain (char : Char) (member : char ∈ own.base) := typeChar_ne (own.named.2 char member)
  have isKey : own.key = String.ofList (own.base.map Char.toLower) :=
    toLowerCase_name fun char member => (plain char member).1
  have inside : ∀ char ∈ own.base.map Char.toLower, decide (char ≠ ';') = true := by
    intro low member
    obtain ⟨char, inBase, isLow⟩ := List.mem_map.mp member
    obtain ⟨isName, notMark⟩ := plain char inBase
    exact decide_eq_true fun isMark => notMark ((nameChar_spec isName).2.2 (isLow.trans isMark))
  rw [isKey, String.toList_ofList, List.takeWhile_eq_self_iff.mpr inside]

theorem line_content (line : ContentLine) : parsing.line lineNo line.text = parsing.content line := by
  cases line with
  | empty => exact line_empty
  | comment remark => exact line_comment remark.text
  | version line => exact line_version line
  | dn line =>
      have free : ':' ∉ line.keyword := keyword_notMem line.isDn (by decide)
      have notVersion : isVersionLine (line.keyword ++ line.spec.text) = false := by
        rw [isVersionLine]
        split
        · rw [takeWhile_spec line.spec free, line.isDn, decide_eq_false (by decide), Bool.false_and]
        · rfl
      rw [ContentLine.text, line_spec free (keyword_notMem line.isDn (by decide)) line.allowed notVersion,
        Parsing.attribute, toLowerCase_keyword line.isDn (by decide), if_pos rfl]
      rfl
  | attr line =>
      rw [ContentLine.text, Parsing.content]
      cases looks : isVersionLine (line.base ++ line.spec.text) with
      | true =>
          rw [if_pos rfl]
          apply line_skip
          · cases base : line.base with
            | nil => exact absurd base line.named.1
            | cons char rest => exact List.cons_ne_nil _ _
          · exact Or.inr looks
      | false =>
          have notComment : '#' ∉ line.base := fun member =>
            (nameChar_spec (typeChar_ne (line.named.2 '#' member)).1).1.2.1 rfl
          rw [line_spec (colon_notMem_base line) notComment line.allowed looks, Parsing.attribute,
            if_neg line.reserved.1, if_neg Bool.false_ne_true]
          cases parsing.current with
          | none => rfl
          | some current =>
              have base := takeWhile_key line
              rw [Attribute.key] at base
              simp only
              rw [if_neg line.reserved.2, base]
              rfl

theorem parseLines_content (lines : List ContentLine) :
    parseLines lineNo (lines.map ContentLine.text) parsing = parseContent lines parsing := by
  induction lines generalizing lineNo parsing with
  | nil => rfl
  | cons line lines ih =>
      rw [List.map_cons, parseLines_cons, line_content, parseContent]
      cases parsing.content line with
      | ok next => exact ih
      | error error => rfl

theorem parseLDIF_writtenText (content : List Written) :
    parseLDIF (some (writtenText content)) =
      (parseContent (content.map Written.line) ⟨[], none⟩).bind fun parsing =>
        checkDns parsing.finish.entries := by
  have lines : (content.map fun written => written.line.text) =
      (content.map Written.line).map ContentLine.text := by
    rw [List.map_map]
    rfl
  rw [parseLDIF]
  simp only
  rw [unfoldLines_writtenText, lines, parseLines_append, parseLines_content]
  cases parseContent (content.map Written.line) ⟨[], none⟩ with
  | error error => rfl
  | ok parsing =>
      have found : (parsing.finish.entries.map Entry.dn).find? (fun dn => dn.toList.any isControl) =
          (parsing.finish.entries.find? fun entry => entry.dn.toList.any isControl).map Entry.dn :=
        List.find?_map
      simp only [Except.bind, checkDns, found, parseLines_cons, line_empty]
      rw [parseLines]
      simp only [finish_finish]
      cases parsing.finish.entries.find? fun entry => entry.dn.toList.any isControl <;> rfl

/-! ## Entries without the attributes -/

def Parsing.stripped (parsing : Parsing) : Parsing :=
  ⟨parsing.entries.map Entry.stripped, parsing.current.map Entry.stripped⟩

theorem finish_stripped (parsing : Parsing) : parsing.stripped.finish = parsing.finish.stripped := by
  rw [Parsing.finish, Parsing.finish, Parsing.stripped, Parsing.stripped, List.map_append]
  cases parsing.current <;> rfl

section Names

variable {keep : String → Bool} {key : String}

theorem lookup_filter (kept : keep key = true) (attrs : List (String × List String)) :
    (attrs.filter fun attr => keep attr.1).lookup key = attrs.lookup key := by
  induction attrs with
  | nil => rfl
  | cons own attrs ih =>
      rw [List.filter_cons, List.lookup_cons]
      cases same : key == own.1 with
      | true =>
          rw [if_pos (eq_of_beq same ▸ kept), List.lookup_cons, same]
      | false =>
          split
          · rw [List.lookup_cons, same, ih]
          · exact ih

theorem pushValue_filter (kept : keep key = true) (attrs : List (String × List String))
    (value : String) : (pushValue attrs key value).filter (fun attr => keep attr.1) =
      pushValue (attrs.filter fun attr => keep attr.1) key value := by
  induction attrs with
  | nil => exact List.filter_cons_of_pos kept
  | cons own attrs ih =>
      rw [pushValue, List.filter_cons]
      by_cases same : own.1 = key
      · rw [if_pos same, if_pos (same ▸ kept), List.filter_cons, if_pos kept, pushValue, if_pos same]
      · rw [if_neg same, List.filter_cons, ih]
        split
        · rw [pushValue, if_neg same]
        · rfl

theorem filter_pushValue (dropped : keep key = false) (attrs : List (String × List String))
    (value : String) : (pushValue attrs key value).filter (fun attr => keep attr.1) =
      attrs.filter fun attr => keep attr.1 := by
  have notKept : ¬ keep key = true := Bool.eq_false_iff.mp dropped
  induction attrs with
  | nil => exact List.filter_cons_of_neg notKept
  | cons own attrs ih =>
      rw [pushValue, List.filter_cons]
      by_cases same : own.1 = key
      · rw [if_pos same, List.filter_cons, if_neg notKept, if_neg (same ▸ notKept)]
      · rw [if_neg same, List.filter_cons, ih]

end Names

theorem content_stripped {line : ContentLine} (kept : line.operational = false) :
    parsing.stripped.content line = (parsing.content line).map Parsing.stripped := by
  cases line with
  | empty => exact congrArg Except.ok (finish_stripped parsing)
  | comment remark => rfl
  | version line => rfl
  | dn line =>
      rw [Parsing.content, finish_stripped]
      rfl
  | attr line =>
      have keepKey : (!OPERATIONAL_ATTRS.contains line.key) = true := by
        rw [show OPERATIONAL_ATTRS.contains line.key = false from kept]
        rfl
      obtain ⟨entries, current⟩ := parsing
      rw [Parsing.content, Parsing.content]
      split
      · rfl
      · cases current with
        | none => rfl
        | some current =>
            have found := @lookup_filter (fun name => !OPERATIONAL_ATTRS.contains name) _ keepKey
              current.attrs
            have pushed := @pushValue_filter (fun name => !OPERATIONAL_ATTRS.contains name) _ keepKey
              current.attrs line.spec.read
            simp only [Parsing.stripped, Option.map_some, Entry.stripped, found]
            split
            · rfl
            · rw [← pushed]
              rfl

theorem content_operational {line : ContentLine} (gone : line.operational = true) :
    (parsing.content line).map Parsing.stripped = .ok parsing.stripped := by
  cases line with
  | attr line =>
      have notKept : (!OPERATIONAL_ATTRS.contains line.key) = false := by
        rw [show OPERATIONAL_ATTRS.contains line.key = true from gone]
        rfl
      have own : ∀ name ∈ OPERATIONAL_ATTRS, inherited.contains name = false := by decide
      obtain ⟨entries, current⟩ := parsing
      rw [Parsing.content]
      split
      · rfl
      · cases current with
        | none => rfl
        | some current =>
            have pushed := @filter_pushValue (fun name => !OPERATIONAL_ATTRS.contains name) _ notKept
              current.attrs line.spec.read
            simp only [own line.key (List.contains_iff_mem.mp gone), Bool.and_false, Parsing.stripped,
              Except.map, Option.map_some, Entry.stripped, pushed, Bool.false_eq_true, if_false]
  | empty => contradiction
  | comment => contradiction
  | version => contradiction
  | dn => contradiction

theorem parseContent_stripped (lines : List ContentLine) :
    parseContent (lines.filter fun line => !line.operational) parsing.stripped =
      (parseContent lines parsing).map Parsing.stripped := by
  induction lines generalizing parsing with
  | nil => rfl
  | cons line lines ih =>
      rw [List.filter_cons, parseContent]
      cases operational : line.operational with
      | false =>
          rw [if_pos (by rfl), parseContent, content_stripped operational]
          cases parsing.content line with
          | ok next => exact ih
          | error error => rfl
      | true =>
          rw [if_neg (by decide)]
          have same := @content_operational parsing line operational
          cases read : parsing.content line with
          | ok next =>
              rw [read] at same
              have isNext : next.stripped = parsing.stripped := Except.ok.inj same
              rw [← isNext]
              exact ih
          | error error =>
              rw [read] at same
              contradiction

theorem checkDns_stripped (entries : List Entry) :
    checkDns (entries.map Entry.stripped) = (checkDns entries).map (List.map Entry.stripped) := by
  have same : (entries.map Entry.stripped).map Entry.dn = entries.map Entry.dn := by
    rw [List.map_map]
    rfl
  rw [checkDns, checkDns, same]
  split <;> rfl

/-- Without folds in front of a colon the text means the same. -/
theorem agrees_of_folded {content : List Written}
    (folded : ∀ written ∈ content, written.line.operational → ':' ∈ written.first) :
    Agrees (writtenText content) := by
  have kept : (content.filter fun written => !written.dropped).map Written.line =
      (content.map Written.line).filter fun line => !line.operational := by
    rw [List.filter_map]
    apply congrArg
    apply List.filter_congr
    intro written member
    rw [Function.comp_apply, Written.dropped]
    cases operational : written.line.operational with
    | false => rfl
    | true => rw [List.contains_iff_mem.mpr (folded written member operational)]; rfl
  have run := @parseContent_stripped ⟨[], none⟩ (content.map Written.line)
  rw [Agrees, strip_writtenText, parseLDIF_writtenText, parseLDIF_writtenText, kept]
  change (parseContent _ (Parsing.stripped ⟨[], none⟩)).bind _ = _
  rw [run]
  cases parseContent (content.map Written.line) ⟨[], none⟩ with
  | error error => rfl
  | ok parsing =>
      change checkDns parsing.stripped.finish.entries = (checkDns parsing.finish.entries).map _
      have entries : parsing.finish.stripped.entries = parsing.finish.entries.map Entry.stripped := rfl
      rw [finish_stripped, entries, checkDns_stripped]

/-! ## Texts that are refused -/

/-- An attribute has the name of an inherited property, or a DN a control character. -/
def Refused (lines : List ContentLine) : Prop :=
  (∃ line, .attr line ∈ lines ∧ inherited.contains line.key = true) ∨
    ∃ line, .dn line ∈ lines ∧ line.spec.read.toList.any isControl = true

theorem not_operational_of_inherited {key : String} (own : inherited.contains key = true) :
    OPERATIONAL_ATTRS.contains key = false := by
  have other : ∀ name ∈ inherited, OPERATIONAL_ATTRS.contains name = false := by decide
  exact other key (List.contains_iff_mem.mp own)

theorem not_version_of_key {line : Attribute} (other : line.key ≠ "version") :
    isVersionLine (line.base ++ line.spec.text) = false := by
  rw [isVersionLine]
  split
  · rw [takeWhile_spec line.spec (colon_notMem_base line), decide_eq_false, Bool.false_and]
    intro isVersion
    apply other
    exact toLowerCase_keyword isVersion (by decide)
  · rfl

theorem inRecords_step {line : ContentLine} {lines : List ContentLine}
    (inRecords : InRecords parsing.current.isSome (line :: lines))
    (read : parsing.content line = .ok next) : InRecords next.current.isSome lines := by
  cases line with
  | empty =>
      cases read
      exact inRecords
  | comment remark =>
      cases read
      exact inRecords
  | version line =>
      cases read
      exact inRecords
  | dn line =>
      cases read
      exact inRecords
  | attr line =>
      obtain ⟨isSome, inRecords⟩ := inRecords
      rw [Parsing.content] at read
      split at read
      · cases read
        exact inRecords
      · split at read
        · cases read
          exact inRecords
        · split at read
          · contradiction
          · cases read
            rw [isSome] at inRecords
            exact inRecords

theorem content_ok {line : ContentLine}
    (plain : ∀ own, line = .attr own → inherited.contains own.key = false) :
    ∃ next, parsing.content line = .ok next := by
  cases line with
  | attr line =>
      rw [Parsing.content, plain line rfl]
      split
      · exact ⟨_, rfl⟩
      · split
        · exact ⟨_, rfl⟩
        · rw [Bool.and_false, if_neg Bool.false_ne_true]
          exact ⟨_, rfl⟩
  | empty => exact ⟨_, rfl⟩
  | comment => exact ⟨_, rfl⟩
  | version => exact ⟨_, rfl⟩
  | dn => exact ⟨_, rfl⟩

theorem parseContent_ok {lines : List ContentLine}
    (plain : ∀ own, .attr own ∈ lines → inherited.contains own.key = false) :
    ∃ last, parseContent lines parsing = .ok last := by
  induction lines generalizing parsing with
  | nil => exact ⟨parsing, rfl⟩
  | cons line lines ih =>
      obtain ⟨next, read⟩ := @content_ok parsing line fun own isLine => plain own (by simp [isLine])
      rw [parseContent, read]
      exact ih fun own member => plain own (List.mem_cons_of_mem _ member)

/-- No attribute of the record that is read has the name of an inherited property. -/
def Parsing.Own (parsing : Parsing) : Prop :=
  ∀ current, parsing.current = some current →
    ∀ attr ∈ current.attrs, inherited.contains attr.1 = false

theorem own_step {line : ContentLine} (own : parsing.Own) (read : parsing.content line = .ok next) :
    next.Own := by
  cases line with
  | empty =>
      cases read
      intro current isCurrent
      contradiction
  | comment remark =>
      cases read
      exact own
  | version line =>
      cases read
      exact own
  | dn line =>
      cases read
      intro current isCurrent
      cases isCurrent
      exact fun _ inNone => absurd inNone List.not_mem_nil
  | attr line =>
      rw [Parsing.content] at read
      split at read
      · cases read
        exact own
      · split at read
        · cases read
          exact own
        case h_2 current isCurrent =>
          split at read
          · contradiction
          case isFalse notThrown =>
            cases read
            intro written isWritten
            cases isWritten
            have others := own current isCurrent
            apply @forall_pushValue (fun name => inherited.contains name = false) _ _ _ others
            cases known : current.attrs.lookup line.key with
            | none =>
                rw [known, Option.isNone_none, Bool.true_and] at notThrown
                exact Bool.eq_false_iff.mpr notThrown
            | some values =>
                obtain ⟨front, back, isList, -⟩ := List.lookup_eq_some_iff.mp known
                exact others (line.key, values) (isList ▸ List.mem_append_right front List.mem_cons_self)

theorem content_thrown {line : Attribute} (isOpen : parsing.current.isSome = true) (own : parsing.Own)
    (named : inherited.contains line.key = true) :
    parsing.content (.attr line) = .error thrown := by
  have plain : ∀ name ∈ inherited, name ≠ "version" := by decide
  have notVersion := not_version_of_key (plain line.key (List.contains_iff_mem.mp named))
  obtain ⟨current, isCurrent⟩ := Option.isSome_iff_exists.mp isOpen
  have missing : current.attrs.lookup line.key = none := by
    apply List.lookup_eq_none_iff.mpr
    intro attr member
    have different := own current isCurrent attr member
    apply bne_iff_ne.mpr
    rintro same
    rw [← same, named] at different
    contradiction
  rw [Parsing.content, notVersion, if_neg Bool.false_ne_true, isCurrent]
  simp only [missing, named, Option.isNone_none, Bool.and_self, if_true]

theorem parseContent_thrown {lines : List ContentLine}
    (inRecords : InRecords parsing.current.isSome lines) (own : parsing.Own)
    (named : ∃ line, .attr line ∈ lines ∧ inherited.contains line.key = true) :
    parseContent lines parsing = .error thrown := by
  induction lines generalizing parsing with
  | nil =>
      obtain ⟨_, inNone, _⟩ := named
      exact absurd inNone List.not_mem_nil
  | cons first lines ih =>
      rw [parseContent]
      cases read : parsing.content first with
      | ok next =>
          apply ih (inRecords_step inRecords read) (own_step own read)
          obtain ⟨line, member, isOwn⟩ := named
          rcases List.mem_cons.mp member with rfl | later
          · rw [content_thrown inRecords.1 own isOwn] at read
            contradiction
          · exact ⟨line, later, isOwn⟩
      | error error =>
          cases first with
          | attr line =>
              rw [Parsing.content] at read
              split at read
              · contradiction
              · split at read
                · contradiction
                · split at read
                  · exact read.symm
                  · contradiction
          | empty => contradiction
          | comment => contradiction
          | version => contradiction
          | dn => contradiction

/-! ## DNs -/

def ContentLine.dn? : ContentLine → Option String
  | .dn line => some line.spec.read
  | _ => none

theorem content_dns {line : ContentLine} (read : parsing.content line = .ok next) :
    next.finish.entries.map Entry.dn = parsing.finish.entries.map Entry.dn ++ line.dn?.toList := by
  cases line with
  | empty =>
      cases read
      rw [finish_finish]
      exact (List.append_nil _).symm
  | comment remark =>
      cases read
      exact (List.append_nil _).symm
  | version line =>
      cases read
      exact (List.append_nil _).symm
  | dn line =>
      cases read
      exact List.map_append
  | attr line =>
      obtain ⟨entries, current⟩ := parsing
      refine Eq.trans ?_ (List.append_nil _).symm
      rw [Parsing.content] at read
      split at read
      · cases read
        rfl
      · cases current with
        | none =>
            cases read
            rfl
        | some current =>
            simp only at read
            split at read
            · contradiction
            · cases read
              rw [Parsing.finish, Parsing.finish, List.map_append, List.map_append]
              rfl

theorem parseContent_dns {lines : List ContentLine} (read : parseContent lines parsing = .ok last) :
    last.finish.entries.map Entry.dn =
      parsing.finish.entries.map Entry.dn ++ lines.filterMap ContentLine.dn? := by
  induction lines generalizing parsing with
  | nil =>
      cases read
      exact (List.append_nil _).symm
  | cons line lines ih =>
      rw [parseContent] at read
      cases isNext : parsing.content line with
      | error error =>
          rw [isNext] at read
          contradiction
      | ok next =>
          rw [isNext] at read
          rw [ih read, content_dns isNext, List.filterMap_cons, List.append_assoc]
          cases line.dn? <;> rfl

theorem checkDns_same {entries others : List Entry} {change : List Entry → List Entry}
    (same : entries.map Entry.dn = others.map Entry.dn)
    (bad : ∃ dn ∈ others.map Entry.dn, dn.toList.any isControl = true) :
    checkDns entries = (checkDns others).map change := by
  rw [checkDns, checkDns, same]
  split
  · rfl
  case h_2 none =>
    obtain ⟨dn, member, control⟩ := bad
    exact absurd control (List.find?_eq_none.mp none dn member)

theorem checkDns_ok {entries : List Entry}
    (plain : ∀ dn ∈ entries.map Entry.dn, ¬ dn.toList.any isControl = true) :
    checkDns entries = .ok entries := by
  rw [checkDns, List.find?_eq_none.mpr plain]

/-! ## What is left in the entries -/

/-- Some entry has the attribute. -/
def HasKey (key : String) (entries : List Entry) : Prop :=
  ∃ entry ∈ entries, (entry.attrs.lookup key).isSome = true

theorem isSome_pushValue {attrs : List (String × List String)} {key base value : String}
    (known : (attrs.lookup key).isSome = true ∨ key = base) :
    ((pushValue attrs base value).lookup key).isSome = true := by
  rw [lookup_pushValue]
  split
  · rfl
  case isFalse other => exact known.resolve_right other

theorem hasKey_step {key : String} {line : ContentLine} (has : HasKey key parsing.finish.entries)
    (read : parsing.content line = .ok next) : HasKey key next.finish.entries := by
  obtain ⟨entry, member, known⟩ := has
  cases line with
  | empty =>
      cases read
      exact ⟨entry, List.mem_append_left _ member, known⟩
  | comment remark =>
      cases read
      exact ⟨entry, member, known⟩
  | version line =>
      cases read
      exact ⟨entry, member, known⟩
  | dn line =>
      cases read
      exact ⟨entry, List.mem_append_left _ member, known⟩
  | attr line =>
      obtain ⟨entries, current⟩ := parsing
      rw [Parsing.content] at read
      split at read
      · cases read
        exact ⟨entry, member, known⟩
      · cases current with
        | none =>
            cases read
            exact ⟨entry, member, known⟩
        | some current =>
            simp only at read
            split at read
            · contradiction
            · cases read
              rcases List.mem_append.mp member with before | here
              · exact ⟨entry, List.mem_append_left _ before, known⟩
              · cases List.mem_singleton.mp here
                exact ⟨_, List.mem_append_right _ List.mem_cons_self, isSome_pushValue (.inl known)⟩

theorem hasKey_attr {line : Attribute} (isOpen : parsing.current.isSome = true)
    (notVersion : line.key ≠ "version") (read : parsing.content (.attr line) = .ok next) :
    HasKey line.key next.finish.entries := by
  obtain ⟨entries, current⟩ := parsing
  rw [Parsing.content, not_version_of_key notVersion, if_neg Bool.false_ne_true] at read
  cases current with
  | none => exact absurd isOpen Bool.false_ne_true
  | some current =>
      simp only at read
      split at read
      · cases read
      · cases read
        exact ⟨_, List.mem_append_right _ List.mem_cons_self, isSome_pushValue (.inr rfl)⟩

theorem hasKey_run {key : String} {lines : List ContentLine}
    (has : HasKey key parsing.finish.entries) (read : parseContent lines parsing = .ok last) :
    HasKey key last.finish.entries := by
  induction lines generalizing parsing with
  | nil =>
      cases read
      exact has
  | cons line lines ih =>
      rw [parseContent] at read
      split at read
      case h_1 next isNext => exact ih (hasKey_step has isNext) read
      case h_2 => contradiction

theorem hasKey_parseContent {line : Attribute} {lines : List ContentLine}
    (notVersion : line.key ≠ "version") (inRecords : InRecords parsing.current.isSome lines)
    (member : .attr line ∈ lines) (read : parseContent lines parsing = .ok last) :
    HasKey line.key last.finish.entries := by
  induction lines generalizing parsing with
  | nil => exact absurd member List.not_mem_nil
  | cons first lines ih =>
      rw [parseContent] at read
      split at read
      case h_1 next isNext =>
        rcases List.mem_cons.mp member with rfl | later
        · exact hasKey_run (hasKey_attr inRecords.1 notVersion isNext) read
        · exact ih (inRecords_step inRecords isNext) later read
      case h_2 => cases read

theorem not_hasKey_stripped {key : String} (operational : OPERATIONAL_ATTRS.contains key = true)
    (entries : List Entry) : ¬ HasKey key (entries.map Entry.stripped) := by
  rintro ⟨stripped, member, known⟩
  obtain ⟨entry, -, rfl⟩ := List.mem_map.mp member
  obtain ⟨values, found⟩ := Option.isSome_iff_exists.mp known
  obtain ⟨front, back, isList, -⟩ := List.lookup_eq_some_iff.mp found
  have kept : (key, values) ∈ entry.stripped.attrs := isList ▸ List.mem_append_right front List.mem_cons_self
  have notOperational := (List.mem_filter.mp kept).2
  rw [operational] at notOperational
  contradiction

/-! ## The lines that are kept -/

theorem kept_of_not_operational {written : Written} (plain : written.line.operational = false) :
    written.dropped = false := by
  rw [Written.dropped, plain, Bool.false_and]

theorem inRecords_kept {inRecord : Bool} {content : List Written}
    (inRecords : InRecords inRecord (content.map Written.line)) :
    InRecords inRecord ((content.filter fun written => !written.dropped).map Written.line) := by
  induction content generalizing inRecord with
  | nil => exact inRecords
  | cons written content ih =>
      rw [List.map_cons] at inRecords
      have kept (plain : written.line.operational = false) :
          ((written :: content).filter fun written => !written.dropped).map Written.line =
            written.line :: (content.filter fun written => !written.dropped).map Written.line := by
        rw [List.filter_cons, kept_of_not_operational plain]
        rfl
      cases isLine : written.line with
      | attr line =>
          rw [isLine] at inRecords
          rw [List.filter_cons]
          split
          · rw [List.map_cons, isLine]
            exact ⟨inRecords.1, ih inRecords.2⟩
          · exact ih inRecords.2
      | empty =>
          rw [kept (by rw [isLine]; rfl), isLine]
          rw [isLine] at inRecords
          exact @ih false inRecords
      | comment remark =>
          rw [kept (by rw [isLine]; rfl), isLine]
          rw [isLine] at inRecords
          exact @ih inRecord inRecords
      | version line =>
          rw [kept (by rw [isLine]; rfl), isLine]
          rw [isLine] at inRecords
          exact @ih inRecord inRecords
      | dn line =>
          rw [kept (by rw [isLine]; rfl), isLine]
          rw [isLine] at inRecords
          exact @ih true inRecords

theorem mem_kept {content : List Written} {line : ContentLine} (plain : line.operational = false)
    (member : line ∈ content.map Written.line) :
    line ∈ (content.filter fun written => !written.dropped).map Written.line := by
  obtain ⟨written, listed, rfl⟩ := List.mem_map.mp member
  apply List.mem_map_of_mem
  rw [List.mem_filter, kept_of_not_operational plain]
  exact ⟨listed, rfl⟩

theorem mem_of_kept {content : List Written} {line : ContentLine}
    (member : line ∈ (content.filter fun written => !written.dropped).map Written.line) :
    line ∈ content.map Written.line := by
  obtain ⟨written, listed, rfl⟩ := List.mem_map.mp member
  exact List.mem_map_of_mem (List.mem_of_mem_filter listed)

theorem dns_kept (content : List Written) :
    ((content.filter fun written => !written.dropped).map Written.line).filterMap ContentLine.dn? =
      (content.map Written.line).filterMap ContentLine.dn? := by
  induction content with
  | nil => rfl
  | cons written content ih =>
      rw [List.filter_cons]
      cases dropped : written.dropped with
      | false =>
          rw [if_pos (by rfl), List.map_cons, List.filterMap_cons, ih]
          rfl
      | true =>
          have gone : written.line.dn? = none := by
            rw [Written.dropped, Bool.and_eq_true] at dropped
            cases isLine : written.line with
            | dn line =>
                rw [isLine] at dropped
                exact absurd dropped.1 Bool.false_ne_true
            | _ => rfl
          rw [if_neg (by decide), List.map_cons, List.filterMap_cons_none gone, ih]

/-- A text that is refused is refused as well without the lines. -/
theorem agrees_of_refused {content : List Written}
    (inRecords : InRecords false (content.map Written.line))
    (refused : Refused (content.map Written.line)) : Agrees (writtenText content) := by
  have own : Parsing.Own ⟨[], none⟩ := fun _ isCurrent => nomatch isCurrent
  rw [Agrees, strip_writtenText, parseLDIF_writtenText, parseLDIF_writtenText]
  by_cases named : ∃ line, .attr line ∈ content.map Written.line ∧ inherited.contains line.key = true
  · have keptNamed : ∃ line, .attr line ∈ (content.filter fun written => !written.dropped).map
        Written.line ∧ inherited.contains line.key = true := by
      obtain ⟨line, member, isOwn⟩ := named
      exact ⟨line, mem_kept (not_operational_of_inherited isOwn) member, isOwn⟩
    rw [@parseContent_thrown ⟨[], none⟩ _ inRecords own named,
      @parseContent_thrown ⟨[], none⟩ _ (inRecords_kept inRecords) own keptNamed]
    rfl
  · have plain (line : Attribute) (member : .attr line ∈ content.map Written.line) :
        inherited.contains line.key = false :=
      Bool.eq_false_iff.mpr fun isOwn => named ⟨line, member, isOwn⟩
    obtain ⟨last, read⟩ := @parseContent_ok ⟨[], none⟩ _ plain
    obtain ⟨keptLast, keptRead⟩ := @parseContent_ok ⟨[], none⟩ _
      fun line member => plain line (mem_of_kept member)
    have dns := parseContent_dns read
    have keptDns := parseContent_dns keptRead
    rw [dns_kept, ← dns] at keptDns
    rw [read, keptRead]
    apply checkDns_same keptDns
    obtain ⟨line, member, control⟩ := refused.resolve_left named
    refine ⟨line.spec.read, ?_, control⟩
    rw [dns]
    exact List.mem_append_right _ (List.mem_filterMap.mpr ⟨.dn line, member, rfl⟩)

theorem parseLDIF_ok {content : List Written} {last : Parsing}
    (read : parseContent (content.map Written.line) ⟨[], none⟩ = .ok last)
    (plain : ∀ line, .dn line ∈ content.map Written.line → ¬ line.spec.read.toList.any isControl = true) :
    parseLDIF (some (writtenText content)) = .ok last.finish.entries := by
  rw [parseLDIF_writtenText, read]
  apply checkDns_ok
  intro dn member
  rw [parseContent_dns read] at member
  obtain ⟨line, inLines, isDn⟩ := List.mem_filterMap.mp member
  cases line with
  | dn line =>
      cases isDn
      exact plain line inLines
  | empty => contradiction
  | comment => contradiction
  | version => contradiction
  | attr => contradiction

/-- A line that is kept leaves its attribute in the entry. -/
theorem not_agrees {content : List Written} (inRecords : InRecords false (content.map Written.line))
    (accepted : ¬ Refused (content.map Written.line)) {written : Written} (listed : written ∈ content)
    (operational : written.line.operational = true) (folded : ':' ∉ written.first) :
    ¬ Agrees (writtenText content) := by
  intro agrees
  obtain ⟨notNamed, notControl⟩ := not_or.mp accepted
  have own (line : Attribute) (member : .attr line ∈ content.map Written.line) :
      inherited.contains line.key = false :=
    Bool.eq_false_iff.mpr fun isOwn => notNamed ⟨line, member, isOwn⟩
  have plain (line : Distinguished) (member : .dn line ∈ content.map Written.line) :
      ¬ line.spec.read.toList.any isControl = true :=
    fun control => notControl ⟨line, member, control⟩
  obtain ⟨last, read⟩ := @parseContent_ok ⟨[], none⟩ _ own
  obtain ⟨keptLast, keptRead⟩ := @parseContent_ok ⟨[], none⟩ _
    fun line member => own line (mem_of_kept member)
  rw [Agrees, strip_writtenText, parseLDIF_ok read plain,
    parseLDIF_ok keptRead fun line member => plain line (mem_of_kept member)] at agrees
  have same : keptLast.finish.entries = last.finish.entries.map Entry.stripped := Except.ok.inj agrees
  have kept : written.dropped = false := by
    rw [Written.dropped, operational, Bool.true_and]
    exact Bool.eq_false_iff.mpr fun colon => folded (List.contains_iff_mem.mp colon)
  have member : written.line ∈
      (content.filter fun written => !written.dropped).map Written.line := by
    apply List.mem_map_of_mem
    rw [List.mem_filter, kept]
    exact ⟨listed, rfl⟩
  cases isLine : written.line with
  | attr line =>
      rw [isLine] at operational member
      have plainKey : ∀ name ∈ OPERATIONAL_ATTRS, name ≠ "version" := by decide
      have notVersion := plainKey line.key (List.contains_iff_mem.mp operational)
      have started : InRecords (Parsing.current ⟨[], none⟩).isSome _ := inRecords_kept inRecords
      have has := hasKey_parseContent notVersion started member keptRead
      rw [same] at has
      exact not_hasKey_stripped operational _ has
  | empty => rw [isLine] at operational; contradiction
  | comment => rw [isLine] at operational; contradiction
  | version => rw [isLine] at operational; contradiction
  | dn => rw [isLine] at operational; contradiction

/-- The lines and the attributes are the same to the parser exactly when no line of an operational
attribute is folded in front of its colon, or nothing is read at all. -/
theorem agrees_iff (content : List Written) (inRecords : InRecords false (content.map Written.line)) :
    Agrees (writtenText content) ↔
      (∀ written ∈ content, written.line.operational → ':' ∈ written.first) ∨
        Refused (content.map Written.line) := by
  constructor
  · intro agrees
    by_cases refused : Refused (content.map Written.line)
    · exact .inr refused
    · apply Or.inl
      intro written listed operational
      by_contra folded
      exact not_agrees inRecords refused listed operational folded agrees
  · rintro (folded | refused)
    · exact agrees_of_folded folded
    · exact agrees_of_refused inRecords refused

/-! ## A fold in front of the colon -/

def dnLine : Written where
  line := .dn ⟨['d', 'n'], .plain " cn=x".toList, rfl, by
    refine ⟨forall_of_all (by decide), fun char isHead => ?_⟩
    cases isHead
    decide⟩
  first := "dn: cn=x".toList
  rest := []
  whole := rfl
  started := fun _ => rfl

/-- A membership that is folded where the name ends. -/
def memberOfLine (first : List Char) (rest : List (List Char))
    (whole : first ++ rest.flatten = "memberOf: cn=y".toList) (started : first = [] → rest = []) :
    Written where
  line := .attr {
    base := "memberOf".toList
    spec := .plain " cn=y".toList
    named := ⟨by decide, forall_of_all (by decide)⟩
    allowed := ⟨forall_of_all (by decide), fun char isHead => by
      cases isHead
      decide⟩
    reserved := by decide }
  first := first
  rest := rest
  whole := whole
  started := started

def foldedContent : List Written :=
  [dnLine, memberOfLine "memberOf".toList [": cn=y".toList] rfl fun none => (nomatch none)]

theorem not_agrees_foldedContent :
    writtenText foldedContent = "dn: cn=x\nmemberOf\n : cn=y\n" ∧
      InRecords false (foldedContent.map Written.line) ∧ ¬ Agrees (writtenText foldedContent) := by
  refine ⟨rfl, ⟨rfl, trivial⟩, ?_⟩
  have text : writtenText foldedContent = "dn: cn=x\nmemberOf\n : cn=y\n" := rfl
  have kept : stripOperationalAttrs (some "dn: cn=x\nmemberOf\n : cn=y\n") =
      "dn: cn=x\nmemberOf\n : cn=y\n" := by decide +kernel
  have read : parseLDIF (some "dn: cn=x\nmemberOf\n : cn=y\n") =
      .ok [⟨"cn=x", [("memberof", ["cn=y"])]⟩] := by decide +kernel
  rw [Agrees, text, kept, read]
  intro agrees
  have same := Except.ok.inj agrees
  revert same
  decide +kernel

def behindContent : List Written :=
  [dnLine, memberOfLine "memberOf:".toList [" cn=y".toList] rfl fun none => (nomatch none)]

theorem agrees_behindContent : Agrees (writtenText behindContent) := by
  apply (agrees_iff behindContent ⟨rfl, trivial⟩).mpr
  apply Or.inl
  intro written listed _
  rcases List.mem_pair.mp listed with rfl | rfl
  · decide +kernel
  · decide +kernel

end ThetaDirectory.Migration
