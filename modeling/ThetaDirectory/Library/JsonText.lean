import ThetaDirectory.Library.Numerals
import ThetaDirectory.Library.Properties

/-!
# Texts of JSON values

The values that `JSON.parse` of ECMAScript gives, what a path leads to in one, and the text that
`JSON.stringify` writes without white space, from which the value in its order can be read back.
-/

namespace ThetaDirectory.Library.JsonText

open Utf16 Numerals Properties

inductive Json where
  | null
  | bool (value : Bool)
  | num (value : Number)
  | str (value : Units)
  | arr (items : List Json)
  | obj (fields : List (Units × Json))

theorem Json.inductionOn {motive : Json → Prop} (value : Json) (null : motive .null)
    (bool : ∀ value, motive (.bool value)) (num : ∀ value, motive (.num value))
    (str : ∀ value, motive (.str value))
    (arr : ∀ items : List Json, (∀ item ∈ items, motive item) → motive (.arr items))
    (obj : ∀ fields : List (Units × Json), (∀ field ∈ fields, motive field.2) →
      motive (.obj fields)) : motive value := by
  match value with
  | .null => exact null
  | .bool value => exact bool value
  | .num value => exact num value
  | .str value => exact str value
  | .arr items => exact arr items fun item member => inductionOn item null bool num str arr obj
  | .obj fields => exact obj fields fun field member => inductionOn field.2 null bool num str arr obj
  termination_by sizeOf value
  decreasing_by
    · have size := List.sizeOf_lt_of_mem member
      rw [Json.arr.sizeOf_spec]
      omega
    · have size := List.sizeOf_lt_of_mem member
      obtain ⟨key, value⟩ := field
      change sizeOf value < _
      rw [Prod.mk.sizeOf_spec] at size
      rw [Json.obj.sizeOf_spec]
      omega

/-! ## Paths -/

inductive Step where
  | key (key : Units)
  | index (position : Nat)
  deriving DecidableEq

/-- A value without what is inside. -/
inductive Shape where
  | null
  | bool (value : Bool)
  | num (value : Number)
  | str (value : Units)
  | arr (length : Nat)
  | obj
  deriving DecidableEq

def Json.shape : Json → Shape
  | .null => .null
  | .bool value => .bool value
  | .num value => .num value
  | .str value => .str value
  | .arr items => .arr items.length
  | .obj _ => .obj

/-- What a path leads to. -/
def look : List Step → Json → Option Shape
  | [], value => some value.shape
  | .key key :: path, .obj fields => (fields.lookup key).bind (look path)
  | .index position :: path, .arr items => items[position]?.bind (look path)
  | _ :: _, _ => none

/-- Equal up to the order of keys: every path leads to the same. -/
def Same (value other : Json) : Prop := ∀ path, look path value = look path other

theorem lookup_eq_none {fields : List (Units × Json)} {key : Units}
    (absent : look [.key key] (.obj fields) = none) : fields.lookup key = none := by
  rw [look] at absent
  cases found : fields.lookup key with
  | none => rfl
  | some value =>
      rw [found] at absent
      cases absent

/-! ## Texts -/

/-- The letter of a short escape. -/
def escape (unit : UInt16) : Option Char :=
  [(8, 'b'), (9, 't'), (10, 'n'), (12, 'f'), (13, 'r'), (34, '"'), (92, '\\')].lookup unit

def hex (unit : UInt16) : List Char :=
  [Nat.digitChar (unit.toNat / 4096), Nat.digitChar (unit.toNat / 256 % 16),
    Nat.digitChar (unit.toNat / 16 % 16), Nat.digitChar (unit.toNat % 16)]

def quoteUnit (unit : UInt16) : List Char :=
  match escape unit with
  | some letter => ['\\', letter]
  | none => if unit.toNat < 32 || isSurrogate unit then '\\' :: 'u' :: hex unit else [unitChar unit]

/-- Pairs are written as their character, other surrogates as escapes. -/
def quoteUnits : Units → List Char
  | [] => []
  | [unit] => quoteUnit unit
  | unit :: next :: rest =>
      if isHigh unit && isLow next then pairChar unit next :: quoteUnits rest
      else quoteUnit unit ++ quoteUnits (next :: rest)

def quote (text : Units) : List Char := '"' :: (quoteUnits text ++ ['"'])

def joined (texts : List (List Char)) : List Char := [','].intercalate texts

def entry (field : Units × List Char) : List Char := quote field.1 ++ ':' :: field.2

mutual

/-- `JSON.stringify` -/
def stringify : Json → List Char
  | .null => "null".toList
  | .bool value => (if value then "true" else "false").toList
  | .num value => value.text
  | .str value => quote value
  | .arr items => '[' :: (joined (stringifyItems items) ++ [']'])
  | .obj fields => '{' :: (joined ((ownFields (stringifyFields fields)).map entry) ++ ['}'])

def stringifyItems : List Json → List (List Char)
  | [] => []
  | item :: items => stringify item :: stringifyItems items

def stringifyFields : List (Units × Json) → List (Units × List Char)
  | [] => []
  | (key, value) :: fields => (key, stringify value) :: stringifyFields fields

end

/-! ## The order of properties -/

mutual

/-- The value with all properties in the order they come in. -/
def ordered : Json → Json
  | .arr items => .arr (orderedItems items)
  | .obj fields => .obj (ownFields (orderedFields fields))
  | .null => .null
  | .bool value => .bool value
  | .num value => .num value
  | .str value => .str value

def orderedItems : List Json → List Json
  | [] => []
  | item :: items => ordered item :: orderedItems items

def orderedFields : List (Units × Json) → List (Units × Json)
  | [] => []
  | (key, value) :: fields => (key, ordered value) :: orderedFields fields

end

mutual

/-- The text of a value whose properties are in order. -/
def print : Json → List Char
  | .null => "null".toList
  | .bool value => (if value then "true" else "false").toList
  | .num value => value.text
  | .str value => quote value
  | .arr items => '[' :: (joined (printItems items) ++ [']'])
  | .obj fields => '{' :: (joined (printFields fields) ++ ['}'])

def printItems : List Json → List (List Char)
  | [] => []
  | item :: items => print item :: printItems items

def printFields : List (Units × Json) → List (List Char)
  | [] => []
  | (key, value) :: fields => entry (key, print value) :: printFields fields

end

theorem orderedItems_eq (items : List Json) : orderedItems items = items.map ordered := by
  induction items with
  | nil => rfl
  | cons item items ih => rw [orderedItems, ih, List.map_cons]

theorem orderedFields_eq (fields : List (Units × Json)) :
    orderedFields fields = mapValues ordered fields := by
  induction fields with
  | nil => rfl
  | cons field fields ih => exact congrArg _ ih

theorem stringifyItems_eq (items : List Json) : stringifyItems items = items.map stringify := by
  induction items with
  | nil => rfl
  | cons item items ih => rw [stringifyItems, ih, List.map_cons]

theorem stringifyFields_eq (fields : List (Units × Json)) :
    stringifyFields fields = mapValues stringify fields := by
  induction fields with
  | nil => rfl
  | cons field fields ih => exact congrArg _ ih

theorem printItems_eq (items : List Json) : printItems items = items.map print := by
  induction items with
  | nil => rfl
  | cons item items ih => rw [printItems, ih, List.map_cons]

theorem printFields_eq (fields : List (Units × Json)) :
    printFields fields = (mapValues print fields).map entry := by
  induction fields with
  | nil => rfl
  | cons field fields ih => exact congrArg _ ih

theorem stringify_eq (value : Json) : stringify value = print (ordered value) := by
  induction value using Json.inductionOn with
  | null | bool _ | num _ | str _ => simp only [stringify, ordered, print]
  | arr items ih =>
      have each : items.map stringify = (items.map ordered).map print := by
        rw [List.map_map]
        exact List.map_congr_left ih
      simp only [stringify, ordered, print, stringifyItems_eq, orderedItems_eq, printItems_eq, each]
  | obj fields ih =>
      have each : mapValues stringify fields = mapValues print (mapValues ordered fields) := by
        unfold mapValues
        rw [List.map_map]
        exact List.map_congr_left fun field member => congrArg _ (ih field member)
      simp only [stringify, ordered, print, stringifyFields_eq, orderedFields_eq, printFields_eq, each,
        ownFields_mapValues]

/-! ## Reading strings back -/

def unescape : Char → UInt16
  | 'b' => 8
  | 't' => 9
  | 'n' => 10
  | 'f' => 12
  | 'r' => 13
  | '"' => 34
  | _ => 92

def hexDigit (char : Char) : Nat := ((List.range 16).find? (Nat.digitChar · == char)).getD 0

def unhex (first second third fourth : Char) : UInt16 :=
  UInt16.ofNat (((hexDigit first * 16 + hexDigit second) * 16 + hexDigit third) * 16 +
    hexDigit fourth)

/-- A string up to its closing mark, and the text behind it. -/
def unquote : List Char → Units × List Char
  | [] => ([], [])
  | '"' :: rest => ([], rest)
  | '\\' :: 'u' :: first :: second :: third :: fourth :: rest =>
      let (units, back) := unquote rest
      (unhex first second third fourth :: units, back)
  | '\\' :: letter :: rest =>
      let (units, back) := unquote rest
      (unescape letter :: units, back)
  | char :: rest =>
      let (units, back) := unquote rest
      (ofChar char ++ units, back)

theorem hexDigit_digitChar {digit : Nat} (small : digit < 16) :
    hexDigit (Nat.digitChar digit) = digit := by
  have all : ∀ digit : Fin 16, hexDigit (Nat.digitChar digit) = digit := by decide
  exact all ⟨digit, small⟩

theorem unhex_hex (unit : UInt16) :
    unhex (Nat.digitChar (unit.toNat / 4096)) (Nat.digitChar (unit.toNat / 256 % 16))
      (Nat.digitChar (unit.toNat / 16 % 16)) (Nat.digitChar (unit.toNat % 16)) = unit := by
  have bound := unit.toNat_lt
  rw [unhex, hexDigit_digitChar (by omega), hexDigit_digitChar (by omega),
    hexDigit_digitChar (by omega), hexDigit_digitChar (by omega)]
  have whole : ((unit.toNat / 4096 * 16 + unit.toNat / 256 % 16) * 16 + unit.toNat / 16 % 16) * 16 +
      unit.toNat % 16 = unit.toNat := by omega
  rw [whole, UInt16.ofNat_toNat]

theorem unescape_escape {unit : UInt16} {letter : Char} (short : escape unit = some letter) :
    letter ≠ 'u' ∧ unescape letter = unit := by
  have table : ∀ pair ∈ ([(8, 'b'), (9, 't'), (10, 'n'), (12, 'f'), (13, 'r'), (34, '"'),
      (92, '\\')] : List (UInt16 × Char)), pair.2 ≠ 'u' ∧ unescape pair.2 = pair.1 := by decide
  obtain ⟨front, back, listed, -⟩ := List.lookup_eq_some_iff.mp short
  exact table (unit, letter) (by rw [listed]; simp)

theorem ne_of_escape {unit : UInt16} (plain : escape unit = none) : unit ≠ 34 ∧ unit ≠ 92 := by
  constructor <;> (rintro rfl; cases plain)

theorem unquote_char {char : Char} (rest : List Char) (notMark : char ≠ '"')
    (notEscape : char ≠ '\\') :
    unquote (char :: rest) = (ofChar char ++ (unquote rest).1, (unquote rest).2) := by
  rw [unquote]
  · exact notMark
  · exact fun _ _ _ _ _ same => absurd same notEscape
  · exact fun _ _ same => absurd same notEscape

theorem unquote_quoteUnit (unit : UInt16) (rest : List Char) :
    unquote (quoteUnit unit ++ rest) = (unit :: (unquote rest).1, (unquote rest).2) := by
  unfold quoteUnit
  split
  · rename_i letter short
    obtain ⟨notHex, back⟩ := unescape_escape short
    change unquote ('\\' :: letter :: rest) = _
    rw [unquote, back]
    exact fun _ _ _ _ _ same => absurd same notHex
  · rename_i plain
    split
    · change unquote ('\\' :: 'u' :: _ :: _ :: _ :: _ :: rest) = _
      rw [unquote, unhex_hex]
    · rename_i printed
      rw [Bool.or_eq_true, not_or, Bool.not_eq_true, Bool.not_eq_true] at printed
      have other {code : UInt16} {char : Char} (different : unit ≠ code)
          (named : code.toNat = char.toNat) : unitChar unit ≠ char :=
        unitChar_ne printed.2 fun same => different (UInt16.toNat_inj.mp (same.trans named.symm))
      obtain ⟨notMark, notEscape⟩ := ne_of_escape plain
      change unquote (unitChar unit :: rest) = _
      rw [unquote_char rest (other notMark rfl) (other notEscape rfl), ofChar_unitChar printed.2]
      rfl

theorem unquote_quoteUnits (text : Units) (rest : List Char) :
    unquote (quoteUnits text ++ '"' :: rest) = (text, rest) := by
  induction text using quoteUnits.induct with
  | case1 => rw [quoteUnits, List.nil_append, unquote]
  | case2 unit => rw [quoteUnits, unquote_quoteUnit, unquote]
  | case3 unit next text pair ih =>
      rw [quoteUnits, if_pos pair, List.cons_append]
      rw [Bool.and_eq_true] at pair
      rw [unquote_char _ (pairChar_ne pair.1 pair.2 (by decide))
        (pairChar_ne pair.1 pair.2 (by decide)), ih, ofChar_pairChar pair.1 pair.2]
      rfl
  | case4 unit next text single ih =>
      rw [quoteUnits, if_neg single, List.append_assoc, unquote_quoteUnit, ih]

theorem quote_inj {text other : Units} {rest later : List Char}
    (same : quote text ++ rest = quote other ++ later) : text = other ∧ rest = later := by
  simp only [quote, List.cons_append, List.append_assoc, List.cons.injEq, true_and,
    List.nil_append] at same
  have read := congrArg unquote same
  rw [unquote_quoteUnits, unquote_quoteUnits] at read
  exact Prod.mk.inj read

/-! ## Reading values back -/

/-- A place at which a value is over. -/
def Ends (rest : List Char) : Prop := ∀ char ∈ rest.head?, char ∈ [',', ']', '}']

def Json.kind : Json → Nat
  | .null => 0
  | .bool _ => 1
  | .num _ => 2
  | .str _ => 3
  | .arr _ => 4
  | .obj _ => 5

/-- The kind of the values that begin with a character. -/
def kindOf (char : Char) : Nat :=
  if isNumeral char then 2
  else ([('n', 0), ('t', 1), ('f', 1), ('"', 3), ('[', 4), ('{', 5)].lookup char).getD 6

/-- Whatever stands behind it, a text of its kind is of this entry and ends where it does. -/
def Reads {α : Type} (text : α → List Char) (entry : α) : Prop :=
  ∀ other rest later, Ends rest → Ends later → text entry ++ rest = text other ++ later →
    entry = other ∧ rest = later

theorem exists_head (value : Json) :
    ∃ char back, print value = char :: back ∧ kindOf char = value.kind := by
  cases value with
  | null => exact ⟨'n', _, rfl, rfl⟩
  | bool value =>
      cases value with
      | true => exact ⟨'t', _, rfl, rfl⟩
      | false => exact ⟨'f', _, rfl, rfl⟩
  | num value =>
      cases same : value.text with
      | nil => exact absurd same value.text_ne_nil
      | cons char back =>
          have numeral : isNumeral char = true :=
            Number.isNumeral_text (by rw [same]; exact List.mem_cons_self)
          exact ⟨char, back, same, if_pos numeral⟩
  | str value => exact ⟨'"', _, rfl, rfl⟩
  | arr items => exact ⟨'[', _, rfl, rfl⟩
  | obj fields => exact ⟨'{', _, rfl, rfl⟩

theorem kind_eq {value other : Json} {rest later : List Char}
    (same : print value ++ rest = print other ++ later) : value.kind = other.kind := by
  obtain ⟨char, back, text, kind⟩ := exists_head value
  obtain ⟨second, behind, textOther, kindOther⟩ := exists_head other
  rw [text, textOther] at same
  rw [← kind, ← kindOther, (List.cons.inj same).1]

theorem reads_number (value : Number) : Reads Number.text value := by
  intro other rest later ends endsLater same
  have outside {rest : List Char} (ends : Ends rest) : rest.takeWhile isNumeral = [] := by
    cases rest with
    | nil => rfl
    | cons char back =>
        apply List.takeWhile_cons_of_neg
        have mark : [',', ']', '}'].all (fun char => !isNumeral char) = true := by decide
        simpa using List.all_eq_true.mp mark char (ends char rfl)
  have texts := congrArg (List.takeWhile isNumeral) same
  rw [List.takeWhile_append_of_pos fun _ => Number.isNumeral_text,
    List.takeWhile_append_of_pos fun _ => Number.isNumeral_text, outside ends, outside endsLater,
    List.append_nil, List.append_nil] at texts
  rw [texts] at same
  exact ⟨Number.text_inj texts, List.append_cancel_left same⟩

theorem reads_entry {field : Units × Json} (reads : Reads print field.2) :
    Reads (fun field => entry (field.1, print field.2)) field := by
  intro other rest later ends endsLater same
  have split (field : Units × Json) (rest : List Char) :
      entry (field.1, print field.2) ++ rest = quote field.1 ++ ':' :: (print field.2 ++ rest) := by
    simp only [entry, List.append_assoc, List.cons_append]
  rw [split, split] at same
  obtain ⟨keys, tails⟩ := quote_inj same
  obtain ⟨values, behind⟩ := reads other.2 rest later ends endsLater (List.cons.inj tails).2
  exact ⟨Prod.ext keys values, behind⟩

/-- What follows the first of several texts. -/
def further : List (List Char) → List Char
  | [] => []
  | text :: texts => ',' :: joined (text :: texts)

theorem joined_cons (text : List Char) (texts : List (List Char)) :
    joined (text :: texts) = text ++ further texts := by
  cases texts with
  | nil => rfl
  | cons next texts => rfl

section Joined

variable {α : Type} {text : α → List Char} {close : Char}

theorem ends_further (mark : close ∈ [',', ']', '}']) (texts : List (List Char)) (rest : List Char) :
    Ends (further texts ++ close :: rest) := by
  cases texts with
  | nil =>
      intro char here
      cases here
      exact mark
  | cons next texts =>
      intro char here
      cases here
      exact List.mem_cons_self

/-- Joined texts up to a closing mark, which is none of a first character. -/
theorem joined_inj (mark : close ∈ [']', '}'])
    (starts : ∀ entry, ∃ char back, text entry = char :: back ∧ char ≠ close) {entries : List α}
    (reads : ∀ entry ∈ entries, Reads text entry) : ∀ {others : List α} {rest later : List Char},
      joined (entries.map text) ++ close :: rest = joined (others.map text) ++ close :: later →
      entries = others ∧ rest = later := by
  have closes (entry : α) (front rest later : List Char) :
      close :: rest ≠ text entry ++ front ++ later := by
    obtain ⟨char, back, starting, different⟩ := starts entry
    rw [starting]
    exact fun same => different (List.cons.inj same).1.symm
  have isMark : close ∈ [',', ']', '}'] := List.mem_cons_of_mem _ mark
  have notComma : ',' ≠ close := by
    rintro rfl
    revert mark
    decide
  induction entries with
  | nil =>
      intro others rest later same
      cases others with
      | nil => exact ⟨rfl, (List.cons.inj same).2⟩
      | cons other others =>
          rw [List.map_cons, joined_cons] at same
          exact absurd same (closes other _ _ _)
  | cons entry entries ih =>
      intro others rest later same
      cases others with
      | nil =>
          rw [List.map_cons, joined_cons] at same
          exact absurd same.symm (closes entry _ _ _)
      | cons other others =>
          rw [List.map_cons, List.map_cons, joined_cons, joined_cons, List.append_assoc,
            List.append_assoc] at same
          obtain ⟨rfl, tails⟩ := reads entry List.mem_cons_self other _ _
            (ends_further isMark _ _) (ends_further isMark _ _) same
          suffices further : entries = others ∧ rest = later by
            exact ⟨congrArg _ further.1, further.2⟩
          match entries, others, tails with
          | [], [], tails => exact ⟨rfl, (List.cons.inj tails).2⟩
          | [], _ :: _, tails => exact absurd (List.cons.inj tails).1.symm notComma
          | _ :: _, [], tails => exact absurd (List.cons.inj tails).1 notComma
          | next :: entries, second :: others, tails =>
              exact ih (fun entry member => reads entry (List.mem_cons_of_mem _ member))
                (List.cons.inj tails).2

end Joined

theorem reads_print (value : Json) : Reads print value := by
  induction value using Json.inductionOn with
  | null =>
      intro other rest later _ _ same
      have kinds := kind_eq same
      cases other with
      | null => exact ⟨rfl, List.append_cancel_left same⟩
      | _ => cases kinds
  | bool value =>
      intro other rest later _ _ same
      have kinds := kind_eq same
      cases other with
      | bool second =>
          have values : value = second := by
            cases value <;> cases second
            · rfl
            · cases (List.cons.inj same).1
            · cases (List.cons.inj same).1
            · rfl
          subst values
          exact ⟨rfl, List.append_cancel_left same⟩
      | _ => cases kinds
  | num value =>
      intro other rest later ends endsLater same
      have kinds := kind_eq same
      cases other with
      | num second =>
          obtain ⟨rfl, tails⟩ := reads_number value second rest later ends endsLater same
          exact ⟨rfl, tails⟩
      | _ => cases kinds
  | str value =>
      intro other rest later _ _ same
      have kinds := kind_eq same
      cases other with
      | str second =>
          obtain ⟨rfl, tails⟩ := quote_inj same
          exact ⟨rfl, tails⟩
      | _ => cases kinds
  | arr items ih =>
      intro other rest later _ _ same
      have kinds := kind_eq same
      cases other with
      | arr others =>
          simp only [print, printItems_eq, List.cons_append, List.append_assoc, List.nil_append,
            List.cons.injEq, true_and] at same
          have starts (item : Json) : ∃ char back, print item = char :: back ∧ char ≠ ']' := by
            obtain ⟨char, back, text, kind⟩ := exists_head item
            refine ⟨char, back, text, ?_⟩
            rintro rfl
            cases item <;> cases kind
          obtain ⟨rfl, tails⟩ := joined_inj (by decide) starts ih same
          exact ⟨rfl, tails⟩
      | _ => cases kinds
  | obj fields ih =>
      intro other rest later _ _ same
      have kinds := kind_eq same
      cases other with
      | obj others =>
          simp only [print, printFields_eq, mapValues, List.map_map, List.cons_append,
            List.append_assoc, List.nil_append, List.cons.injEq, true_and] at same
          have starts (field : Units × Json) :
              ∃ char back, entry (field.1, print field.2) = char :: back ∧ char ≠ '}' :=
            ⟨'"', _, rfl, by decide⟩
          obtain ⟨rfl, tails⟩ := joined_inj (by decide) starts
            (fun field member => reads_entry (ih field member)) same
          exact ⟨rfl, tails⟩
      | _ => cases kinds

theorem print_inj {value other : Json} (same : print value = print other) : value = other := by
  have ends : Ends [] := fun _ none => nomatch none
  exact (reads_print value other [] [] ends ends (by rw [same])).1

/-! ## What is kept of a value -/

theorem look_ordered (value : Json) (path : List Step) : look path (ordered value) = look path value := by
  induction value using Json.inductionOn generalizing path with
  | null | bool _ | num _ | str _ => simp only [ordered]
  | arr items ih =>
      rw [ordered, orderedItems_eq]
      match path with
      | [] => exact congrArg (some ∘ Shape.arr) (List.length_map ordered)
      | .key _ :: _ => rfl
      | .index position :: path =>
          rw [look, look, List.getElem?_map]
          cases found : items[position]? with
          | none => rfl
          | some item => exact ih item (List.mem_of_getElem? found) path
  | obj fields ih =>
      rw [ordered, orderedFields_eq]
      match path with
      | [] => rfl
      | .index _ :: _ => rfl
      | .key key :: path =>
          rw [look, look, lookup_ownFields, lookup_mapValues]
          cases found : fields.lookup key with
          | none => rfl
          | some value => exact ih (key, value) (mem_of_lookup found) path

end ThetaDirectory.Library.JsonText
