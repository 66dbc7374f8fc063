import ThetaDirectory.Library.Delimited
import ThetaDirectory.Migration.Unfolding

/-!
# Decoding

What `parseLDIF` reads of each line of a document, and so of the whole.  A line is misread when its
attribute has the name of an inherited property, when it looks like the version of the format, and
when more than one space stands in front of a plain value.
-/

namespace ThetaDirectory.Migration

open Library

/-! ## Values -/

/-- What is read of a value. -/
def Encoding.read : Encoding → String → String
  | .plain fill, value => String.ofList (List.replicate (fill - 1) ' ' ++ value.toList)
  | .base64 _, value => value

/-- At most one space in front of a plain value. -/
def Encoding.Close : Encoding → Prop
  | .plain fill => fill ≤ 1
  | .base64 _ => True

instance (encoding : Encoding) : Decidable encoding.Close :=
  match encoding with
  | .plain fill => inferInstanceAs (Decidable (fill ≤ 1))
  | .base64 _ => inferInstanceAs (Decidable True)

variable {encoding : Encoding} {value : String} {label : List Char}

theorem read_eq_iff : encoding.read value = value ↔ encoding.Close := by
  cases encoding with
  | base64 fill => exact iff_of_true rfl trivial
  | plain fill =>
      change String.ofList (List.replicate (fill - 1) ' ' ++ value.toList) = value ↔ fill ≤ 1
      constructor
      · intro same
        have lengths := congrArg (fun text => text.toList.length) same
        simp only [String.toList_ofList, List.length_append, List.length_replicate] at lengths
        omega
      · intro close
        rw [Nat.sub_eq_zero_of_le close]
        exact String.ofList_toList

theorem parseLine_mark {rest : List Char} (free : ':' ∉ label) :
    (label ++ ':' :: rest).takeWhile (· ≠ ':') = label ∧
      (label ++ ':' :: rest).dropWhile (· ≠ ':') = ':' :: rest := by
  have inside : ∀ char ∈ label, decide (char ≠ ':') = true :=
    fun char member => decide_eq_true fun isMark => free (isMark ▸ member)
  exact ⟨Delimited.takeWhile_append_mark inside rfl, Delimited.dropWhile_append_mark inside rfl⟩

theorem dropSpace_fill {fill : Nat} {text : List Char} (first : ∀ char ∈ text.head?, char ≠ ' ') :
    dropSpace (List.replicate fill ' ' ++ text) = List.replicate (fill - 1) ' ' ++ text := by
  cases fill with
  | succ fill => rfl
  | zero =>
      cases text with
      | nil => rfl
      | cons char text =>
          change dropSpace (char :: text) = char :: text
          unfold dropSpace
          split
          · rename_i isSpace
            cases isSpace
            exact absurd rfl (first ' ' rfl)
          · rfl

theorem filter_fill (fill : Nat) (text : List Char) :
    (List.replicate fill ' ' ++ text).filter (fun char => !isSpace char) =
      text.filter fun char => !isSpace char := by
  rw [List.filter_append, List.filter_replicate_of_neg (by decide)]
  rfl

theorem isSpace_digit64 {char : Char} (isDigit : Octets.isDigit64 char = true) :
    isSpace char = false := by
  have ascii : char.toNat < 128 := by
    simp only [Octets.isDigit64, Bool.or_eq_true, beq_iff_eq] at isDigit
    rcases isDigit with (plain | rfl) | rfl
    · exact toNat_of_isAlphanum plain
    · decide
    · decide
  exact @of_ascii (fun char => Octets.isDigit64 char = true → isSpace char = false) char ascii
    (by decide) isDigit

/-- Base64 is read as it is, behind any spaces. -/
theorem cleaned_base64 (fill : Nat) (octets : List UInt8) :
    (dropSpace (List.replicate fill ' ' ++ Octets.base64Encode octets)).filter
        (fun char => !isSpace char) = Octets.base64Encode octets ∧
      isBase64 (Octets.base64Encode octets) = true := by
  obtain ⟨digits, count, isText, allDigits, few⟩ := Octets.base64Encode_shape octets
  have noSpace : ∀ char ∈ Octets.base64Encode octets, isSpace char = false := by
    intro char member
    rw [isText] at member
    rcases List.mem_append.mp member with inDigits | inMarks
    · exact isSpace_digit64 (allDigits char inDigits)
    · rw [List.eq_of_mem_replicate inMarks]
      rfl
  have first : ∀ char ∈ (Octets.base64Encode octets).head?, char ≠ ' ' := by
    rintro char isHead rfl
    exact absurd (noSpace ' ' (List.mem_of_mem_head? isHead)) (by decide)
  constructor
  · rw [dropSpace_fill first, filter_fill]
    apply List.filter_eq_self.mpr
    intro char member
    rw [noSpace char member]
    rfl
  · unfold isBase64
    rw [isText, List.dropWhile_append_of_pos allDigits]
    match count, few with
    | 0, _ => rfl
    | 1, _ => rfl
    | 2, _ => rfl

/-- A name and a value behind it. -/
theorem parseLine_write (free : ':' ∉ label) (allowed : encoding.Allowed value) :
    parseLine (label ++ encoding.write value) =
      .ok (some (String.ofList label, encoding.read value)) := by
  have split (rest : List Char) :
      parseLine (label ++ ':' :: rest) = parseValue (String.ofList label) rest := by
    obtain ⟨front, back⟩ := @parseLine_mark label rest free
    unfold parseLine
    rw [front, back]
  cases encoding with
  | plain fill =>
      have safe : IsSafe value.toList := allowed
      have first : ∀ char ∈ (List.replicate fill ' ' ++ value.toList).head?,
          char ≠ ':' ∧ char ≠ '<' := by
        cases fill with
        | zero => exact fun char isHead => (safe.first char isHead).2
        | succ fill =>
            intro char isHead
            cases isHead
            decide
      refine (split _).trans ?_
      unfold parseValue
      split
      · rename_i encoded isText
        rw [isText] at first
        exact absurd rfl (first ':' rfl).1
      · rename_i encoded isText
        rw [isText] at first
        exact absurd rfl (first '<' rfl).2
      · rw [dropSpace_fill fun char isHead => (safe.first char isHead).1]
        rfl
  | base64 fill =>
      have cleaned := cleaned_base64 fill (Octets.utf8Encode value.toList)
      refine (split _).trans ?_
      rw [parseValue, cleaned.1, if_pos cleaned.2, Octets.base64Decode_base64Encode,
        Octets.utf8Decode_utf8Encode, String.ofList_toList]
      rfl

/-! ## Names -/

/-- A character of names and options. -/
def IsNameChar (char : Char) : Prop := isTypeChar char = true ∨ char = '.' ∨ char = ';'

theorem toNat_of_isNameChar {char : Char} (isName : IsNameChar char) : char.toNat < 128 := by
  unfold IsNameChar isTypeChar at isName
  rw [Bool.or_eq_true, beq_iff_eq] at isName
  rcases isName with (plain | rfl) | rfl | rfl
  · exact toNat_of_isAlphanum plain
  · decide
  · decide
  · decide

theorem nameChar_spec {char : Char} (isName : IsNameChar char) :
    (char ≠ ':' ∧ char ≠ '#' ∧ char ≠ ' ' ∧ char ≠ '\n' ∧ char ≠ '\r') ∧
      lowerChar char = [char.toLower] ∧ (char.toLower = ';' → char = ';') :=
  @of_ascii (fun char => IsNameChar char →
      (char ≠ ':' ∧ char ≠ '#' ∧ char ≠ ' ' ∧ char ≠ '\n' ∧ char ≠ '\r') ∧
        lowerChar char = [char.toLower] ∧ (char.toLower = ';' → char = ';'))
    char (toNat_of_isNameChar isName) (by unfold IsNameChar; decide) isName

theorem typeChar_ne {char : Char} (isType : isTypeChar char = true ∨ char = '.') :
    IsNameChar char ∧ char ≠ ';' := by
  rcases isType with plain | rfl
  · refine ⟨Or.inl plain, ?_⟩
    rintro rfl
    exact absurd plain (by decide)
  · exact ⟨Or.inr (Or.inl rfl), by decide⟩

theorem toLowerCase_name {text : List Char} (isName : ∀ char ∈ text, IsNameChar char) :
    toLowerCase (String.ofList text) = String.ofList (text.map Char.toLower) := by
  unfold toLowerCase
  rw [String.toList_ofList]
  apply congrArg
  induction text with
  | nil => rfl
  | cons char text ih =>
      obtain ⟨here, later⟩ := List.forall_mem_cons.mp isName
      rw [List.flatMap_cons, (nameChar_spec here).2.1, ih later]
      rfl

variable {line : AttrLine}

theorem AttrLine.isName (line : AttrLine) : ∀ char ∈ line.name, IsNameChar char := by
  intro char member
  rcases List.mem_append.mp member with inBase | inOptions
  · exact (typeChar_ne (line.named.2 char inBase)).1
  · obtain ⟨option, listed, inside⟩ := List.mem_flatMap.mp inOptions
    rcases List.mem_cons.mp inside with rfl | inOption
    · exact Or.inr (Or.inr rfl)
    · exact Or.inl ((line.optioned option listed).2 char inOption)

theorem key_eq (line : AttrLine) : line.key = String.ofList (line.base.map Char.toLower) :=
  toLowerCase_name fun char member => (typeChar_ne (line.named.2 char member)).1

theorem semicolon_notMem_base (line : AttrLine) : ';' ∉ line.base.map Char.toLower := by
  intro member
  obtain ⟨char, inBase, isMark⟩ := List.mem_map.mp member
  obtain ⟨isName, notMark⟩ := typeChar_ne (line.named.2 char inBase)
  exact notMark ((nameChar_spec isName).2.2 isMark)

theorem map_toLower_name (line : AttrLine) :
    line.options = [] ∧ line.name.map Char.toLower = line.base.map Char.toLower ∨
      line.options ≠ [] ∧ ∃ rest, line.name.map Char.toLower =
        line.base.map Char.toLower ++ ';' :: rest := by
  unfold AttrLine.name
  cases options : line.options with
  | nil => exact Or.inl ⟨rfl, by rw [List.flatMap_nil, List.append_nil]⟩
  | cons option options =>
      refine Or.inr ⟨List.cons_ne_nil _ _, ?_⟩
      rw [List.flatMap_cons, List.map_append]
      exact ⟨_, rfl⟩

/-- The base of the name is what stands before the first option. -/
theorem takeWhile_name (line : AttrLine) :
    String.ofList ((toLowerCase (String.ofList line.name)).toList.takeWhile (· ≠ ';')) =
      line.key := by
  have inside : ∀ char ∈ line.base.map Char.toLower, decide (char ≠ ';') = true :=
    fun char member => decide_eq_true fun isMark => semicolon_notMem_base line (isMark ▸ member)
  rw [toLowerCase_name line.isName, String.toList_ofList, key_eq]
  apply congrArg
  rcases map_toLower_name line with ⟨-, same⟩ | ⟨-, rest, same⟩
  · rw [same, List.takeWhile_eq_self_iff.mpr inside]
  · rw [same, Delimited.takeWhile_append_mark inside rfl]

/-- A name that is not a reserved one, with any options. -/
theorem toLowerCase_name_ne {reserved : String} (plain : ';' ∉ reserved.toList)
    (other : line.key ≠ reserved) : toLowerCase (String.ofList line.name) ≠ reserved := by
  intro same
  have chars := congrArg String.toList same
  rw [toLowerCase_name line.isName, String.toList_ofList] at chars
  rcases map_toLower_name line with ⟨-, isBase⟩ | ⟨-, rest, isMore⟩
  · rw [isBase] at chars
    rw [key_eq, chars, String.ofList_toList] at other
    exact other rfl
  · rw [isMore] at chars
    exact plain (chars ▸ List.mem_append_right _ List.mem_cons_self)

/-! ## Versions -/

/-- Is the line taken for the version of the format? -/
def AttrLine.looksVersion (line : AttrLine) : Bool :=
  line.key = "version" && line.options = [] &&
    match line.encoding with
    | .plain _ => isVersionNumber line.value.toList
    | .base64 _ => false

theorem isVersionNumber_fill (fill : Nat) (text : List Char) :
    isVersionNumber (List.replicate fill ' ' ++ text) = isVersionNumber text := by
  unfold isVersionNumber
  rw [List.dropWhile_append_of_pos fun char member => by
    rw [List.eq_of_mem_replicate member]
    rfl]

theorem isVersionLine_write (free : ':' ∉ label) :
    isVersionLine (label ++ encoding.write value) =
      (decide (label.map Char.toLower = "version".toList) &&
        match encoding with
        | .plain _ => isVersionNumber value.toList
        | .base64 _ => false) := by
  have split (rest : List Char) : isVersionLine (label ++ ':' :: rest) =
      (decide (label.map Char.toLower = "version".toList) && isVersionNumber rest) := by
    obtain ⟨front, back⟩ := @parseLine_mark label rest free
    unfold isVersionLine
    rw [front, back]
    rfl
  cases encoding with
  | plain fill => exact (split _).trans (congrArg _ (isVersionNumber_fill fill value.toList))
  | base64 fill => exact split _

theorem colon_notMem_name (line : AttrLine) : ':' ∉ line.name :=
  fun member => (nameChar_spec (line.isName ':' member)).1.1 rfl

theorem isVersionLine_attr (line : AttrLine) : isVersionLine line.text = line.looksVersion := by
  refine (isVersionLine_write (colon_notMem_name line)).trans ?_
  unfold AttrLine.looksVersion
  congr 1
  rw [← Bool.decide_and, decide_eq_decide, key_eq, ← String.toList_inj,
    @String.toList_ofList (line.base.map Char.toLower)]
  rcases map_toLower_name line with ⟨none, same⟩ | ⟨some, rest, same⟩
  · rw [same, and_iff_left none]
  · rw [same]
    refine iff_of_false (fun isVersion => ?_) fun both => some both.2
    have member : ';' ∈ "version".toList := isVersion ▸ List.mem_append_right _ List.mem_cons_self
    exact absurd member (by decide)

end ThetaDirectory.Migration
