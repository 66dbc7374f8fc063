import Mathlib.Algebra.GroupWithZero.Nat
import Mathlib.Data.List.DropRight
import Mathlib.Data.List.Infix

/-!
# JavaScript text operations

The string operations the directory's naming code applies, on Lean strings.
-/

namespace ThetaDirectory

/-- One character of JavaScript `toLowerCase`.  The two letters outside ASCII
whose lower case contains an ASCII letter are spelled out; other letters
outside ASCII stay as they are, since no reader of lowered text tells them
apart. -/
def lowerChar (char : Char) : List Char :=
  if char = Char.ofNat 0x130 then ['i', Char.ofNat 0x307]
  else if char = Char.ofNat 0x212A then ['k']
  else [char.toLower]

def toLowerCase (text : String) : String :=
  String.ofList (text.toList.flatMap lowerChar)

theorem lowerChar_ne_nil (char : Char) : lowerChar char ≠ [] := by
  unfold lowerChar
  split
  · exact List.cons_ne_nil _ _
  · split <;> exact List.cons_ne_nil _ _

theorem toLowerCase_eq_empty {text : String} : toLowerCase text = "" ↔ text = "" := by
  rw [toLowerCase, ← String.toList_inj, ← String.toList_inj, String.toList_ofList]
  cases text.toList with
  | nil => simp
  | cons char rest => simp [lowerChar_ne_nil]

/-- The text of a value that counts as true: present and not empty. -/
def truthy (text : Option String) : Option String := text.filter (· ≠ "")

/-- The characters `\s` and `trim` treat as blank. -/
def isSpace (char : Char) : Bool :=
  char.val ∈ [9, 10, 11, 12, 13, 32, 0xa0, 0x1680, 0x2028, 0x2029, 0x202f, 0x205f, 0x3000, 0xfeff] ||
    0x2000 ≤ char.val && char.val ≤ 0x200a

def trim (text : String) : String :=
  String.ofList ((text.toList.dropWhile isSpace).rdropWhile isSpace)

/-- The length of a text in UTF-16 units. -/
def jsLength (text : String) : Nat :=
  (text.toList.map fun char => if char.val < 0x10000 then 1 else 2).sum

/-- The UTF-16 units of a text. -/
def utf16 (text : String) : List Nat :=
  text.toList.flatMap fun char =>
    let code := char.val.toNat
    if code < 0x10000 then [code]
    else [0xd800 + (code - 0x10000) / 0x400, 0xdc00 + (code - 0x10000) % 0x400]

/-- `Array.prototype.sort` on texts, by their UTF-16 units. -/
def sortTexts (texts : List String) : List String :=
  texts.mergeSort fun left right => !(utf16 right < utf16 left)

/-- `text.split(separator)` for a separator of one character. -/
def splitAt (separator : Char) (text : String) : List String :=
  (text.toList.splitOn separator).map String.ofList

/-- The class `[a-z0-9]`. -/
def isSlugChar (char : Char) : Bool := char.isLower || char.isDigit

/-- Replace each run of characters outside `[a-z0-9]` by one `fill`.  The flag
records whether the previous character already belongs to such a run. -/
def fillRuns (fill : Char) : Bool → List Char → List Char
  | _, [] => []
  | inRun, char :: rest =>
      if isSlugChar char then char :: fillRuns fill false rest
      else if inRun then fillRuns fill true rest
      else fill :: fillRuns fill true rest

/-- Strip leading and trailing dashes. -/
def trimDashes (text : List Char) : List Char :=
  (text.dropWhile (· == '-')).rdropWhile (· == '-')

/-- A test of every character, as one computation over the text. -/
theorem forall_chars {allowed : Char → Prop} [DecidablePred allowed] {text : String}
    (tested : text.toList.all (fun char => decide (allowed char)) = true) :
    ∀ char ∈ text.toList, allowed char :=
  fun char member => of_decide_eq_true (List.all_eq_true.mp tested char member)

/-- A test of a few characters, one by one. -/
theorem forall_of_all {allowed : Char → Prop} [DecidablePred allowed] {chars : List Char}
    (tested : chars.all (fun char => decide (allowed char)) = true) : ∀ char ∈ chars, allowed char :=
  fun char member => of_decide_eq_true (List.all_eq_true.mp tested char member)

theorem fillRuns_chars {fill : Char} {inRun : Bool} {text : List Char} {char : Char}
    (member : char ∈ fillRuns fill inRun text) : isSlugChar char ∨ char = fill := by
  induction text generalizing inRun with
  | nil => simp [fillRuns] at member
  | cons head rest ih =>
      rw [fillRuns] at member
      split at member
      · rename_i slugHead
        rcases List.mem_cons.mp member with rfl | later
        · exact Or.inl slugHead
        · exact ih later
      · split at member
        · exact ih member
        · rcases List.mem_cons.mp member with rfl | later
          · exact Or.inr rfl
          · exact ih later

theorem mem_of_mem_trimDashes {text : List Char} {char : Char}
    (member : char ∈ trimDashes text) : char ∈ text := by
  have inFront := (List.rdropWhile_prefix (· == '-') _).subset member
  exact (List.dropWhile_suffix (· == '-')).subset inFront

/-! ## ASCII -/

theorem toNat_of_isAlphanum {char : Char} (plain : char.isAlphanum = true) : char.toNat < 128 := by
  have below {bound : UInt32} (limit : char.val ≤ bound) (ascii : bound.toNat < 128) :
      char.toNat < 128 :=
    Nat.lt_of_le_of_lt (UInt32.le_iff_toNat_le.mp limit) ascii
  rcases Bool.or_eq_true_iff.mp plain with letter | digit
  · rcases Bool.or_eq_true_iff.mp letter with upper | lower
    · have range : 'A'.val ≤ char.val ∧ char.val ≤ 'Z'.val := of_decide_eq_true upper
      exact below range.2 (by decide)
    · exact below (of_decide_eq_true (Bool.and_eq_true_iff.mp lower).2) (by decide)
  · exact below (of_decide_eq_true (Bool.and_eq_true_iff.mp digit).2) (by decide)

/-- What holds of all characters of ASCII. -/
theorem of_ascii {holds : Char → Prop} {char : Char} (ascii : char.toNat < 128)
    (all : ∀ code < 128, holds (Char.ofNat code)) : holds char := by
  rw [← Char.ofNat_toNat char]
  exact all char.toNat ascii

/-! ## Lower-case text -/

theorem isSlugChar_iff {char : Char} : isSlugChar char = true ↔
    97 ≤ char.val ∧ char.val ≤ 122 ∨ 48 ≤ char.val ∧ char.val ≤ 57 := by
  change (decide (97 ≤ char.val) && decide (char.val ≤ 122) ||
    decide (48 ≤ char.val) && decide (char.val ≤ 57)) = true ↔ _
  simp only [Bool.or_eq_true, Bool.and_eq_true, decide_eq_true_eq]

/-- Lower-case letters, digits and dashes have no other case. -/
theorem lowerChar_slugChar {char : Char} (plain : isSlugChar char ∨ char = '-') :
    lowerChar char = [char] := by
  have bound : char.val ≤ 122 := by
    rcases plain with slug | rfl
    · rcases isSlugChar_iff.mp slug with ⟨-, high⟩ | ⟨-, high⟩
      · exact high
      · exact UInt32.le_trans high (by decide)
    · decide
  have notDotted : char ≠ Char.ofNat 0x130 := by
    rintro rfl
    revert bound
    decide
  have notKelvin : char ≠ Char.ofNat 0x212A := by
    rintro rfl
    revert bound
    decide
  have notUpper : char.toLower = char := by
    unfold Char.toLower
    split
    · rename_i upper
      rcases plain with slug | rfl
      · rcases isSlugChar_iff.mp slug with ⟨low, -⟩ | ⟨-, high⟩
        · exact absurd (UInt32.le_trans low upper.2) (by decide)
        · exact absurd (UInt32.le_trans upper.1 high) (by decide)
      · exact absurd upper (by decide)
    · rfl
  simp only [lowerChar, if_neg notDotted, if_neg notKelvin, notUpper]

theorem toLowerCase_eq_self {text : String}
    (lower : ∀ char ∈ text.toList, lowerChar char = [char]) : toLowerCase text = text := by
  have same : text.toList.flatMap lowerChar = text.toList := by
    generalize text.toList = chars at lower
    induction chars with
    | nil => rfl
    | cons head rest ih =>
        rw [List.flatMap_cons, lower head List.mem_cons_self,
          ih fun char member => lower char (List.mem_cons_of_mem _ member)]
        rfl
  rw [toLowerCase, same, String.ofList_toList]

/-! ## Filling and trimming twice -/

theorem fillRuns_idem (inRun : Bool) (text : List Char) :
    fillRuns '-' inRun (fillRuns '-' inRun text) = fillRuns '-' inRun text := by
  have dash : isSlugChar '-' = false := by decide
  induction text generalizing inRun with
  | nil => rfl
  | cons head rest ih =>
      by_cases slugHead : isSlugChar head = true
      · simp [fillRuns, slugHead, ih]
      · cases inRun with
        | false => simp [fillRuns, slugHead, dash, ih]
        | true => simp [fillRuns, slugHead, ih]

theorem length_fillRuns_le (fill : Char) (inRun : Bool) (text : List Char) :
    (fillRuns fill inRun text).length ≤ text.length := by
  induction text generalizing inRun with
  | nil => exact le_rfl
  | cons head rest ih =>
      rw [fillRuns]
      split_ifs
      · exact Nat.succ_le_succ (ih false)
      · exact Nat.le_succ_of_le (ih true)
      · exact Nat.succ_le_succ (ih true)

theorem fillRuns_append (fill : Char) (inRun : Bool) (front back : List Char) :
    ∃ next, fillRuns fill inRun (front ++ back) =
      fillRuns fill inRun front ++ fillRuns fill next back := by
  induction front generalizing inRun with
  | nil => exact ⟨inRun, rfl⟩
  | cons head front ih =>
      rw [List.cons_append, fillRuns, fillRuns]
      split_ifs
      · obtain ⟨next, rest⟩ := ih false
        exact ⟨next, by rw [rest, List.cons_append]⟩
      · exact ih true
      · obtain ⟨next, rest⟩ := ih true
        exact ⟨next, by rw [rest, List.cons_append]⟩

/-- A prefix of a filled text is filled. -/
theorem fillRuns_eq_of_append {fill : Char} {inRun : Bool} {front back : List Char}
    (filled : fillRuns fill inRun (front ++ back) = front ++ back) :
    fillRuns fill inRun front = front := by
  obtain ⟨next, split⟩ := fillRuns_append fill inRun front back
  rw [filled] at split
  have lengths := congrArg List.length split
  have frontShort := length_fillRuns_le fill inRun front
  have backShort := length_fillRuns_le fill next back
  simp only [List.length_append] at lengths
  exact (List.append_inj split.symm (by omega)).1

/-- Dropping the leading dashes of a filled text leaves it filled. -/
theorem fillRuns_dropWhile {text : List Char} (filled : fillRuns '-' false text = text) :
    fillRuns '-' false (text.dropWhile (· == '-')) = text.dropWhile (· == '-') := by
  cases text with
  | nil => rfl
  | cons head rest =>
      by_cases dash : head = '-'
      · subst dash
        have notSlug : isSlugChar '-' = false := by decide
        have restFilled : fillRuns '-' true rest = rest := by
          simpa [fillRuns, notSlug] using filled
        cases rest with
        | nil => rfl
        | cons second rest =>
            by_cases slugSecond : isSlugChar second = true
            · have notDash : second ≠ '-' := by
                rintro rfl
                simp [notSlug] at slugSecond
              have same : fillRuns '-' false (second :: rest) = second :: rest := by
                simpa [fillRuns, slugSecond] using restFilled
              simp [notDash, same]
            · have shorter := congrArg List.length restFilled
              have bound := length_fillRuns_le '-' true rest
              simp only [fillRuns, slugSecond, Bool.false_eq_true, if_false, if_true,
                List.length_cons] at shorter
              omega
      · simp [dash, filled]

/-- A trimmed text has nothing left to drop in front. -/
theorem dropWhile_trimmed (drops : Char → Bool) (text : List Char) :
    ((text.dropWhile drops).rdropWhile drops).dropWhile drops =
      (text.dropWhile drops).rdropWhile drops := by
  rw [List.dropWhile_eq_self_iff]
  intro nonempty
  obtain ⟨back, split⟩ := List.rdropWhile_prefix drops (text.dropWhile drops)
  have headIs := List.dropWhile_get_zero_not drops text
  generalize (text.dropWhile drops).rdropWhile drops = trimmed at nonempty split ⊢
  cases trimmed with
  | nil => simp at nonempty
  | cons head rest =>
      have headNot := headIs (by rw [← split]; simp)
      simpa [← split] using headNot

/-- Trimming twice is trimming once. -/
theorem trimDashes_idem (text : List Char) : trimDashes (trimDashes text) = trimDashes text := by
  unfold trimDashes
  rw [dropWhile_trimmed, List.rdropWhile_idempotent]

theorem trim_trim (text : String) : trim (trim text) = trim text := by
  unfold trim
  rw [String.toList_ofList, dropWhile_trimmed, List.rdropWhile_idempotent]

/-- The slug of a text. -/
theorem slug_idem (text : List Char) :
    trimDashes (fillRuns '-' false (trimDashes (fillRuns '-' false text))) =
      trimDashes (fillRuns '-' false text) := by
  have filled := fillRuns_idem false text
  generalize fillRuns '-' false text = once at filled ⊢
  have trimmedFilled : fillRuns '-' false (trimDashes once) = trimDashes once := by
    obtain ⟨back, split⟩ := List.rdropWhile_prefix (· == '-') (once.dropWhile (· == '-'))
    have whole := fillRuns_dropWhile filled
    rw [← split] at whole
    exact fillRuns_eq_of_append whole
  rw [trimmedFilled, trimDashes_idem]

end ThetaDirectory
