import ThetaDirectory.Migration.RoundTrip

/-!
# What `ldapsearch` prints

The output of a search of `cn=config`, and how `utils/ldap_runtime_config.js` reads attributes
out of it: with its lines unfolded, a value printed in plain is read as it is stored, and one
in base64 as a text that starts with a colon.
-/

namespace ThetaDirectory.SlapdConfig

open Library Migration

/-! ## Printing -/

/-- How the values of attributes are written and where lines are folded. -/
structure LdapSearch where
  encoding : String → String → Encoding
  allowed : ∀ name value, (encoding name value).Allowed value
  fold : List Char → Folded
  folds : ∀ line, (fold line).line = line
  ends : ∀ line, (fold line).last = .lf ∧ ∀ piece ∈ (fold line).rest, piece.1 = .lf

/-- A stored value; it is not blank. -/
structure Value where
  text : String
  visible : text.toList.all isSpace = false

namespace LdapSearch

/-- The line of a value, before it is folded. -/
def line (search : LdapSearch) (name : String) (value : Value) : List Char :=
  name.toList ++ (search.encoding name value.text).write value.text

/-- The text of an entry with these attributes. -/
def entry (search : LdapSearch) (attributes : List (String × Value)) : List Char :=
  attributes.flatMap (fun field => (search.fold (search.line field.1 field.2)).text) ++
    ['\n']

/-- The value is printed as it is. -/
def isPlain (search : LdapSearch) (name : String) (value : Value) : Bool :=
  match search.encoding name value.text with
  | .plain _ => true
  | .base64 _ => false

end LdapSearch

/-! ## Reading -/

/-- `text.replace(/\n /g, '')` -/
def unfold : List Char → List Char
  | '\n' :: ' ' :: text => unfold text
  | char :: text => char :: unfold text
  | [] => []

/-- What stands behind a label at the start of a text. -/
def behind (label text : List Char) : Option (List Char) :=
  if label <+: text then some (text.drop label.length) else none

/-- The groups `(.+)` of the matches of `/^name:\s*(.+)$/gm` in the lines of a text.  Where a
name has only blanks behind it, `\s*` runs on over the line ends: the flag then tells whether a
blank stood there, which is the match if nothing else follows. -/
def captures (name : List Char) : Option Bool → List (List Char) → List (List Char)
  | none, [] => []
  | some blank, [] => if blank then [[' ']] else []
  | none, line :: lines =>
      match behind (name ++ [':']) line with
      | none => captures name none lines
      | some rest =>
          if rest.all isSpace then captures name (some !rest.isEmpty) lines
          else rest.dropWhile isSpace :: captures name none lines
  | some blank, line :: lines =>
      if line.all isSpace then captures name (some (blank || !line.isEmpty)) lines
      else line.dropWhile isSpace :: captures name none lines

/-- The groups of all matches in a text. -/
def matchAll (name : String) (text : List Char) : List String :=
  (captures name.toList none (text.splitOn '\n')).map String.ofList

/-! ## Unfolding -/

variable {piece text : List Char} {folded : Folded}

theorem unfold_cons {char : Char} (notEnd : char ≠ '\n') (text : List Char) :
    unfold (char :: text) = char :: unfold text := by
  rw [unfold]
  intro more isEnd
  exact absurd isEnd notEnd

theorem unfold_append (oneLine : OneLine piece) (text : List Char) :
    unfold (piece ++ text) = piece ++ unfold text := by
  induction piece with
  | nil => rfl
  | cons char piece ih =>
      obtain ⟨here, later⟩ := List.forall_mem_cons.mp oneLine
      rw [List.cons_append, unfold_cons here.1, ih later]
      rfl

theorem unfold_lineEnd (starts : Starts text) : unfold ('\n' :: text) = '\n' :: unfold text := by
  rw [unfold]
  intro more _ isText
  rw [isText] at starts
  exact starts rfl

/-- A folded line gives the line back. -/
theorem unfold_folded (ends : folded.last = .lf ∧ ∀ piece ∈ folded.rest, piece.1 = .lf)
    (oneLine : OneLine folded.line) (starts : Starts text) :
    unfold (folded.text ++ text) = folded.line ++ '\n' :: unfold text := by
  obtain ⟨first, rest, last, started⟩ := folded
  obtain ⟨firstLine, restLine⟩ := oneLine_append_iff.mp oneLine
  obtain ⟨isLast, isLf⟩ := ends
  unfold Folded.text Folded.line
  dsimp only at firstLine restLine isLast isLf ⊢
  subst isLast
  clear oneLine started
  rw [List.append_assoc, List.append_assoc, unfold_append firstLine, List.append_assoc]
  congr 1
  induction rest with
  | nil => exact unfold_lineEnd starts
  | cons fold rest ih =>
      obtain ⟨here, later⟩ := oneLine_append_iff.mp restLine
      obtain ⟨isFold, others⟩ := List.forall_mem_cons.mp isLf
      rw [List.flatMap_cons, List.flatMap_cons, isFold, List.append_assoc, List.append_assoc]
      show unfold ('\n' :: ' ' :: (fold.2 ++ _)) = _
      rw [unfold, unfold_append here, ih later others, List.append_assoc]

/-- The lines of unfolded output. -/
theorem splitOn_unfold (layout : List Folded)
    (ends : ∀ folded ∈ layout, folded.last = .lf ∧ ∀ piece ∈ folded.rest, piece.1 = .lf)
    (oneLine : ∀ folded ∈ layout, OneLine folded.line)
    (starts : ∀ folded ∈ layout, Starts folded.text) :
    (unfold (layout.flatMap Folded.text ++ ['\n'])).splitOn '\n' =
      layout.map Folded.line ++ [[], []] := by
  induction layout with
  | nil => decide
  | cons folded layout ih =>
      obtain ⟨ended, othersEnd⟩ := List.forall_mem_cons.mp ends
      obtain ⟨whole, othersWhole⟩ := List.forall_mem_cons.mp oneLine
      obtain ⟨-, othersStart⟩ := List.forall_mem_cons.mp starts
      have next : Starts (layout.flatMap Folded.text ++ ['\n']) := by
        cases layout with
        | nil => exact fun isSpace => nomatch isSpace
        | cons second layout =>
            have nonempty : second.text ≠ [] := by
              unfold Folded.text LineEnd.text
              cases second.last <;> simp
            have head := (List.forall_mem_cons.mp othersStart).1
            unfold Starts at head ⊢
            rwa [List.flatMap_cons, List.append_assoc, List.head?_append_of_ne_nil _ nonempty]
      rw [List.flatMap_cons, List.append_assoc, unfold_folded ended whole next,
        splitOn_append whole, ih othersEnd othersWhole othersStart]
      rfl

/-! ## Entries -/

variable {search : LdapSearch} {name other : String} {value : Value}

theorem notMem_name {char : Char} (named : IsName name.toList)
    (outside : isTypeChar char = false ∧ char ≠ '.') : char ∉ name.toList := by
  intro member
  rcases named.2 char member with isType | isDot
  · rw [outside.1] at isType
    cases isType
  · exact outside.2 isDot

theorem oneLine_line (named : IsName name.toList) : OneLine (search.line name value) := by
  apply OneLine.append
  · intro char member
    constructor <;> rintro rfl <;> exact notMem_name named (by decide) member
  · exact oneLine_write (search.allowed name value.text)

/-- A line of an entry is not taken for the rest of another. -/
theorem starts_line (named : IsName name.toList) :
    Starts (search.fold (search.line name value)).text := by
  have folds := search.folds (search.line name value)
  obtain ⟨char, rest, isName⟩ := List.exists_cons_of_ne_nil named.1
  have head : (search.line name value).head? = some char := by
    rw [LdapSearch.line, isName]
    rfl
  have notSpace : char ≠ ' ' := by
    rintro rfl
    exact notMem_name named (by decide) (isName ▸ List.mem_cons_self)
  cases hFirst : (search.fold (search.line name value)).first with
  | nil =>
      rw [Folded.line, hFirst, (search.fold (search.line name value)).started hFirst] at folds
      rw [← folds] at head
      cases head
  | cons first more =>
      rw [Folded.line, hFirst] at folds
      rw [← folds] at head
      rw [Starts, Folded.text, hFirst]
      exact fun isSpace => notSpace (Option.some.inj (head.symm.trans isSpace))

theorem splitOn_entry (fields : List (String × Value))
    (named : ∀ field ∈ fields, IsName field.1.toList) :
    (unfold (search.entry fields)).splitOn '\n' =
      fields.map (fun field => search.line field.1 field.2) ++ [[], []] := by
  have split := splitOn_unfold (fields.map fun field => search.fold (search.line field.1 field.2))
    (List.forall_mem_map.mpr fun field _ => search.ends _)
    (List.forall_mem_map.mpr fun field member => by
      rw [search.folds]
      exact oneLine_line (named field member))
    (List.forall_mem_map.mpr fun field member => starts_line (named field member))
  rw [List.flatMap_map, List.map_map] at split
  refine split.trans (congrArg (· ++ [[], []]) (List.map_congr_left fun field _ => ?_))
  exact search.folds _

/-! ## Matches -/

/-- What the group of a match holds of a value. -/
def LdapSearch.shown (search : LdapSearch) (name : String) (value : Value) : List Char :=
  match search.encoding name value.text with
  | .plain _ => value.text.toList.dropWhile isSpace
  | .base64 fill =>
      ':' :: (List.replicate fill ' ' ++
        Octets.base64Encode (Octets.utf8Encode value.text.toList))

theorem behind_append (label text : List Char) : behind label (label ++ text) = some text := by
  rw [behind, if_pos (List.prefix_append label text), List.drop_left]

theorem captures_own (lines : List (List Char)) :
    captures name.toList none (search.line name value :: lines) =
      search.shown name value :: captures name.toList none lines := by
  have fillBlank (fill : Nat) : ∀ char ∈ List.replicate fill ' ', isSpace char = true := by
    intro char member
    rw [List.eq_of_mem_replicate member]
    rfl
  have write (text : List Char) : name.toList ++ ':' :: text = (name.toList ++ [':']) ++ text := by
    rw [List.append_assoc]
    rfl
  unfold LdapSearch.line LdapSearch.shown
  cases search.encoding name value.text with
  | plain fill =>
      have visible : (List.replicate fill ' ' ++ value.text.toList).all isSpace = false := by
        rw [List.all_append, value.visible, Bool.and_false]
      rw [Encoding.write, write, captures, behind_append]
      dsimp only
      rw [visible, if_neg Bool.false_ne_true, List.dropWhile_append_of_pos (fillBlank fill)]
  | base64 fill =>
      rw [Encoding.write, write, captures, behind_append]
      rfl

theorem captures_other (free : ':' ∉ name.toList) (otherFree : ':' ∉ other.toList)
    (different : other ≠ name) (lines : List (List Char)) :
    captures name.toList none (search.line other value :: lines) =
      captures name.toList none lines := by
  have none : behind (name.toList ++ [':']) (search.line other value) = none := by
    apply if_neg
    intro starts
    obtain ⟨rest, isLine⟩ := starts
    have colon : ∃ text, (search.encoding other value.text).write value.text = ':' :: text := by
      cases search.encoding other value.text with
      | plain fill => exact ⟨_, rfl⟩
      | base64 fill => exact ⟨_, rfl⟩
    obtain ⟨text, isWrite⟩ := colon
    rw [LdapSearch.line, isWrite, List.append_assoc] at isLine
    have same := ((Delimited.append_cons_inj_of_left free otherFree).mp isLine).1
    exact different (String.toList_inj.mp same.symm)
  rw [captures, none]

theorem captures_end (name : List Char) : captures name none [[], []] = [] := by
  have none : behind (name ++ [':']) [] = none := by
    apply if_neg
    intro starts
    exact absurd (List.prefix_nil.mp starts) (List.append_ne_nil_of_right_ne_nil _ (by simp))
  rw [captures, none]
  dsimp only
  rw [captures, none]
  rfl

/-- The matches in an entry are those of the values of the attribute. -/
theorem matchAll_entry (fields : List (String × Value))
    (named : ∀ field ∈ fields, IsName field.1.toList) (isName : IsName name.toList) :
    matchAll name (unfold (search.entry fields)) =
      (fields.filter (·.1 = name)).map fun field =>
        String.ofList (search.shown name field.2) := by
  have free {label : String} (named : IsName label.toList) : ':' ∉ label.toList :=
    notMem_name named (by decide)
  have read : captures name.toList none
      (fields.map (fun field => search.line field.1 field.2) ++ [[], []]) =
        (fields.filter (·.1 = name)).map fun field => search.shown name field.2 := by
    induction fields with
    | nil => exact captures_end name.toList
    | cons field fields ih =>
        obtain ⟨here, later⟩ := List.forall_mem_cons.mp named
        rw [List.map_cons, List.cons_append]
        by_cases same : field.1 = name
        · rw [same, captures_own, ih later, List.filter_cons_of_pos (by simpa using same)]
          rfl
        · rw [captures_other (free isName) (free here) same, ih later,
            List.filter_cons_of_neg (by simpa using same)]
  rw [matchAll, splitOn_entry fields named, read, List.map_map]
  rfl

end ThetaDirectory.SlapdConfig
