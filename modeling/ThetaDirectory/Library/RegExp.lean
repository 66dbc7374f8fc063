import Mathlib.Data.List.Infix
import ThetaDirectory.Library.Utf16

/-!
# Regular expressions

JavaScript patterns without flags: the core of literal characters, classes, groups,
alternatives, the two anchors and the three simple quantifiers.  A pattern with an escape,
a brace or an extended group lies beyond the core.
-/

namespace ThetaDirectory.Library.RegExp

open Utf16

/-! ## Patterns -/

inductive Node where
  | unit (unit : UInt16)
  | any
  | set (negated : Bool) (ranges : List (UInt16 × UInt16))
  | start
  | stop
  | empty
  | seq (first second : Node)
  | alt (first second : Node)
  | star (body : Node)
  deriving DecidableEq, Repr

def inSet (negated : Bool) (ranges : List (UInt16 × UInt16)) (unit : UInt16) : Bool :=
  (ranges.any fun range => range.1 ≤ unit && unit ≤ range.2) != negated

/-- The units a dot does not match. -/
def isLineEnd (unit : UInt16) : Bool := [10, 13, 0x2028, 0x2029].contains unit

/-- Take one unit that passes the test. -/
def takeOne (test : UInt16 → Bool) : Units → List Units
  | [] => []
  | unit :: rest => if test unit then [rest] else []

/-- Repeat a step as long as it takes something. -/
def repeated (step : Units → List Units) : Nat → Units → List Units
  | 0, text => [text]
  | rounds + 1, text =>
      ((step text).filter fun rest => rest.length < text.length).flatMap (repeated step rounds) ++
        [text]

/-- What can be left of a text of some length after the node. -/
def rests (size : Nat) : Node → Units → List Units
  | .unit unit, text => takeOne (· == unit) text
  | .any, text => takeOne (fun unit => !isLineEnd unit) text
  | .set negated ranges, text => takeOne (inSet negated ranges) text
  | .start, text => if text.length = size then [text] else []
  | .stop, text => if text = [] then [text] else []
  | .empty, text => [text]
  | .seq first second, text => (rests size first text).flatMap (rests size second)
  | .alt first second, text => rests size first text ++ rests size second text
  | .star body, text => repeated (rests size body) text.length text

/-- The node matches somewhere in the text. -/
def Node.test (node : Node) (text : Units) : Bool :=
  text.tails.any fun rest => !(rests text.length node rest).isEmpty

/-! ## Reading a pattern -/

inductive Failure where
  | syntaxError
  | beyond
  deriving DecidableEq, Repr

/-- What the last character was, as far as the next one has to know. -/
inductive Mode where
  | plain
  | atom
  | opened
  | quantified
  | inClass (chars : List Char)
  deriving DecidableEq, Repr

/-- The finished alternatives of a group and the terms of the current one, the last
term first. -/
structure Level where
  branches : List Node
  terms : List Node
  deriving DecidableEq, Repr

structure Reading where
  level : Level
  outer : List Level
  mode : Mode
  deriving DecidableEq, Repr

def seqOf (nodes : List Node) : Node := nodes.foldr .seq .empty

/-- The group that a level stands for. -/
def Level.node (level : Level) : Node :=
  level.branches.foldr .alt (seqOf level.terms.reverse)

def Level.push (level : Level) (node : Node) : Level :=
  { level with terms := node :: level.terms }

def Reading.push (reading : Reading) (node : Node) (mode : Mode) : Reading :=
  { reading with level := reading.level.push node, mode }

/-- The ranges of a class; a range that runs backwards is an error. -/
def classRanges : Units → Except Failure (List (UInt16 × UInt16))
  | low :: dash :: high :: rest =>
      if dash = UInt16.ofNat '-'.toNat then
        if low ≤ high then return (low, high) :: (← classRanges rest) else .error .syntaxError
      else return (low, low) :: (← classRanges (dash :: high :: rest))
  | low :: rest => return (low, low) :: (← classRanges rest)
  | [] => return []

/-- Close a class whose characters were collected in reverse. -/
def closeClass (chars : List Char) : Except Failure Node :=
  match chars.reverse with
  | '^' :: chars => return .set true (← classRanges (chars.flatMap ofChar))
  | chars => return .set false (← classRanges (chars.flatMap ofChar))

/-- Quantify the last term, if it may be. -/
def Reading.quantify (reading : Reading) (quantifier : Node → Node) : Except Failure Reading :=
  match reading.mode, reading.level.terms with
  | .atom, last :: terms =>
      .ok { reading with
        level := { reading.level with terms := quantifier last :: terms }, mode := .quantified }
  | _, _ => .error .syntaxError

/-- Read a character outside of a class. -/
def Reading.readChar (reading : Reading) : Char → Except Failure Reading
  | '\\' | '{' | '}' | ']' => .error .beyond
  | '[' => .ok { reading with mode := .inClass [] }
  | '(' => .ok ⟨⟨[], []⟩, reading.level :: reading.outer, .opened⟩
  | ')' =>
      match reading.outer with
      | [] => .error .syntaxError
      | level :: outer => .ok ⟨level.push reading.level.node, outer, .atom⟩
  | '|' =>
      .ok { reading with
        level := ⟨reading.level.branches ++ [seqOf reading.level.terms.reverse], []⟩,
        mode := .plain }
  | '*' => reading.quantify .star
  | '+' => reading.quantify fun body => .seq body (.star body)
  | '?' =>
      match reading.mode with
      | .opened => .error .beyond
      -- a lazy quantifier matches the same texts
      | .quantified => .ok { reading with mode := .plain }
      | _ => reading.quantify fun body => .alt body .empty
  | '^' => .ok (reading.push .start .plain)
  | '$' => .ok (reading.push .stop .plain)
  | '.' => .ok (reading.push .any .atom)
  | char => .ok ((ofChar char).foldl (fun reading unit => reading.push (.unit unit) .atom) reading)

def Reading.step (reading : Reading) (char : Char) : Except Failure Reading :=
  match reading.mode with
  | .inClass chars =>
      match char with
      | ']' => do return reading.push (← closeClass chars) .atom
      | '\\' => .error .beyond
      | _ => .ok { reading with mode := .inClass (char :: chars) }
  | _ => reading.readChar char

def Reading.finish (reading : Reading) : Except Failure Node :=
  match reading.mode, reading.outer with
  | .inClass _, _ => .error .syntaxError
  | _, _ :: _ => .error .syntaxError
  | _, [] => .ok reading.level.node

def start : Reading := ⟨⟨[], []⟩, [], .plain⟩

def compile (pattern : String) : Except Failure Node := do
  (← pattern.toList.foldlM Reading.step start).finish

/-- `new RegExp(pattern)` as the test it makes, if it does not throw.  Patterns beyond
the core are left to an engine. -/
def regExp (engine : String → Option (String → Bool)) (pattern : String) :
    Option (String → Bool) :=
  match compile pattern with
  | .ok node => some fun text => node.test (ofString text)
  | .error .syntaxError => none
  | .error .beyond => engine pattern

/-! ## Pieces of a pattern -/

def specials : List Char := "^$\\.*+?()[]\x7b\x7d|".toList

/-- No character of the text means anything but itself. -/
def Literal (chars : List Char) : Prop := ∀ char ∈ chars, char ∉ specials

instance (chars : List Char) : Decidable (Literal chars) :=
  decidable_of_iff (chars.all (fun char => !specials.contains char) = true) (by simp [Literal])

theorem literal_append {chars more : List Char} :
    Literal (chars ++ more) ↔ Literal chars ∧ Literal more := List.forall_mem_append

def Mode.isClass : Mode → Bool
  | .inClass _ => true
  | _ => false

/-- Between terms, the characters read as the terms. -/
def Reads (chars : List Char) (terms : List Node) : Prop :=
  ∀ level outer mode, mode.isClass = false →
    ∃ mode', mode'.isClass = false ∧
      chars.foldlM Reading.step ⟨level, outer, mode⟩ =
        .ok ⟨⟨level.branches, terms.reverse ++ level.terms⟩, outer, mode'⟩

theorem step_outside {reading : Reading} (outside : reading.mode.isClass = false) (char : Char) :
    reading.step char = reading.readChar char := by
  unfold Reading.step
  split
  · rename_i chars inside
    rw [inside] at outside
    cases outside
  · rfl

theorem Reads.nil : Reads [] [] :=
  fun _ _ mode outside => ⟨mode, outside, rfl⟩

theorem Reads.append {chars more : List Char} {terms others : List Node} (first : Reads chars terms)
    (second : Reads more others) : Reads (chars ++ more) (terms ++ others) := by
  intro level outer mode outside
  obtain ⟨middle, between, read⟩ := first level outer mode outside
  obtain ⟨last, after, readMore⟩ := second ⟨level.branches, terms.reverse ++ level.terms⟩ outer
    middle between
  refine ⟨last, after, ?_⟩
  rw [List.foldlM_append, read, List.reverse_append, List.append_assoc]
  exact readMore

/-- A character read as one term. -/
theorem Reads.single {char : Char} {node : Node} {mode : Mode} (outside : mode.isClass = false)
    (read : ∀ reading : Reading, reading.readChar char = .ok (reading.push node mode)) :
    Reads [char] [node] := by
  intro level outer before isOutside
  refine ⟨mode, outside, ?_⟩
  rw [List.foldlM_cons, step_outside isOutside, read]
  rfl

theorem Reads.start : Reads ['^'] [.start] := .single rfl fun _ => rfl

theorem Reads.stop : Reads ['$'] [.stop] := .single rfl fun _ => rfl

theorem foldl_push (units : Units) (reading : Reading) :
    units.foldl (fun reading unit => reading.push (.unit unit) .atom) reading =
      ⟨⟨reading.level.branches, (units.map Node.unit).reverse ++ reading.level.terms⟩,
        reading.outer, if units = [] then reading.mode else .atom⟩ := by
  induction units generalizing reading with
  | nil => rfl
  | cons unit units ih =>
      rw [List.foldl_cons, ih]
      cases units <;> simp [Reading.push, Level.push]

theorem readChar_literal {char : Char} (plain : char ∉ specials) (reading : Reading) :
    reading.readChar char =
      .ok ⟨⟨reading.level.branches,
        ((ofChar char).map Node.unit).reverse ++ reading.level.terms⟩, reading.outer, .atom⟩ := by
  have otherwise : reading.readChar char =
      .ok ((ofChar char).foldl (fun reading unit => reading.push (.unit unit) .atom) reading) := by
    unfold Reading.readChar
    split
    all_goals first
      | rfl
      | exact absurd (by decide) plain
  rw [otherwise, foldl_push, if_neg (ofChar_ne_nil char)]

/-- Literal characters read as their units. -/
theorem Reads.literal {chars : List Char} (plain : Literal chars) :
    Reads chars ((chars.flatMap ofChar).map Node.unit) := by
  induction chars with
  | nil => exact .nil
  | cons char chars ih =>
      obtain ⟨first, others⟩ := List.forall_mem_cons.mp plain
      rw [List.flatMap_cons, List.map_append]
      have one : Reads [char] ((ofChar char).map Node.unit) := by
        intro level outer mode outside
        refine ⟨.atom, rfl, ?_⟩
        rw [List.foldlM_cons, step_outside outside, readChar_literal first]
        rfl
      exact one.append (ih others)

/-- Collect the characters of a class. -/
theorem foldlM_inClass {body : List Char} (inside : ∀ char ∈ body, char ≠ ']' ∧ char ≠ '\\')
    (level : Level) (outer : List Level) (chars : List Char) :
    body.foldlM Reading.step ⟨level, outer, .inClass chars⟩ =
      .ok ⟨level, outer, .inClass (body.reverse ++ chars)⟩ := by
  induction body generalizing chars with
  | nil => rfl
  | cons char body ih =>
      obtain ⟨first, others⟩ := List.forall_mem_cons.mp inside
      have read : Reading.step ⟨level, outer, .inClass chars⟩ char =
          .ok ⟨level, outer, .inClass (char :: chars)⟩ := by
        unfold Reading.step
        dsimp only
        split
        · exact absurd rfl first.1
        · exact absurd rfl first.2
        · rfl
      rw [List.foldlM_cons, read, List.reverse_cons, List.append_assoc]
      exact ih others (char :: chars)

/-- A class that is repeated at least once. -/
theorem Reads.oneOrMore {body : List Char} {node : Node}
    (inside : ∀ char ∈ body, char ≠ ']' ∧ char ≠ '\\')
    (closes : closeClass body.reverse = .ok node) :
    Reads ('[' :: (body ++ [']', '+'])) [.seq node (.star node)] := by
  intro level outer mode outside
  refine ⟨.quantified, rfl, ?_⟩
  have opened : Reading.step ⟨level, outer, mode⟩ '[' = .ok ⟨level, outer, .inClass []⟩ :=
    step_outside outside _
  have closed : [']', '+'].foldlM Reading.step ⟨level, outer, .inClass body.reverse⟩ =
      .ok ⟨⟨level.branches, .seq node (.star node) :: level.terms⟩, outer, .quantified⟩ := by
    rw [List.foldlM_cons, Reading.step]
    dsimp only
    rw [closes]
    rfl
  rw [List.foldlM_cons, opened]
  change (body ++ [']', '+']).foldlM Reading.step ⟨level, outer, .inClass []⟩ = _
  rw [List.foldlM_append, foldlM_inClass inside, List.append_nil]
  exact closed

/-- A pattern of two alternatives. -/
theorem compile_alt {first second : List Char} {terms others : List Node}
    (isFirst : Reads first terms) (isSecond : Reads second others) :
    compile (String.ofList (first ++ '|' :: second)) = .ok (.alt (seqOf terms) (seqOf others)) := by
  obtain ⟨middle, between, read⟩ := isFirst ⟨[], []⟩ [] .plain rfl
  obtain ⟨last, after, readMore⟩ := isSecond ⟨[seqOf terms], []⟩ [] .plain rfl
  rw [List.append_nil] at read readMore
  have bar : Reading.step ⟨⟨[], terms.reverse⟩, [], middle⟩ '|' =
      .ok ⟨⟨[seqOf terms], []⟩, [], .plain⟩ := by
    rw [step_outside between]
    simp [Reading.readChar]
  have whole : (first ++ '|' :: second).foldlM Reading.step start =
      .ok ⟨⟨[seqOf terms], others.reverse⟩, [], last⟩ := by
    rw [List.foldlM_append, start, read]
    change ('|' :: second).foldlM Reading.step ⟨⟨[], terms.reverse⟩, [], middle⟩ = _
    rw [List.foldlM_cons, bar]
    exact readMore
  rw [compile, String.toList_ofList, whole]
  change Reading.finish _ = _
  unfold Reading.finish
  split
  · rename_i chars inside
    change last = _ at inside
    rw [inside] at after
    cases after
  · rename_i same _
    cases same
  · simp [Level.node]

/-! ## What pieces match -/

variable {size : Nat}

theorem mem_takeOne {test : UInt16 → Bool} {text rest : Units} :
    rest ∈ takeOne test text ↔ ∃ unit, test unit = true ∧ text = unit :: rest := by
  cases text with
  | nil => simp [takeOne]
  | cons unit others =>
      rw [takeOne]
      split
      · rename_i passes
        simp only [List.mem_singleton, List.cons.injEq]
        constructor
        · exact fun same => ⟨unit, passes, rfl, same.symm⟩
        · exact fun taken => taken.elim fun _ found => found.2.2.symm
      · rename_i fails
        refine iff_of_false List.not_mem_nil ?_
        rintro ⟨other, passes, same⟩
        cases same
        exact fails passes

theorem rests_seqOf_append (nodes others : List Node) (text : Units) :
    rests size (seqOf (nodes ++ others)) text =
      (rests size (seqOf nodes) text).flatMap (rests size (seqOf others)) := by
  induction nodes generalizing text with
  | nil => simp [seqOf, rests]
  | cons node nodes ih =>
      change (rests size node text).flatMap (rests size (seqOf (nodes ++ others))) =
        ((rests size node text).flatMap (rests size (seqOf nodes))).flatMap _
      rw [List.flatMap_assoc]
      congr 1
      funext rest
      exact ih rest

theorem rests_seqOf_singleton (node : Node) (text : Units) :
    rests size node text = rests size (seqOf [node]) text := by
  change _ = (rests size node text).flatMap fun rest => [rest]
  exact (List.flatMap_singleton' _).symm

/-- Units match themselves. -/
theorem mem_rests_units {units text rest : Units} :
    rest ∈ rests size (seqOf (units.map Node.unit)) text ↔ text = units ++ rest := by
  induction units generalizing text with
  | nil => exact (List.mem_singleton.trans eq_comm)
  | cons unit units ih =>
      change rest ∈ (takeOne (· == unit) text).flatMap (rests size (seqOf (units.map Node.unit))) ↔ _
      rw [List.mem_flatMap]
      constructor
      · rintro ⟨middle, taken, later⟩
        obtain ⟨other, same, rfl⟩ := mem_takeOne.mp taken
        rw [ih.mp later, eq_of_beq same]
        rfl
      · rintro rfl
        exact ⟨units ++ rest, mem_takeOne.mpr ⟨unit, beq_self_eq_true unit, rfl⟩, ih.mpr rfl⟩

/-- A repeated test of one unit takes any run of units that pass. -/
theorem mem_repeated {test : UInt16 → Bool} {rounds : Nat} {text rest : Units}
    (enough : text.length ≤ rounds) :
    rest ∈ repeated (takeOne test) rounds text ↔
      ∃ taken, text = taken ++ rest ∧ ∀ unit ∈ taken, test unit = true := by
  induction rounds generalizing text with
  | zero =>
      rw [List.length_eq_zero_iff.mp (Nat.le_zero.mp enough), repeated, List.mem_singleton]
      constructor
      · exact fun none => ⟨[], none.symm, List.forall_mem_nil _⟩
      · rintro ⟨taken, split, -⟩
        exact (List.append_eq_nil_iff.mp split.symm).2
  | succ rounds ih =>
      rw [repeated, List.mem_append, List.mem_flatMap, List.mem_singleton]
      constructor
      · rintro (⟨middle, step, later⟩ | same)
        · obtain ⟨taken, shorter⟩ := List.mem_filter.mp step
          obtain ⟨unit, passes, rfl⟩ := mem_takeOne.mp taken
          obtain ⟨front, rfl, every⟩ :=
            (ih (Nat.le_of_succ_le_succ enough)).mp later
          exact ⟨unit :: front, rfl, List.forall_mem_cons.mpr ⟨passes, every⟩⟩
        · exact ⟨[], same.symm, List.forall_mem_nil _⟩
      · rintro ⟨taken, split, every⟩
        cases taken with
        | nil => exact Or.inr split.symm
        | cons unit front =>
            left
            obtain ⟨passes, others⟩ := List.forall_mem_cons.mp every
            subst split
            refine ⟨front ++ rest, List.mem_filter.mpr ⟨mem_takeOne.mpr ⟨unit, passes, rfl⟩, ?_⟩, ?_⟩
            · simp
            · exact (ih (Nat.le_of_succ_le_succ enough)).mpr ⟨front, rfl, others⟩

/-- A repeated class matches the runs of its units with at least one. -/
theorem mem_rests_oneOrMore {negated : Bool} {ranges : List (UInt16 × UInt16)}
    {text rest : Units} :
    rest ∈ rests size (.seq (.set negated ranges) (.star (.set negated ranges))) text ↔
      ∃ taken, taken ≠ [] ∧ text = taken ++ rest ∧
        ∀ unit ∈ taken, inSet negated ranges unit = true := by
  change rest ∈ (takeOne (inSet negated ranges) text).flatMap
    (fun middle => repeated (takeOne (inSet negated ranges)) middle.length middle) ↔ _
  rw [List.mem_flatMap]
  constructor
  · rintro ⟨middle, first, later⟩
    obtain ⟨unit, passes, rfl⟩ := mem_takeOne.mp first
    obtain ⟨front, rfl, every⟩ := (mem_repeated (Nat.le_refl _)).mp later
    exact ⟨unit :: front, List.cons_ne_nil _ _, rfl, List.forall_mem_cons.mpr ⟨passes, every⟩⟩
  · rintro ⟨taken, nonempty, rfl, every⟩
    cases taken with
    | nil => exact absurd rfl nonempty
    | cons unit front =>
        obtain ⟨passes, others⟩ := List.forall_mem_cons.mp every
        exact ⟨front ++ rest, mem_takeOne.mpr ⟨unit, passes, rfl⟩,
          (mem_repeated (Nat.le_refl _)).mpr ⟨front, rfl, others⟩⟩

theorem test_iff {node : Node} {text : Units} :
    node.test text = true ↔ ∃ rest, rest <:+ text ∧ ∃ left, left ∈ rests text.length node rest := by
  simp only [Node.test, List.any_eq_true, List.mem_tails, Bool.not_eq_true',
    List.isEmpty_eq_false_iff_exists_mem]

theorem test_alt {first second : Node} {text : Units} :
    (Node.alt first second).test text = true ↔
      first.test text = true ∨ second.test text = true := by
  simp only [test_iff, rests, List.mem_append, exists_or, and_or_left]

/-- A pattern between the two anchors has to match the whole text. -/
theorem test_anchored {nodes : List Node} {text : Units} :
    (seqOf (.start :: (nodes ++ [.stop]))).test text = true ↔
      [] ∈ rests text.length (seqOf nodes) text := by
  have anchored (rest left : Units) :
      left ∈ rests text.length (seqOf (.start :: (nodes ++ [.stop]))) rest ↔
        rest.length = text.length ∧ left = [] ∧ [] ∈ rests text.length (seqOf nodes) rest := by
    change left ∈ (if rest.length = text.length then [rest] else []).flatMap
      (rests text.length (seqOf (nodes ++ [.stop]))) ↔ _
    have stopped (middle : Units) :
        left ∈ rests text.length (seqOf [.stop]) middle ↔ middle = [] ∧ left = [] := by
      change left ∈ (if middle = [] then [middle] else []).flatMap (fun rest => [rest]) ↔ _
      split
      · rename_i atEnd
        simp [atEnd]
      · rename_i notAtEnd
        simp [notAtEnd]
    split
    · rename_i whole
      rw [List.flatMap_singleton, rests_seqOf_append, List.mem_flatMap]
      simp only [stopped]
      constructor
      · rintro ⟨middle, matched, rfl, rfl⟩
        exact ⟨whole, rfl, matched⟩
      · rintro ⟨-, rfl, matched⟩
        exact ⟨[], matched, rfl, rfl⟩
    · rename_i partly
      exact iff_of_false List.not_mem_nil fun both => partly both.1
  rw [test_iff]
  constructor
  · rintro ⟨rest, behind, left, matched⟩
    obtain ⟨whole, -, inside⟩ := (anchored rest left).mp matched
    rwa [behind.eq_of_length whole] at inside
  · intro inside
    exact ⟨text, List.suffix_refl text, [], (anchored text []).mpr ⟨rfl, rfl, inside⟩⟩

end ThetaDirectory.Library.RegExp
