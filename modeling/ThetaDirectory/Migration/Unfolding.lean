import ThetaDirectory.Migration.Rendering

/-!
# Unfolding

However the lines of a text are folded and ended, `unfold` gives back the lines, with an empty one
behind the last line end.
-/

namespace ThetaDirectory.Migration

/-- No line end in the text. -/
def OneLine (text : List Char) : Prop := ∀ char ∈ text, char ≠ '\n' ∧ char ≠ '\r'

/-- A line that is not taken for the rest of another. -/
def Starts (line : List Char) : Prop := line.head? ≠ some ' '

variable {text piece line : List Char} {folded : Folded}

theorem OneLine.append {text more : List Char} (first : OneLine text) (second : OneLine more) :
    OneLine (text ++ more) :=
  List.forall_mem_append.mpr ⟨first, second⟩

theorem oneLine_append_iff {more : List Char} :
    OneLine (text ++ more) ↔ OneLine text ∧ OneLine more :=
  List.forall_mem_append

theorem sameEnds_append (oneLine : OneLine piece) (text : List Char) :
    sameEnds (piece ++ text) = piece ++ sameEnds text := by
  induction piece with
  | nil => rfl
  | cons char piece ih =>
      obtain ⟨here, later⟩ := List.forall_mem_cons.mp oneLine
      rw [List.cons_append, sameEnds, ih later]
      · rfl
      · intro more isReturn _
        exact here.2 isReturn
      · exact here.2

theorem sameEnds_lineEnd (lineEnd : LineEnd) (text : List Char) :
    sameEnds (lineEnd.text ++ text) = '\n' :: sameEnds text := by
  cases lineEnd with
  | lf =>
      change sameEnds ('\n' :: text) = _
      rw [sameEnds]
      · intro more isReturn _
        exact absurd isReturn (by decide)
      · decide
  | crlf => rfl

/-- The pieces of a folded line, each as a line of the text. -/
def Folded.pieces (folded : Folded) : List (List Char) :=
  folded.first :: folded.rest.map fun fold => ' ' :: fold.2

theorem splitOn_append (oneLine : OneLine piece) (text : List Char) :
    (piece ++ '\n' :: text).splitOn '\n' = piece :: text.splitOn '\n' := by
  rw [List.splitOn_eq_splitOnP, List.splitOn_eq_splitOnP]
  apply List.splitOnP_append_cons_of_forall_mem
  · intro char member
    exact beq_eq_false_iff_ne.mpr (oneLine char member).1
  · rfl

/-- The lines of a folded line with its line ends. -/
theorem splitOn_folded (oneLine : OneLine folded.line) (text : List Char) :
    (sameEnds (folded.text ++ text)).splitOn '\n' =
      folded.pieces ++ (sameEnds text).splitOn '\n' := by
  obtain ⟨first, rest, last, started⟩ := folded
  obtain ⟨firstLine, restLine⟩ := oneLine_append_iff.mp oneLine
  unfold Folded.text Folded.pieces
  dsimp only at firstLine restLine ⊢
  clear oneLine started
  induction rest generalizing first with
  | nil =>
      rw [List.flatMap_nil, List.append_nil, List.append_assoc, sameEnds_append firstLine,
        sameEnds_lineEnd, splitOn_append firstLine]
      rfl
  | cons fold rest ih =>
      obtain ⟨here, later⟩ := oneLine_append_iff.mp restLine
      have spaced : OneLine (' ' :: fold.2) := List.forall_mem_cons.mpr ⟨by decide, here⟩
      have next := ih (' ' :: fold.2) spaced later
      rw [List.flatMap_cons, List.append_assoc, List.append_assoc, List.append_assoc,
        sameEnds_append firstLine, List.append_assoc, sameEnds_lineEnd, splitOn_append firstLine]
      rw [List.append_assoc, List.append_assoc] at next
      rw [next]
      rfl

theorem unfoldStep_start (out : List (List Char)) (starts : Starts line) :
    unfoldStep out line = out ++ [line] := by
  unfold unfoldStep
  split
  · exact absurd rfl starts
  · rfl

theorem unfoldStep_piece (out : List (List Char)) (last more : List Char) :
    unfoldStep (out ++ [last]) (' ' :: more) = out ++ [last ++ more] := by
  unfold unfoldStep
  rw [List.getLast?_concat, List.dropLast_concat]
  rfl

theorem foldl_pieces (starts : Starts folded.line) (out : List (List Char)) :
    folded.pieces.foldl unfoldStep out = out ++ [folded.line] := by
  obtain ⟨first, rest, last, started⟩ := folded
  have head : Starts first := by
    intro isSpace
    cases first with
    | nil => cases isSpace
    | cons char first => exact starts isSpace
  unfold Folded.pieces Folded.line
  dsimp only
  rw [List.foldl_cons, unfoldStep_start out head]
  clear starts head started
  induction rest generalizing first with
  | nil => rw [List.map_nil, List.foldl_nil, List.flatMap_nil, List.append_nil]
  | cons fold rest ih =>
      rw [List.map_cons, List.foldl_cons, unfoldStep_piece, ih, List.flatMap_cons, List.append_assoc]

theorem unfoldLines_layout (layout : List Folded) (oneLine : ∀ folded ∈ layout, OneLine folded.line)
    (starts : ∀ folded ∈ layout, Starts folded.line) :
    unfoldLines (layout.flatMap Folded.text) = layout.map Folded.line ++ [[]] := by
  have split : ∀ out, ((sameEnds (layout.flatMap Folded.text)).splitOn '\n').foldl unfoldStep out =
      out ++ (layout.map Folded.line ++ [[]]) := by
    induction layout with
    | nil => exact fun out => @unfoldStep_start [] out (fun isSpace => nomatch isSpace)
    | cons folded layout ih =>
        obtain ⟨here, later⟩ := List.forall_mem_cons.mp oneLine
        obtain ⟨start, others⟩ := List.forall_mem_cons.mp starts
        intro out
        rw [List.flatMap_cons, splitOn_folded here, List.foldl_append, foldl_pieces start,
          ih later others, List.append_assoc]
        rfl
  exact split []

end ThetaDirectory.Migration
