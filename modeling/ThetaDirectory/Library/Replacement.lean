import Mathlib.Data.List.Infix

/-!
# Replacing a mark

All occurrences of a mark in a text are replaced from left to right, as splitting at the mark and
joining does.
-/

namespace ThetaDirectory.Library.Replacement

universe u v

variable {α : Type u} [DecidableEq α]

/-- Replace the mark in a text behind some items that an occurrence has used up. -/
def replaceFrom (mark filler : List α) : Nat → List α → List α
  | _, [] => []
  | skip + 1, _ :: rest => replaceFrom mark filler skip rest
  | 0, item :: rest =>
      if mark <+: item :: rest then filler ++ replaceFrom mark filler (mark.length - 1) rest
      else item :: replaceFrom mark filler 0 rest

def replaceAll (mark filler text : List α) : List α := replaceFrom mark filler 0 text

variable {mark filler : List α}

theorem replaceFrom_eq_drop (skip : Nat) (text : List α) :
    replaceFrom mark filler skip text = replaceAll mark filler (text.drop skip) := by
  induction text generalizing skip with
  | nil =>
      rw [List.drop_nil]
      cases skip <;> rfl
  | cons item rest ih =>
      cases skip with
      | zero => rfl
      | succ skip => exact ih skip

theorem replaceAll_mark (nonempty : mark ≠ []) (rest : List α) :
    replaceAll mark filler (mark ++ rest) = filler ++ replaceAll mark filler rest := by
  cases mark with
  | nil => exact absurd rfl nonempty
  | cons item others =>
      have occurs : item :: others <+: item :: (others ++ rest) :=
        List.prefix_append (item :: others) rest
      have first : replaceAll (item :: others) filler (item :: (others ++ rest)) =
          filler ++ replaceFrom (item :: others) filler others.length (others ++ rest) :=
        if_pos occurs
      rw [List.cons_append, first, replaceFrom_eq_drop, List.drop_left]

theorem replaceAll_cons {item : α} {rest : List α} (apart : ¬ mark <+: item :: rest) :
    replaceAll mark filler (item :: rest) = item :: replaceAll mark filler rest :=
  if_neg apart

/-- Where no occurrence of the mark begins nothing changes. -/
theorem replaceAll_append {front rest : List α}
    (apart : ∀ back, back <:+ front → back ≠ [] → ¬ mark <+: back ++ rest) :
    replaceAll mark filler (front ++ rest) = front ++ replaceAll mark filler rest := by
  induction front with
  | nil => rfl
  | cons item front ih =>
      have first : ¬ mark <+: item :: (front ++ rest) :=
        apart (item :: front) (List.suffix_refl _) (List.cons_ne_nil _ _)
      rw [List.cons_append, List.cons_append, replaceAll_cons first, ih fun back behind =>
        apart back (behind.trans (List.suffix_cons item front))]

/-- A mark of one item. -/
theorem replaceAll_singleton (item : α) (text : List α) :
    replaceAll [item] filler text = text.flatMap fun other => if other = item then filler else [other] := by
  induction text with
  | nil => rfl
  | cons other rest ih =>
      rw [List.flatMap_cons]
      split
      · rename_i same
        rw [same, ← ih]
        exact replaceAll_mark (List.cons_ne_nil _ _) rest
      · rename_i different
        rw [replaceAll_cons fun first => different (List.cons_prefix_cons.mp first).1.symm, ih]
        rfl

omit [DecidableEq α] in
/-- An occurrence that begins inside of a text begins with an item of the text. -/
theorem not_prefix_of_head {item : α} {others front back rest : List α} (outside : item ∉ front)
    (behind : back <:+ front) (nonempty : back ≠ []) : ¬ item :: others <+: back ++ rest := by
  cases back with
  | nil => exact absurd rfl nonempty
  | cons first back =>
      intro occurs
      rw [(List.cons_prefix_cons.mp occurs).1] at outside
      exact outside (behind.subset List.mem_cons_self)

omit [DecidableEq α] in
/-- Between two equal items that are not inside, only these begin with the item. -/
theorem suffix_framed {item : α} {inner back : List α} (outside : item ∉ inner)
    (behind : item :: back <:+ inner ++ [item]) : back = [] := by
  induction inner with
  | nil =>
      rcases List.suffix_cons_iff.mp behind with same | shorter
      · exact (List.cons.inj same).2
      · exact absurd (List.eq_nil_of_suffix_nil shorter) (List.cons_ne_nil _ _)
  | cons first inner ih =>
      obtain ⟨different, others⟩ := not_or.mp (mt List.mem_cons.mpr outside)
      rcases List.suffix_cons_iff.mp behind with same | shorter
      · exact absurd (List.cons.inj same).1 different
      · exact ih others shorter

section Pieces

variable {π : Type v} {text changed : π → List α}

/-- Each piece is the mark, or no occurrence of the mark begins in it. -/
def Separate (mark filler : List α) (text changed : π → List α) : List π → Prop
  | [] => True
  | piece :: pieces =>
      (text piece = mark ∧ changed piece = filler ∨
        changed piece = text piece ∧
          ∀ back, back <:+ text piece → back ≠ [] → ¬ mark <+: back ++ pieces.flatMap text) ∧
      Separate mark filler text changed pieces

/-- A text in pieces is changed piece by piece. -/
theorem replaceAll_pieces (nonempty : mark ≠ []) {pieces : List π}
    (separate : Separate mark filler text changed pieces) :
    replaceAll mark filler (pieces.flatMap text) = pieces.flatMap changed := by
  induction pieces with
  | nil => rfl
  | cons piece pieces ih =>
      obtain ⟨here, rest⟩ := separate
      rw [List.flatMap_cons, List.flatMap_cons]
      rcases here with ⟨isMark, isFiller⟩ | ⟨unchanged, apart⟩
      · rw [isMark, isFiller, replaceAll_mark nonempty, ih rest]
      · rw [unchanged, replaceAll_append apart, ih rest]

end Pieces

end ThetaDirectory.Library.Replacement
