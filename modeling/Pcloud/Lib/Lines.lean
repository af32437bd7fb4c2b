import Mathlib.Data.List.Induction

/-!
# Lines

A text is a row of lines, each ended by a separator, and maybe a line that is not ended.
-/

namespace Lines

variable {β : Type*} [DecidableEq β] (sep : β)

/-- The lines so far, and the one that is not ended yet. -/
def push (lines : List (List β) × List β) (b : β) : List (List β) × List β :=
  if b = sep then (lines.1 ++ [lines.2], []) else (lines.1, lines.2 ++ [b])

def split (text : List β) : List (List β) × List β := text.foldl (push sep) ([], [])

variable {sep} {text part : List β}

@[simp]
theorem split_nil : split sep [] = ([], []) := rfl

theorem split_concat (b : β) : split sep (text ++ [b]) = push sep (split sep text) b := by
  simp [split]

theorem split_append_part (h : sep ∉ part) :
    split sep (text ++ part) = ((split sep text).1, (split sep text).2 ++ part) := by
  induction part using List.reverseRec with
  | nil => simp
  | append_singleton part b ih =>
    have hpart : sep ∉ part := fun hmem => h (List.mem_append_left _ hmem)
    have hb : b ≠ sep := fun heq => h (by simp [heq])
    rw [← List.append_assoc, split_concat, ih hpart, push, if_neg hb, List.append_assoc]

theorem split_append_line (h : sep ∉ part) :
    split sep (text ++ (part ++ [sep])) = ((split sep text).1 ++ [(split sep text).2 ++ part], []) := by
  rw [← List.append_assoc, split_concat, split_append_part h, push, if_pos rfl]

theorem split_snd_eq_nil : (split sep text).2 = [] ↔ text = [] ∨ text.getLast? = some sep := by
  induction text using List.reverseRec with
  | nil => simp
  | append_singleton text b ih =>
    rw [split_concat, push]
    split
    · next hb => simp [hb]
    · next hb => simp [hb]

end Lines
