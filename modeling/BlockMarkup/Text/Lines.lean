/-! # Lines

Line breaks, and texts as lines. Main statement: `joined` undoes `linesOf`.
-/

namespace BlockMarkup.Text

/-- A text in which every line break is a line feed. -/
def unifyBreaks : List Char → List Char
  | [] => []
  | '\r' :: '\n' :: rest => '\n' :: unifyBreaks rest
  | '\r' :: rest => '\n' :: unifyBreaks rest
  | c :: rest => c :: unifyBreaks rest

/-- The lines of a text: what stands between line feeds. -/
def linesOf : List Char → List (List Char)
  | [] => [[]]
  | c :: rest =>
    if c = '\n' then [] :: linesOf rest
    else
      match linesOf rest with
      | [] => [[c]]
      | line :: lines => (c :: line) :: lines

/-- Lines as one text. -/
def joined : List (List Char) → List Char
  | [] => []
  | [line] => line
  | line :: lines => line ++ '\n' :: joined lines

theorem linesOf_ne_nil (s : List Char) : linesOf s ≠ [] := by
  cases s with
  | nil => simp [linesOf]
  | cons c r =>
    unfold linesOf
    split
    · simp
    · split <;> simp

theorem joined_cons (line : List Char) {lines : List (List Char)} (h : lines ≠ []) :
    joined (line :: lines) = line ++ '\n' :: joined lines := by
  cases lines with
  | nil => exact absurd rfl h
  | cons => rfl

/-- Joining the lines of a text gives the text back. -/
theorem joined_linesOf (s : List Char) : joined (linesOf s) = s := by
  induction s with
  | nil => rfl
  | cons c r ih =>
    unfold linesOf
    split
    · rename_i h
      rw [joined_cons [] (linesOf_ne_nil r), ih, h]
      rfl
    · split
      · rename_i h
        exact absurd h (linesOf_ne_nil r)
      · rename_i line lines h
        rw [h] at ih
        cases lines with
        | nil => simpa [joined] using ih
        | cons => simpa [joined] using ih

end BlockMarkup.Text
