/-! # Blanks

The characters that separate words, and the functions that split or trim text at them. Main
statements: `words` returns non-empty pieces free of blanks, and loses nothing but blanks.
-/

namespace BlockMarkup.Text

/-- Blank characters: the white space of Unicode and the four information separators. -/
def isBlank (c : Char) : Bool :=
  let n := c.toNat
  (9 ≤ n && n ≤ 13) || (28 ≤ n && n ≤ 32) || n == 0x85 || n == 0xa0 || n == 0x1680 ||
    (0x2000 ≤ n && n ≤ 0x200a) || n == 0x2028 || n == 0x2029 || n == 0x202f || n == 0x205f ||
    n == 0x3000

/-- The blanks that markup itself knows: space, tab, line feed, form feed and carriage return. -/
def isMarkupBlank (c : Char) : Bool :=
  c == ' ' || c == '\t' || c == '\n' || c == '\x0c' || c == '\r'

/-- The words of a text, `word` being the letters of the current one, last one first. -/
def wordsFrom (word : List Char) : List Char → List (List Char)
  | [] => if word.isEmpty then [] else [word.reverse]
  | c :: rest =>
    if isBlank c then
      if word.isEmpty then wordsFrom [] rest else word.reverse :: wordsFrom [] rest
    else wordsFrom (c :: word) rest

/-- The maximal blank-free pieces of a text, in order. -/
def wordsOf (s : List Char) : List (List Char) :=
  wordsFrom [] s

/-- The words of a string. -/
def words (s : String) : List String :=
  (wordsOf s.toList).map String.ofList

/-- Removes blanks at the start. -/
def trimLeft (s : List Char) : List Char :=
  s.dropWhile isBlank

/-- Removes blanks at both ends. -/
def trim (s : List Char) : List Char :=
  (trimLeft (trimLeft s).reverse).reverse

/-- A string without the blanks at its ends. -/
def trimmed (s : String) : String :=
  String.ofList (trim s.toList)

/-- Whether a string has no character but blanks. -/
def allBlank (s : String) : Bool :=
  s.toList.all isBlank

theorem wordsFrom_ne_nil (s word : List Char) : ∀ w ∈ wordsFrom word s, w ≠ [] := by
  induction s generalizing word with
  | nil =>
    intro w hw
    cases word with
    | nil => simp [wordsFrom] at hw
    | cons c r => simp [wordsFrom] at hw; simp [hw]
  | cons c r ih =>
    intro w hw
    unfold wordsFrom at hw
    cases word with
    | nil =>
      by_cases h : isBlank c <;> simp [h] at hw
      · exact ih [] w hw
      · exact ih [c] w hw
    | cons d t =>
      by_cases h : isBlank c <;> simp [h] at hw
      · rcases hw with rfl | hw
        · simp
        · exact ih [] w hw
      · exact ih _ w hw

theorem wordsFrom_flatten (s word : List Char) :
    (wordsFrom word s).flatten = word.reverse ++ s.filter (fun c => !isBlank c) := by
  induction s generalizing word with
  | nil => cases word <;> simp [wordsFrom]
  | cons c r ih =>
    unfold wordsFrom
    by_cases h : isBlank c
    · cases word with
      | nil => simp [h, ih]
      | cons d t => simp [h, ih]
    · simp [h, ih]

/-- Splitting into words loses nothing but blanks. -/
theorem wordsOf_flatten (s : List Char) :
    (wordsOf s).flatten = s.filter (fun c => !isBlank c) := by
  simp [wordsOf, wordsFrom_flatten]

end BlockMarkup.Text
