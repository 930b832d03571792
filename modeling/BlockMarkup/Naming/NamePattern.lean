import BlockMarkup.Regex.Match
import BlockMarkup.Regex.Reader
import BlockMarkup.Naming.WordCase

/-! # Patterns for names

The patterns that Blocks, Elements, modifiers and attribute values have to match in each word case.
Every pattern is built once, with its written form beside what it runs.
-/

namespace BlockMarkup

/-- A pattern and its written form. -/
structure NamePattern where
  source : String
  regex : Regex

/-- A class of letters and digits, as ranges. -/
structure LetterClass where
  ranges : List (Char × Char)

namespace LetterClass

/-- The class in writing. -/
def source (l : LetterClass) : String :=
  "[" ++ String.join (l.ranges.map fun (a, b) => String.ofList [a, '-', b]) ++ "]"

/-- The class as a set of characters. -/
def set (l : LetterClass) : Regex.CharSet :=
  ⟨l.ranges.map fun (a, b) => .range a.toNat b.toNat, false, .exact⟩

/-- One character of the class. -/
def once (l : LetterClass) : NamePattern := ⟨l.source, .one l.set⟩

/-- Any number of characters of the class. -/
def star (l : LetterClass) : NamePattern := ⟨l.source ++ "*", .many l.set⟩

/-- One or more characters of the class. -/
def plus (l : LetterClass) : NamePattern := ⟨l.source ++ "+", .many1 l.set⟩

/-- Lower-case letters. -/
def lower : LetterClass := ⟨[('a', 'z')]⟩

/-- Upper-case letters. -/
def upper : LetterClass := ⟨[('A', 'Z')]⟩

/-- Lower-case letters and digits. -/
def lowerDigit : LetterClass := ⟨[('a', 'z'), ('0', '9')]⟩

/-- Letters and digits. -/
def alphaDigit : LetterClass := ⟨[('a', 'z'), ('A', 'Z'), ('0', '9')]⟩

end LetterClass

namespace NamePattern

instance : Append NamePattern := ⟨fun p q => ⟨p.source ++ q.source, p.regex ++ q.regex⟩⟩

/-- A character that needs no escape. -/
def separator (c : Char) : NamePattern := ⟨String.singleton c, .one (.single c)⟩

/-- Characters that a literal text writes behind a backslash. -/
def needsEscape (c : Char) : Bool :=
  "#$&()*+-.?[\\]^\x7b|\x7d~ \t\n\r\x0b\x0c".toList.contains c

/-- The written form of a literal text. -/
def escape (s : String) : String :=
  String.ofList (s.toList.flatMap fun c => if needsEscape c then ['\\', c] else [c])

/-- A literal text. -/
def literal (s : String) : NamePattern := ⟨escape s, .text s⟩

/-- A pattern a number of times. -/
def times (p : NamePattern) (least most : Nat) : NamePattern :=
  ⟨"(?:" ++ p.source ++ ")\x7b" ++ toString least ++ "," ++ toString most ++ "\x7d",
    .loop p.regex least (some most) .greedy⟩

/-- The first pattern or else the second. -/
def either (p q : NamePattern) : NamePattern :=
  ⟨"(?:" ++ p.source ++ "|" ++ q.source ++ ")", .alt p.regex q.regex⟩

/-- A pattern for a whole name; a line break may follow it. -/
def whole (p : NamePattern) : NamePattern :=
  ⟨"^" ++ p.source ++ "$", .anchor .textStart ++ p.regex ++ .anchor .textEndOrLastBreak⟩

/-- Whether a name matches. -/
def matchesName (p : NamePattern) (name : String) : Bool :=
  p.regex.matchesIn name.toList

/-- The pattern, if its repetitions are small enough to be used. -/
def usable (p : NamePattern) : Except Regex.ReadError NamePattern :=
  if p.regex.countsFit then .ok p else .error .countTooLarge

open LetterClass

/-- A word of camel or pascal case after the first. -/
def capitalWord : NamePattern := upper.once ++ alphaDigit.star

/-- Blocks: a first word and at least one more, at most `maxWords` in all. -/
def block (case : WordCase) (maxWords : Int) : NamePattern :=
  let further := (max 1 (maxWords - 1)).toNat
  match case with
  | .kebab =>
    (lower.once ++ lowerDigit.star ++ (separator '-' ++ lowerDigit.plus).times 1 further).whole
  | .snake =>
    (lower.once ++ lowerDigit.star ++ (separator '_' ++ lowerDigit.plus).times 1 further).whole
  | .camel => (lower.once ++ lowerDigit.star ++ capitalWord.times 1 further).whole
  | .pascal => (upper.once ++ lowerDigit.star ++ capitalWord.times 1 further).whole

/-- Elements: a single word, capitalized in pascal case only. -/
def element : WordCase → NamePattern
  | .pascal => (upper.once ++ lowerDigit.star).whole
  | _ => (lower.once ++ lowerDigit.star).whole

/-- The words of a modifier: one or two. -/
def modifierWords : WordCase → NamePattern
  | .kebab => lowerDigit.plus.either (lowerDigit.plus ++ separator '-' ++ lowerDigit.plus)
  | .snake => lowerDigit.plus.either (lowerDigit.plus ++ separator '_' ++ lowerDigit.plus)
  | .camel =>
    (lower.once ++ alphaDigit.star).either (lower.once ++ lowerDigit.star ++ capitalWord)
  | .pascal =>
    (upper.once ++ alphaDigit.star).either (upper.once ++ lowerDigit.star ++ capitalWord)

/-- Modifiers: a literal prefix and one or two words. -/
def modifier (case : WordCase) (lead : String) : NamePattern :=
  (literal lead ++ modifierWords case).whole

/-- Further words of a value, none if a single word is allowed. -/
def furtherWords (first word : NamePattern) (maxWords : Int) : NamePattern :=
  if maxWords > 1 then first ++ word.times 0 (maxWords - 1).toNat else first

/-- Values of attributes: up to `maxWords` words. -/
def value (case : WordCase) (maxWords : Int) : NamePattern :=
  match case with
  | .kebab =>
    (furtherWords lowerDigit.plus (separator '-' ++ lowerDigit.plus) maxWords).whole
  | .snake =>
    (furtherWords lowerDigit.plus (separator '_' ++ lowerDigit.plus) maxWords).whole
  | .camel => (furtherWords (lower.once ++ alphaDigit.star) capitalWord maxWords).whole
  | .pascal => (furtherWords (upper.once ++ alphaDigit.star) capitalWord maxWords).whole

end NamePattern

end BlockMarkup
