import BlockMarkup.Text.Identifier
import BlockMarkup.Regex.Basic

/-! # Reading patterns

The written form of patterns: literals, sets, escapes, groups of all kinds, inline flags,
repetitions. A written form is refused as a whole; the two refusals that a user has to be told
about are kept apart from the others.
-/

namespace BlockMarkup.Regex

/-- Why a written pattern is refused. -/
inductive ReadError where
  | malformed
  | countTooLarge
  | flagsConflict
deriving DecidableEq, Repr

/-- The settings under which the parts of a pattern are read. -/
structure Flags where
  ignoreCase : Bool := false
  multiline : Bool := false
  dotAll : Bool := false
  verbose : Bool := false
  ascii : Bool := false
  /-- Asks for full character classes explicitly. -/
  unicode : Bool := false
  /-- Forbids repetitions. -/
  template : Bool := false
deriving DecidableEq, Repr

namespace Flags

/-- The case rule that the flags select. -/
def caseRule (f : Flags) : CaseRule :=
  if !f.ignoreCase then .exact else if f.ascii then .asciiFold else .fullFold

/-- All settings of either. -/
def or (f g : Flags) : Flags :=
  ⟨f.ignoreCase || g.ignoreCase, f.multiline || g.multiline, f.dotAll || g.dotAll,
    f.verbose || g.verbose, f.ascii || g.ascii, f.unicode || g.unicode, f.template || g.template⟩

/-- The settings common to both. -/
def and (f g : Flags) : Flags :=
  ⟨f.ignoreCase && g.ignoreCase, f.multiline && g.multiline, f.dotAll && g.dotAll,
    f.verbose && g.verbose, f.ascii && g.ascii, f.unicode && g.unicode, f.template && g.template⟩

/-- The settings inside a group that turns some on and some off. -/
def within (f on off : Flags) : Flags :=
  let f := if on.ascii || on.unicode then { f with ascii := false, unicode := false } else f
  let f := f.or on
  ⟨f.ignoreCase && !off.ignoreCase, f.multiline && !off.multiline, f.dotAll && !off.dotAll,
    f.verbose && !off.verbose, f.ascii, f.unicode, f.template && !off.template⟩

/-- The setting that an inline letter stands for. -/
def ofLetter? : Char → Option Flags
  | 'i' => some { ignoreCase := true }
  | 'm' => some { multiline := true }
  | 's' => some { dotAll := true }
  | 'x' => some { verbose := true }
  | 'a' => some { ascii := true }
  | 'u' => some { unicode := true }
  | 't' => some { template := true }
  | _ => none

end Flags

/-- The units of a written pattern. A backslash that ends the text is `dangling`. -/
inductive Token where
  | plain (c : Char)
  | escaped (c : Char)
  | dangling
deriving DecidableEq, Repr

/-- Cuts a written pattern into units. -/
def readTokens : List Char → List Token
  | [] => []
  | ['\\'] => [.dangling]
  | '\\' :: c :: rest => .escaped c :: readTokens rest
  | c :: rest => .plain c :: readTokens rest

/-- What is known about the pattern at some point of reading. -/
structure ReadState where
  tokens : List Token
  /-- The settings of the whole pattern. -/
  flags : Flags
  /-- The widths of the groups in order of opening, absent while a group is open. -/
  groups : List (Option (Nat × Option Nat)) := []
  names : List (List Char × Nat) := []
  /-- The number of groups opened before the outermost look-behind being read. -/
  lookBehindFrom : Option Nat := none
  /-- Groups that conditions mention by number. -/
  mentioned : List Nat := []
  /-- Whether a part was read that can be written but not run. -/
  unusable : Bool := false

/-- Reading with a state and refusals. -/
abbrev Reader := StateT ReadState (Except ReadError)

namespace Reader

/-- Refuses the pattern. -/
def refuse {α : Type} : Reader α := throw .malformed

/-- The next unit. -/
def peek : Reader (Option Token) := do return (← get).tokens.head?

/-- Takes the next unit. -/
def take : Reader (Option Token) := do
  let s ← get
  match s.tokens with
  | [] => return none
  | t :: rest => set { s with tokens := rest }; return some t

/-- Takes a given character if it comes next. -/
def accept (c : Char) : Reader Bool := do
  let s ← get
  match s.tokens with
  | .plain d :: rest => if c = d then set { s with tokens := rest }; return true else return false
  | _ => return false

/-- Takes at most `n` characters as long as they satisfy a test. -/
def takeWhile (test : Char → Bool) : Nat → Reader (List Char)
  | 0 => return []
  | n + 1 => do
    let s ← get
    match s.tokens with
    | .plain d :: rest =>
      if test d then
        set { s with tokens := rest }
        return d :: (← takeWhile test n)
      else return []
    | _ => return []

/-- Takes the units up to a closing character, which is taken too: a name, which is not empty. -/
def nameUntil (close : Char) : Nat → List Char → Reader (List Char)
  | 0, _ => refuse
  | n + 1, name => do
    match ← take with
    | none | some .dangling => refuse
    | some (.escaped c) => nameUntil close n (c :: '\\' :: name)
    | some (.plain c) =>
      if c = close then
        if name.isEmpty then refuse else return name.reverse
      else nameUntil close n (c :: name)

/-- The number of the next group to be opened; groups count from 1. -/
def nextGroup : Reader Nat := do return (← get).groups.length + 1

/-- Whether a group has been read to its end. -/
def closed (index : Nat) : Reader Bool := do
  return ((← get).groups[index - 1]?.join).isSome

/-- A reference inside a look-behind must be to a group that ended before it. -/
def checkReference (index : Nat) : Reader Unit := do
  match (← get).lookBehindFrom with
  | none => return
  | some bound =>
    if !(← closed index) then refuse
    if index ≥ bound then refuse

/-- The fewest and most characters of a pattern, given what is known of the groups. -/
def widthOf (r : Regex) : Reader (Nat × Option Nat) := do
  let groups := (← get).groups
  return r.width fun i => (groups[i - 1]?.join).getD (0, some 0)

end Reader

open Reader

/-- The value of digits in a base. -/
def digitsValue (base : Nat) (ds : List Char) : Nat :=
  ds.foldl (fun n c => n * base + (Text.hexDigit? c.toLower).getD 0) 0

/-- Digits of base eight. -/
def isOctal (c : Char) : Bool := '0' ≤ c && c ≤ '7'

/-- Digits of base sixteen. -/
def isHex (c : Char) : Bool := (Text.hexDigit? c.toLower).isSome

/-- What an escape stands for. -/
inductive Escape where
  | code (n : Nat)
  | kind (k : CharKind) (negated : Bool)
  | condition (a : Anchor)
  | reference (index : Nat)
deriving DecidableEq, Repr

/-- The control characters that have a letter. -/
def controlCode? : Char → Option Nat
  | 'a' => some 7
  | 'f' => some 12
  | 'n' => some 10
  | 'r' => some 13
  | 't' => some 9
  | 'v' => some 11
  | '\\' => some 92
  | _ => none

/-- The kinds of characters that have a letter. -/
def kindEscape? : Char → Option Escape
  | 'd' => some (.kind .digit false)
  | 'D' => some (.kind .digit true)
  | 's' => some (.kind .blank false)
  | 'S' => some (.kind .blank true)
  | 'w' => some (.kind .word false)
  | 'W' => some (.kind .word true)
  | _ => none

/-- Reads a code point of exactly `n` hexadecimal digits. -/
def readCode (n : Nat) : Reader Escape := do
  let ds ← takeWhile isHex n
  if ds.length ≠ n then refuse
  let code := digitsValue 16 ds
  if code > 0x10ffff then refuse
  return .code code

/-- Reads the rest of an escape by code, common to sets and their outside. -/
def readPlainEscape (c : Char) : Reader Escape := do
  if c = 'x' then readCode 2
  else if c = 'u' then readCode 4
  else if c = 'U' then readCode 8
  else if c.isAlphanum then refuse
  else return .code c.toNat

/-- Reads an escape inside a set. -/
def readSetEscape (c : Char) : Reader Escape := do
  if c = 'b' then return .code 8
  else if let some n := controlCode? c then return .code n
  else if let some e := kindEscape? c then return e
  else if isOctal c then
    let n := digitsValue 8 (c :: (← takeWhile isOctal 2))
    if n > 0o377 then refuse
    return .code n
  else readPlainEscape c

/-- Reads an escape outside sets that starts with a digit but zero: three octal digits are a code
point, all else refers to a group. -/
def readDigitEscape (c : Char) : Reader Escape := do
  let reference (ds : List Char) : Reader Escape := do
    let index := digitsValue 10 ds
    if index ≥ (← nextGroup) then refuse
    if !(← closed index) then refuse
    checkReference index
    return .reference index
  match ← takeWhile Char.isDigit 1 with
  | [] => reference [c]
  | d :: _ =>
    if isOctal c && isOctal d then
      match ← takeWhile isOctal 1 with
      | [] => reference [c, d]
      | e :: _ =>
        let n := digitsValue 8 [c, d, e]
        if n > 0o377 then refuse
        return .code n
    else reference [c, d]

/-- Reads an escape outside sets. -/
def readEscape (flags : Flags) (c : Char) : Reader Escape := do
  match c with
  | 'A' => return .condition .textStart
  | 'Z' => return .condition .textEnd
  | 'b' => return .condition (.wordBoundary flags.ascii false)
  | 'B' => return .condition (.wordBoundary flags.ascii true)
  | '0' => return .code (digitsValue 8 (← takeWhile isOctal 2))
  | _ =>
    if let some n := controlCode? c then return .code n
    else if let some e := kindEscape? c then return e
    else if c.isDigit then readDigitEscape c
    else readPlainEscape c

/-- One member of a set as written. -/
def readSetMember (t : Option Token) : Reader Escape :=
  match t with
  | none | some .dangling => refuse
  | some (.escaped c) => readSetEscape c
  | some (.plain c) => return .code c.toNat

/-- A member of a set. -/
def setItem (ascii : Bool) : Escape → SetItem
  | .code n => .range n n
  | .kind k negated => .kind k ascii negated
  | _ => .range 1 0

/-- Reads the members of a set up to the bracket that closes it. A bracket in first place is a
member. -/
def readSetItems (ascii : Bool) : Nat → Bool → Reader (List SetItem)
  | 0, _ => refuse
  | fuel + 1, first => do
    let t ← take
    if t = some (.plain ']') && !first then return []
    let a ← readSetMember t
    if ← accept '-' then
      let u ← take
      if u = some (.plain ']') then return [setItem ascii a, .range 45 45]
      match a, ← readSetMember u with
      | .code lo, .code hi =>
        if hi < lo then refuse
        return .range lo hi :: (← readSetItems ascii fuel false)
      | _, _ => refuse
    else return setItem ascii a :: (← readSetItems ascii fuel false)

/-- Reads a set after its opening bracket. -/
def readSet (flags : Flags) : Reader CharSet := do
  let negated ← accept '^'
  let items ← readSetItems flags.ascii ((← get).tokens.length + 1) true
  return ⟨items, negated, flags.caseRule⟩

/-- A number of repetitions, refused if it is too large. -/
def count (ds : List Char) : Reader Nat := do
  let n := digitsValue 10 ds
  if n ≥ countLimit then throw .countTooLarge
  return n

/-- Reads the bounds of a repetition after its opening brace; nothing is taken if what follows is
not a repetition. -/
def readBounds : Reader (Option (Nat × Option Nat)) := do
  let s ← get
  let all := s.tokens.length
  let lo ← takeWhile Char.isDigit all
  let comma ← accept ','
  let hi ← if comma then takeWhile Char.isDigit all else pure lo
  if !(← accept '}') then
    set s
    return none
  if (← peek) = some .dangling then refuse
  let least ← if lo.isEmpty then pure 0 else count lo
  if hi.isEmpty then return some (least, none)
  let most ← count hi
  if most < least then refuse
  return some (least, some most)

/-- The parts of a sequence by how they may be repeated. -/
inductive PartKind where
  | condition
  | repetition
  | other
deriving DecidableEq

/-- A part of a sequence. -/
structure Part where
  kind : PartKind
  regex : Regex

/-- The pattern for parts in reverse order. -/
def joinParts : List Part → Regex
  | [] => .empty
  | p :: rest => rest.foldl (fun r q => .seq q.regex r) p.regex

/-- A repeated pattern. -/
def repeated (r : Regex) (least : Nat) (most : Option Nat) (greed : Greed) : Regex :=
  match r with
  | .one set => .span set least most greed
  | _ => .loop r least most greed

/-- Reads the mark that says in which order a repetition tries its lengths. -/
def readGreed : Reader Greed := do
  if ← accept '?' then return .lazy
  if ← accept '+' then return .possessive
  return .greedy

/-- Repeats the last of the parts read so far. -/
def repeatLast (flags : Flags) (parts : List Part) (least : Nat) (most : Option Nat) :
    Reader (List Part) := do
  match parts with
  | [] => refuse
  | p :: rest =>
    if p.kind ≠ .other then refuse
    let greed ← readGreed
    if flags.template then modify ({ · with unusable := true })
    return ⟨.repetition, repeated p.regex least most greed⟩ :: rest

/-- Adds the setting of one more letter to those of an inline group. -/
def addLetter (on : Flags) (c : Char) : Reader Flags := do
  match Flags.ofLetter? c with
  | none => refuse
  | some f =>
    let sum := on.or f
    if (f.ascii || f.unicode) && sum.ascii && sum.unicode then refuse
    return sum

/-- Reads letters that turn settings off, up to the colon. -/
def readFlagsOff : Nat → Flags → Reader Flags
  | 0, _ => refuse
  | fuel + 1, off => do
    match ← take with
    | some (.plain ':') => if off = {} then refuse else return off
    | some (.plain c) =>
      match Flags.ofLetter? c with
      | none => refuse
      | some f =>
        if f.ascii || f.unicode then refuse
        readFlagsOff fuel (off.or f)
    | _ => refuse

/-- Reads the letters of an inline group, `c` being the first character: settings for the whole
pattern, or those turned on and off inside the group. -/
def readInlineFlags : Nat → Flags → Char → Reader (Flags ⊕ Flags × Flags)
  | 0, _, _ => refuse
  | fuel + 1, on, c => do
    if c = ')' then return .inl on
    else if c = ':' then
      if on.template then refuse else return .inr (on, {})
    else if c = '-' then
      if on.template then refuse
      let off ← readFlagsOff ((← get).tokens.length + 1) {}
      if off.template || on.and off ≠ {} then refuse
      return .inr (on, off)
    else
      let on ← addLetter on c
      match ← take with
      | some (.plain d) => readInlineFlags fuel on d
      | _ => refuse

/-- Skips a comment group up to the parenthesis that closes it. -/
def skipComment : Nat → Reader Unit
  | 0 => refuse
  | fuel + 1 => do
    match ← take with
    | none | some .dangling => refuse
    | some (.plain ')') => return
    | some _ => skipComment fuel

/-- Skips the rest of a line. -/
def skipLine : Nat → Reader Unit
  | 0 => return
  | fuel + 1 => do
    match ← take with
    | none => return
    | some .dangling => refuse
    | some (.plain '\n') => return
    | some _ => skipLine fuel

/-- The value of a decimal digit of any script. -/
def digitValue (c : Char) : Nat :=
  if c.isDigit then c.toNat - 48
  else
    match Text.wideDigits.find? (·.contains c.toNat) with
    | some i => (c.toNat - i.first) % 10
    | none => 0

/-- The value of a written number: digits of any script, single underscores between them. -/
def numberFrom : Option Nat → Bool → List Char → Option Nat
  | n, afterDigit, [] => if afterDigit then n else none
  | n, afterDigit, c :: rest =>
    if Text.isDecimalDigit c then numberFrom (some (n.getD 0 * 10 + digitValue c)) true rest
    else if c = '_' && afterDigit then numberFrom n false rest
    else none

/-- The number by which a condition names its group. -/
def groupNumber? (name : List Char) : Option Nat :=
  match Text.trim name with
  | '+' :: rest => numberFrom none false rest
  | rest => numberFrom none false rest

/-- Reads the group that a condition tests. -/
def readConditionGroup : Reader Nat := do
  let name ← nameUntil ')' ((← get).tokens.length + 1) []
  if Text.isIdentifier name then
    match (← get).names.lookup name with
    | none => refuse
    | some index => checkReference index; return index
  else
    match groupNumber? name with
    | none | some 0 => refuse
    | some index =>
      if index ≥ 2147483647 then refuse
      modify fun s => { s with mentioned := index :: s.mentioned }
      checkReference index
      return index

/-- Opens a group and returns its number. -/
def openGroup (name : Option (List Char)) : Reader Nat := do
  let index ← nextGroup
  modify fun s => { s with groups := s.groups ++ [none] }
  match name with
  | none => return index
  | some n =>
    if ((← get).names.lookup n).isSome then refuse
    modify fun s => { s with names := (n, index) :: s.names }
    return index

/-- Closes a group. -/
def closeGroup (index : Nat) (r : Regex) : Reader Unit := do
  let w ← widthOf r
  modify fun s => { s with groups := s.groups.set (index - 1) (some w) }

/-- A look-behind, which must have a fixed width. -/
def lookBehind (negated : Bool) (r : Regex) : Reader Regex := do
  let (least, most) ← widthOf r
  if most ≠ some least || least ≥ countLimit + 1 then modify ({ · with unusable := true })
  return .look (some least) negated r

/-- The pattern for an escape outside sets. -/
def escapePart (flags : Flags) : Escape → Part
  | .code n => ⟨.other, .one ⟨[.range n n], false, flags.caseRule⟩⟩
  | .kind k negated => ⟨.other, .one ⟨[.kind k flags.ascii negated], false, flags.caseRule⟩⟩
  | .condition a => ⟨.condition, .anchor a⟩
  | .reference i => ⟨.other, .backref i flags.caseRule⟩

mutual

/-- Reads alternatives; `top` says that no group is open. -/
def readAlternatives (fuel : Nat) (flags : Flags) (top first : Bool) : Reader Regex :=
  match fuel with
  | 0 => refuse
  | fuel + 1 => do
    let r ← readSequence fuel flags (top && first) []
    if ← accept '|' then
      let whole := (← get).flags
      return .alt r (← readAlternatives fuel (if top then whole else flags) top false)
    else return r

/-- Reads a sequence, `parts` being what has been read of it, last part first. `leading` says that
settings for the whole pattern may still be given. -/
def readSequence (fuel : Nat) (flags : Flags) (leading : Bool) (parts : List Part) :
    Reader Regex :=
  match fuel with
  | 0 => refuse
  | fuel + 1 => do
    let t ← peek
    match t with
    | none | some (.plain '|') | some (.plain ')') => return joinParts parts
    | some .dangling => refuse
    | some (.escaped c) =>
      let _ ← take
      let e ← readEscape flags c
      readSequence fuel flags leading (escapePart flags e :: parts)
    | some (.plain c) =>
      let _ ← take
      let repeatBy (least : Nat) (most : Option Nat) : Reader Regex := do
        readSequence fuel flags leading (← repeatLast flags parts least most)
      let literal : Regex := .one ⟨[.range c.toNat c.toNat], false, flags.caseRule⟩
      if flags.verbose && (c == ' ' || (9 ≤ c.toNat && c.toNat ≤ 13)) then
        readSequence fuel flags leading parts
      else if flags.verbose && c = '#' then
        skipLine ((← get).tokens.length + 1)
        readSequence fuel flags leading parts
      else
      match c with
      | '[' =>
        let s ← readSet flags
        readSequence fuel flags leading (⟨.other, .one s⟩ :: parts)
      | '?' => repeatBy 0 (some 1)
      | '*' => repeatBy 0 none
      | '+' => repeatBy 1 none
      | '\x7b' =>
        if (← peek) = some (.plain '}') then
          readSequence fuel flags leading (⟨.other, literal⟩ :: parts)
        else
          match ← readBounds with
          | none => readSequence fuel flags leading (⟨.other, literal⟩ :: parts)
          | some (least, most) => repeatBy least most
      | '.' =>
        let s : CharSet := if flags.dotAll then .anything else (CharSet.single '\n').not
        readSequence fuel flags leading (⟨.other, .one s⟩ :: parts)
      | '^' =>
        let a : Anchor := if flags.multiline then .lineStart else .textStart
        readSequence fuel flags leading (⟨.condition, .anchor a⟩ :: parts)
      | '$' =>
        let a : Anchor := if flags.multiline then .lineEnd else .textEndOrLastBreak
        readSequence fuel flags leading (⟨.condition, .anchor a⟩ :: parts)
      | '(' =>
        match (← readGroup fuel flags leading parts) with
        | .inl flags => readSequence fuel flags leading parts
        | .inr none => readSequence fuel flags leading parts
        | .inr (some r) => readSequence fuel flags leading (⟨.other, r⟩ :: parts)
      | _ => readSequence fuel flags leading (⟨.other, literal⟩ :: parts)

/-- Reads a group after its opening parenthesis: new settings for the whole pattern, nothing, or a
pattern. -/
def readGroup (fuel : Nat) (flags : Flags) (leading : Bool) (parts : List Part) :
    Reader (Flags ⊕ Option Regex) :=
  match fuel with
  | 0 => refuse
  | fuel + 1 => do
    let all := (← get).tokens.length + 1
    let body (flags : Flags) : Reader Regex := do
      let r ← readAlternatives fuel flags false false
      if !(← accept ')') then refuse
      return r
    let capture (name : Option (List Char)) : Reader (Flags ⊕ Option Regex) := do
      let index ← openGroup name
      let r ← body flags
      closeGroup index r
      return .inr (some (.group index r))
    if !(← accept '?') then capture none
    else
      match ← take with
      | some (.plain 'P') =>
        match ← take with
        | some (.plain '<') =>
          let name ← nameUntil '>' all []
          if !Text.isIdentifier name then refuse
          capture (some name)
        | some (.plain '=') =>
          let name ← nameUntil ')' all []
          if !Text.isIdentifier name then refuse
          match (← get).names.lookup name with
          | none => refuse
          | some index =>
            if !(← closed index) then refuse
            checkReference index
            return .inr (some (.backref index flags.caseRule))
        | _ => refuse
      | some (.plain ':') => return .inr (some (← body flags))
      | some (.plain '#') =>
        skipComment all
        return .inr none
      | some (.plain '=') => return .inr (some (.look none false (← body flags)))
      | some (.plain '!') => return .inr (some (.look none true (← body flags)))
      | some (.plain '<') =>
        let negated ← match ← take with
          | some (.plain '=') => pure false
          | some (.plain '!') => pure true
          | _ => refuse
        let outer := (← get).lookBehindFrom
        let here ← nextGroup
        if outer.isNone then modify ({ · with lookBehindFrom := some here })
        let r ← readAlternatives fuel flags false false
        if outer.isNone then modify ({ · with lookBehindFrom := none })
        if !(← accept ')') then refuse
        return .inr (some (← lookBehind negated r))
      | some (.plain '(') =>
        let index ← readConditionGroup
        let yes ← readSequence fuel flags false []
        let no ← if ← accept '|' then readSequence fuel flags false [] else pure .empty
        if !(← accept ')') then refuse
        return .inr (some (.ifGroup index yes no))
      | some (.plain '>') => return .inr (some (.atomic (← body flags)))
      | some (.plain c) =>
        if c = ')' || c = ':' || (c ≠ '-' && (Flags.ofLetter? c).isNone) then refuse
        match ← readInlineFlags all {} c with
        | .inl on =>
          if !leading || !parts.isEmpty then refuse
          let all := flags.or on
          modify fun s => { s with flags := s.flags.or on }
          return .inl all
        | .inr (on, off) => return .inr (some (← body (flags.within on off)))
      | _ => refuse

end

/-- A pattern as read: what it runs, and its settings. -/
structure Reading where
  regex : Regex
  flags : Flags

/-- Reads a written pattern under given settings. -/
def readWith (flags : Flags) (source : List Char) : Except ReadError Reading := do
  let tokens := readTokens source
  let (r, s) ← (readAlternatives (3 * tokens.length + 4) flags true true).run
    { tokens := tokens, flags := flags }
  if s.flags.ascii && s.flags.unicode then throw .flagsConflict
  if !s.tokens.isEmpty then throw .malformed
  if s.mentioned.any (· > s.groups.length) then throw .malformed
  if s.unusable then throw .malformed
  return ⟨r, s.flags⟩

/-- Reads a written pattern. -/
def read (source : List Char) : Except ReadError Regex :=
  (readWith {} source).map Reading.regex

end BlockMarkup.Regex
