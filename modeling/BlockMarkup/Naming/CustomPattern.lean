import BlockMarkup.Regex.Match
import BlockMarkup.Regex.Reader
import BlockMarkup.Json.Basic

/-! # Custom patterns

Patterns that a project gives for its own names, bare or as a literal `/source/flags`.
-/

namespace BlockMarkup

/-- A pattern for names, as it was written, and what it runs. -/
structure CustomPattern where
  source : String
  ignoreCase : Bool
  regex : Regex

namespace CustomPattern

/-- Whether the pattern matches somewhere in a name. -/
def matchesName (p : CustomPattern) (name : String) : Bool :=
  p.regex.matchesIn name.toList

/-- A literal pattern cut into source and flags: a slash, a source that is not empty, a last slash,
lower-case letters, and possibly a line break. -/
def literalParts? (s : List Char) : Option (List Char × List Char) :=
  match s with
  | '/' :: rest =>
    let tail := rest.reverse.takeWhile (· != '/')
    match rest.reverse.dropWhile (· != '/') with
    | _ :: source =>
      let flags := match tail with
        | '\n' :: more => more.reverse
        | _ => tail.reverse
      if !source.isEmpty && flags.all Char.isLower then some (source.reverse, flags) else none
    | [] => none
  | _ => none

/-- A pattern that can be read; one that cannot is not used. -/
def ofSource (source : List Char) (ignoreCase : Bool) :
    Except Regex.ReadError (Option CustomPattern) :=
  match Regex.readWith { ignoreCase := ignoreCase } source with
  | .ok r => .ok (some ⟨String.ofList source, ignoreCase, r.regex⟩)
  | .error .malformed => .ok none
  | .error e => .error e

/-- The pattern that a configured text gives. Of flags, `i` and `u` alone are accepted. -/
def ofText (s : String) : Except Regex.ReadError (Option CustomPattern) :=
  if s.isEmpty then .ok none
  else
    match literalParts? s.toList with
    | some (source, flags) =>
      if flags.all fun c => c == 'i' || c == 'u' then ofSource source (flags.contains 'i')
      else .ok none
    | none => ofSource s.toList false

/-- The pattern that a configured value gives; only texts give any. -/
def coerce : Json → Except Regex.ReadError (Option CustomPattern)
  | .str s => ofText s
  | _ => .ok none

/-- The pattern given by one that was read under some flags beforehand. Only the flag that
disregards case is carried over; any other one makes the pattern unusable. -/
def ofReading (source : String) (r : Regex.Reading) :
    Except Regex.ReadError (Option CustomPattern) :=
  let f := r.flags
  if f.multiline || f.dotAll || f.verbose || f.ascii || f.template then .ok none
  else ofSource source.toList f.ignoreCase

end CustomPattern

end BlockMarkup
