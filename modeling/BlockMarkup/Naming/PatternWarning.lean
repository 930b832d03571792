import BlockMarkup.Naming.Options

/-! # Warnings about custom patterns

Custom patterns that cannot be used are left out silently. These warnings say which ones are, and
why.
-/

namespace BlockMarkup

/-- What is wrong with custom patterns. -/
inductive PatternWarning where
  /-- The setting is no mapping. -/
  | notMapping
  /-- A pattern has flags that make it remember where it stopped. -/
  | statefulFlags (key : String)
  /-- A pattern cannot be used. -/
  | unusable (key : String)
deriving DecidableEq, Repr

namespace PatternWarning

/-- What is told about the warning; `source` is the setting that holds the naming rules. -/
def message (source : String) (w : PatternWarning) : String :=
  let setting := source ++ ".customPatterns"
  "WARN [INVALID_CUSTOM_PATTERN] " ++
    match w with
    | .notMapping => setting ++ " must be a plain object of RegExp values. Ignored."
    | .statefulFlags key =>
      setting ++ "." ++ key ++ " must not include \"g\" or \"y\" flags. Ignored."
    | .unusable key => setting ++ "." ++ key ++ " must be a RegExp. Ignored."

/-- The keys of custom patterns. -/
def keys : List String := ["block", "element", "modifier"]

/-- Whether a configured pattern has flags that make it remember where it stopped. -/
def hasStatefulFlags (v : Json) : Bool :=
  (v.str?.bind fun s => CustomPattern.literalParts? s.toList).any fun (_, flags) =>
    flags.contains 'g' || flags.contains 'y'

/-- The warning about one pattern. -/
def ofPattern (key : String) (v : Json) : Except Regex.ReadError (Option PatternWarning) :=
  if v.isNull then .ok none
  else if hasStatefulFlags v then .ok (some (.statefulFlags key))
  else (CustomPattern.coerce v).map fun p => if p.isSome then none else some (.unusable key)

/-- The warnings about configured naming rules. -/
def ofNaming (raw : Json) : Except Regex.ReadError (List PatternWarning) :=
  match raw.members?.bind (Json.member? "customPatterns") with
  | none | some .null => .ok []
  | some (.obj patterns) =>
    (keys.mapM fun key => ofPattern key (.ofOption (Json.member? key patterns))).map
      (·.filterMap id)
  | some _ => .ok [.notMapping]

end PatternWarning

end BlockMarkup
