import BlockMarkup.Json.Basic
import BlockMarkup.Text.Blank
import BlockMarkup.Text.Case

/-! # Log levels

How much is told while a command runs. A level is an integer; messages below it are not shown.
-/

namespace BlockMarkup.Log

/-- A log level. -/
abbrev Level := Int

namespace Level

/-- The level of messages about the inner workings. -/
def debug : Level := 10

/-- The level of messages about what has been done. -/
def info : Level := 20

/-- The level of messages about what looks wrong. -/
def warning : Level := 30

/-- The level of messages about what went wrong. -/
def error : Level := 40

/-- The level of messages about what ends the program. -/
def critical : Level := 50

/-- The names of the levels. -/
def names : List (String × Level) := [
  ("CRITICAL", critical), ("FATAL", critical), ("ERROR", error), ("WARNING", warning),
  ("WARN", warning), ("INFO", info), ("DEBUG", debug), ("NOTSET", 0)]

/-- The level of a given name; case and blanks around it do not matter. -/
def ofName? (s : String) : Option Level :=
  names.lookup (Text.upper (Text.trimmed s))

/-- The level that a configured value gives: an integer, or a name. -/
def ofJson (default : Level) : Json → Level
  | .int n => n
  | .str s => (ofName? s).getD default
  | _ => default

/-- How messages are shown: with time and place if the inner workings are, else as they are. -/
def format (l : Level) : String :=
  if l < info then "%(asctime)s - %(levelname)s - [%(name)s:%(lineno)d] - %(message)s"
  else "%(message)s"

/-- Whether messages of a level are shown. -/
def shows (l messageLevel : Level) : Bool := l ≤ messageLevel

end Level

end BlockMarkup.Log
