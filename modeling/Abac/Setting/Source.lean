import Abac.Files
import Abac.Json.Reader
import Abac.Toml.Reader

/-!
Files that settings are read from. A file of settings is written in one of several formats, and its
extension tells in which. How the file of a path is found, and which formats there are, is left to a
library.
-/
namespace Abac

namespace Setting

mutual

/-- The value that a JSON value describes. An integer that does not fit in 64 bits with its sign is
rounded. -/
def ofJson : Json → Setting
  | .null => .absent
  | .bool b => .flag b
  | .number (.integer n) =>
    if Digits.isWord n then .integer n else .decimal (Json.Number.integer n).toFloat
  | .number (.decimal x) => .decimal x
  | .string s => .text s
  | .array items => .list (ofJsonItems items)
  | .object fields => .table (ofJsonFields fields)

def ofJsonItems : List Json → List Setting
  | [] => []
  | item :: rest => ofJson item :: ofJsonItems rest

def ofJsonFields : {low : Option String} → Entries Json low → Entries Setting low
  | _, .nil => .nil
  | _, .cons key above value rest => .cons key above (ofJson value) (ofJsonFields rest)

end

structure Format where
  extensions : List String
  parse? : String → Option (Dict Setting)

namespace Format

def toml : Format where
  extensions := ["toml"]
  parse? text := Toml.parse? (.ofList (dropMark text.toList))

def json : Format where
  extensions := ["json"]
  parse? text :=
    match Json.parse? (.ofList (dropMark text.toList)) with
    | some (.object fields) => some (ofJsonFields fields)
    | _ => none

end Format

/-- What finds and reads the files of settings. `source?` has the settings for a path, none of them
where no file is found, and fails on a file that is not written in its format. Under the name of a
path alone there need not be a file: names that go on with one of the `extensions` are tried as
well. The entries of a source are set in an order that is not known. -/
structure Library where
  toml? : String → Option (Dict Setting)
  source? : Files → String → Option (Dict Setting)
  extensions : List String
  order : Dict Setting → List (String × Setting)

namespace Library

/-- The file that is found for a path, and its format. A file that is there under the path is the
one, and found only if its extension is known. -/
def find? (formats : List Format) (files : Files) (path : String) : Option (Format × Path) :=
  let exact := Path.ofText path
  if files.isFile exact then
    ((exact.extension?.bind FileName.text?).bind fun extension =>
      formats.find? fun format => extension ∈ format.extensions).map (·, exact)
  else
    (formats.flatMap fun format => format.extensions.map fun extension =>
      (format, Path.ofText (path ++ "." ++ extension))).find? fun found => files.isFile found.2

def ofFormats (formats : List Format) : Library where
  toml? := Format.toml.parse?
  source? files path :=
    match find? formats files path with
    | none => some ∅
    | some (format, found) =>
      match files.read? found with
      | none => some ∅
      | some content => format.parse? content
  extensions := formats.flatMap Format.extensions
  order := Entries.toList

def standard : Library := ofFormats [.toml, .json]

end Library

end Setting

end Abac
