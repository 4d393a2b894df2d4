/-!
The files and directories below one directory, and the paths that lead to them. A path is followed
step by step, and each step starts at a directory that is there. What lies outside of the first
directory is not known, so a path that leaves it leads nowhere. The name of a file is made of bytes,
which need not be those of a text.
-/
namespace Abac

abbrev FileName : Type := List UInt8

namespace FileName

/-- The bytes of a text, in UTF-8. -/
def ofText (text : String) : FileName := text.toUTF8.data.toList

/-- The text that has the bytes of a name, if there is one. -/
def text? (name : FileName) : Option String := String.fromUTF8? name.toByteArray

def dot : UInt8 := '.'.toUInt8

/-- The stem and the extension of a name. A name whose only dot is in front has no extension. -/
def splitExtension (name : FileName) : FileName × Option FileName :=
  let reversed := name.reverse
  let after := reversed.takeWhile (· ≠ dot)
  match reversed.dropWhile (· ≠ dot) with
  | [] => (name, none)
  | _ :: before =>
    if before = [] ∨ name = [dot, dot] then (name, none)
    else (before.reverse, some after.reverse)

def insertInto (name : FileName) : List FileName → List FileName
  | [] => [name]
  | first :: rest =>
    if name < first then name :: first :: rest
    else if name = first then first :: rest
    else first :: insertInto name rest

end FileName

inductive Path.Step where
  | stay
  | up
  | down (name : FileName)
deriving Repr, DecidableEq

abbrev Path : Type := List Path.Step

namespace Path

def Step.ofName (name : List Char) : Step :=
  if name = [] ∨ name = ['.'] then .stay
  else if name = ['.', '.'] then .up
  else .down (.ofText (String.ofList name))

/-- The path that a text with slashes names. A slash at its end stays at the place before it, which
must then be a directory, and one at its front leaves. -/
def ofText (text : String) : Path :=
  match text.toList.splitOn '/' with
  | [] :: name :: names => .up :: (name :: names).map Step.ofName
  | names => names.map Step.ofName

def name? (path : Path) : Option FileName :=
  match path.reverse.dropWhile (· = .stay) with
  | .down name :: _ => some name
  | _ => none

def stem? (path : Path) : Option FileName := path.name?.map fun name => name.splitExtension.1

def extension? (path : Path) : Option FileName := path.name?.bind fun name => name.splitExtension.2

end Path

/-- A place, by the names on the way to it from the first directory. -/
abbrev Files.Place : Type := List FileName

/-- What is at a place: a directory, or a file with its text, if its content is one. -/
inductive Files.Entry where
  | directory
  | file (text : Option String)
deriving Repr, DecidableEq

structure Files where
  entries : List (Files.Place × Files.Entry) := []

namespace Files

def entry? (files : Files) (place : Place) : Option Entry :=
  if place = [] then some .directory else files.entries.lookup place

def isDirectory (files : Files) (place : Place) : Bool := files.entry? place = some .directory

def move (place : Place) : Path.Step → Option Place
  | .stay => some place
  | .up => if place = [] then none else some place.dropLast
  | .down name => some (place ++ [name])

def place? (files : Files) (path : Path) : Option Place :=
  path.foldlM (fun place step => if files.isDirectory place then move place step else none) []

def isFile (files : Files) (path : Path) : Bool :=
  match (files.place? path).bind files.entry? with
  | some (.file _) => true
  | _ => false

def read? (files : Files) (path : Path) : Option String :=
  match (files.place? path).bind files.entry? with
  | some (.file text) => text
  | _ => none

def nameIn? (directory place : Place) : Option FileName :=
  if place.dropLast = directory then place.getLast? else none

/-- The names of all that lies in a directory, in order; `none` if there is no such directory. -/
def list? (files : Files) (path : Path) : Option (List FileName) :=
  match files.place? path with
  | none => none
  | some place =>
    if files.isDirectory place then
      some ((files.entries.filterMap fun entry => nameIn? place entry.1).foldr FileName.insertInto [])
    else none

def put (files : Files) (place : Place) (entry : Entry) : Files :=
  ⟨(place, entry) :: files.entries.filter fun other => other.1 ≠ place⟩

def enter (files : Files) (place : Place) (step : Path.Step) : Files × Place :=
  match move place step with
  | none => (files, place)
  | some next => (if (files.entry? next).isSome then files else files.put next .directory, next)

def write (files : Files) (path : Path) (text : Option String) : Files :=
  match path.getLast? with
  | some (.down name) =>
    let (files, place) := path.dropLast.foldl (fun (files, place) step => enter files place step)
      (files, [])
    files.put (place ++ [name]) (.file text)
  | _ => files

end Files

end Abac
