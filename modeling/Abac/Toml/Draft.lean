import Abac.Setting

/-!
Tables under construction. A document adds to its tables line by line, and each table remembers how
it came about: a table that a header has named cannot be named again nor extended by dotted keys, one
that dotted keys have extended cannot be named, and what was written as a value is complete.
-/
namespace Abac.Toml

/-- How a table came about: by its own header, on the way to the table of another header, or by
dotted keys. -/
inductive Origin where
  | named
  | implied
  | dotted
deriving Repr, DecidableEq

/-- What a key of a table under construction holds: a value, a table, or a series of tables of which
the last is still open. -/
inductive Draft where
  | value (v : Setting)
  | table (origin : Origin) (fields : Entries Draft none)
  | series (earlier : List Setting) (last : Entries Draft none)

abbrev Table : Type := Dict Draft

mutual

def Draft.finish : Draft → Setting
  | .value v => v
  | .table _ fields => .table (finishFields fields)
  | .series earlier last => .list (earlier ++ [.table (finishFields last)])

def finishFields : {low : Option String} → Entries Draft low → Entries Setting low
  | _, .nil => .nil
  | _, .cons key above draft rest => .cons key above draft.finish (finishFields rest)

end

namespace Table

/-- Changes the table behind the keys of headers. Tables on the way that are not there are made, and
of a series the last table is meant. -/
def atHeader (change : Table → Option Table) : List String → Table → Option Table
  | [], table => change table
  | key :: path, table =>
    match table.get? key with
    | none => (atHeader change path ∅).map fun inner => table.insert key (.table .implied inner)
    | some (.table origin inner) =>
      (atHeader change path inner).map fun inner => table.insert key (.table origin inner)
    | some (.series earlier last) =>
      (atHeader change path last).map fun last => table.insert key (.series earlier last)
    | some (.value _) => none

def openNamed (table : Table) (key : String) : Option Table :=
  match table.get? key with
  | none => some (table.insert key (.table .named ∅))
  | some (.table .implied inner) => some (table.insert key (.table .named inner))
  | some _ => none

def openNext (table : Table) (key : String) : Option Table :=
  match table.get? key with
  | none => some (table.insert key (.series [] ∅))
  | some (.series earlier last) =>
    some (table.insert key (.series (earlier ++ [.table (finishFields last)]) ∅))
  | some _ => none

/-- Gives a value to a dotted key. Its last key must have none. The table that this key belongs to is
one that no header has named, or is made, and counts as made by a dotted key from then on. -/
def define (value : Setting) : List String → Table → Option Table
  | [], _ => none
  | [key], table => if table.contains key then none else some (table.insert key (.value value))
  | key :: path, table =>
    match table.get? key with
    | none => (define value path ∅).map fun inner => table.insert key (.table .dotted inner)
    | some (.table .named _) => none
    | some (.table origin inner) =>
      (define value path inner).map fun inner =>
        table.insert key (.table (if path.length = 1 then .dotted else origin) inner)
    | some (.series earlier last) =>
      if path.length = 1 then none
      else (define value path last).map fun last => table.insert key (.series earlier last)
    | some (.value _) => none

end Table

inductive Line where
  | header (path : List String)
  | seriesHeader (path : List String)
  | entry (path : List String) (value : Setting)

namespace Line

/-- Adds a line to a document in which the last header was `current`, and answers the header that is
then the last. -/
def addTo (document : Table) (current : List String) : Line → Option (Table × List String)
  | .header path => do
    let key ← path.getLast?
    return (← document.atHeader (·.openNamed key) path.dropLast, path)
  | .seriesHeader path => do
    let key ← path.getLast?
    return (← document.atHeader (·.openNext key) path.dropLast, path)
  | .entry path value => do
    return (← document.atHeader (Table.define value path) current, current)

def build? (lines : List Line) : Option (Dict Setting) := do
  let (document, _) ← lines.foldlM (fun (document, current) line => addTo document current line)
    ((∅ : Table), [])
  return finishFields document

end Line

def ofEntries? (entries : List (List String × Setting)) : Option (Dict Setting) :=
  Line.build? (entries.map fun (path, value) => .entry path value)

end Abac.Toml
