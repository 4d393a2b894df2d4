import Abac.Files
import Abac.Json.Reader
import Abac.Policy

/-!
Stores of compiled policies by identifier. A declaration that does not compile leaves the store as
it was. Files are loaded in order, up to the first that fails.
-/
namespace Abac

structure Store where
  policies : Dict Policy := ∅

namespace Store

def size (store : Store) : Nat := store.policies.size

def isEmpty (store : Store) : Bool := store.policies.isEmpty

def contains (store : Store) (id : String) : Bool := store.policies.contains id

def get? (store : Store) (id : String) : Option Policy := store.policies.get? id

def ids (store : Store) : List String := store.policies.keys

def insert (store : Store) (id : String) (policy : Policy) : Store :=
  ⟨store.policies.insert id policy⟩

def load (store : Store) (id : String) (declaration : Declaration) : Except PolicyError Store := do
  return store.insert id (← Policy.compile declaration)

def update (store : Store) (id : String) (declaration : Declaration) :
    Except PolicyError Store :=
  if store.contains id then store.load id declaration else .error (.notFound id)

def delete (store : Store) (id : String) : Except PolicyError Store :=
  if store.contains id then .ok ⟨store.policies.erase id⟩ else .error (.notFound id)

def evaluate (store : Store) (id : String) (ctx : Context) : Except PolicyError Evaluation :=
  match store.get? id with
  | some policy => .ok (policy.evaluate ctx)
  | none => .error (.notFound id)

/-- Loads declarations one by one; those that do not compile are passed over. The answer holds the
identifiers of the others. -/
def loadBatch (store : Store) : List (String × Declaration) → List String × Store
  | [] => ([], store)
  | (id, declaration) :: rest =>
    match store.load id declaration with
    | .ok store =>
      let (ids, store) := store.loadBatch rest
      (id :: ids, store)
    | .error _ => store.loadBatch rest

def splitIdentifier : Json → Option Json × Json
  | .object fields => (fields.get? "id", .object (fields.erase "id"))
  | other => (none, other)

/-- Stores the policy that a JSON value describes, under its own identifier, or else the one given
for it, or else the one generated for it. -/
def loadJson (store : Store) (fallback : Option String) (fresh : String) (value : Json) :
    Except PolicyError (String × Store) :=
  let store' (id : String) (content : Json) : Except PolicyError (String × Store) := do
    return (id, store.insert id (← Policy.ofJson content))
  match splitIdentifier value with
  | (some (.string id), content) => store' id content
  | (none, content) => store' (fallback.getD fresh) content
  | (some found, _) => .error (.identifier found)

/-- Stores the policy that a JSON text describes, under its own identifier or else the generated
one, which no policy should have. -/
def loadText (store : Store) (fresh : String) (text : String) :
    Except PolicyError (String × Store) :=
  match Json.parse? text with
  | some value => store.loadJson none fresh value
  | none => .error .malformedJson

/-- What stands for the identifiers that are generated, where nothing else is said. -/
def generated (n : Nat) : String := "<generated-" ++ toString (n + 1) ++ ">"

/-- Stores the policy in a file, under its own identifier, or else the stem of the file name if that
is a text, or else the generated one. -/
def loadFile (store : Store) (files : Files) (path : Path) (fresh : String := generated 0) :
    Except PolicyError (String × Store) :=
  match files.read? path with
  | none => .error .unreadable
  | some text =>
    match Json.parse? text with
    | none => .error .malformedJson
    | some value => store.loadJson (path.stem?.bind FileName.text?) fresh value

/-- Loads files in order, up to the first that fails. The store holds what was loaded before. For
each file an identifier is generated in case it needs one. -/
def loadFiles (store : Store) (files : Files) (paths : List Path)
    (fresh : Nat → String := generated) : Except PolicyError (List String) × Store :=
  match paths with
  | [] => (.ok [], store)
  | path :: rest =>
    match store.loadFile files path (fresh 0) with
    | .error e => (.error e, store)
    | .ok (id, store) =>
      let (ids, store) := store.loadFiles files rest fun n => fresh (n + 1)
      (ids.map (id :: ·), store)

def declarationFiles (files : Files) (directory : Path) : Option (List Path) :=
  (files.list? directory).map fun names =>
    (names.filter fun name => name.splitExtension.2 = some (.ofText "json")).map fun name =>
      directory ++ [.down name]

def loadDirectory (store : Store) (files : Files) (directory : Path)
    (fresh : Nat → String := generated) : Except PolicyError (List String) × Store :=
  match declarationFiles files directory with
  | none => (.error .unreadable, store)
  | some paths => store.loadFiles files paths fresh

def ofFiles (files : Files) (directory : Option Path) (paths : List Path)
    (fresh : Nat → String := generated) : Except PolicyError Store := do
  let (loaded, store) := match directory with
    | some directory => ({} : Store).loadDirectory files directory fresh
    | none => (.ok [], {})
  let ids ← loaded
  let (loaded, store) := store.loadFiles files paths fun n => fresh (n + ids.length)
  let _ ← loaded
  return store

end Store

end Abac
