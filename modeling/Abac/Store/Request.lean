import Abac.Store

/-!
Requests to stores. A store answers each request, and a request that is refused leaves it as it was.
Stores are reached through handles. Several handles may reach one store, and what is done through
one of them is seen through all of them.
-/
namespace Abac.Store

/-- What a store is asked for. A text comes with the identifier that is generated for it in case it
has none of its own. -/
inductive Request where
  | load (id : String) (declaration : Declaration)
  | update (id : String) (declaration : Declaration)
  | delete (id : String)
  | loadText (fresh text : String)
  | loadBatch (entries : List (String × Declaration))
  | get (id : String)
  | evaluate (id : String) (ctx : Context)
  | contains (id : String)
  | ids
  | size
  | isEmpty
  | clear

inductive Answer where
  | done
  | loaded (id : String)
  | names (ids : List String)
  | policy (found : Option Policy)
  | evaluation (result : Evaluation)
  | flag (b : Bool)
  | count (n : Nat)
  | refused (error : PolicyError)

def settle (store : Store) : Except PolicyError Store → Answer × Store
  | .ok changed => (.done, changed)
  | .error e => (.refused e, store)

def respond (store : Store) : Request → Answer × Store
  | .load id declaration => store.settle (store.load id declaration)
  | .update id declaration => store.settle (store.update id declaration)
  | .delete id => store.settle (store.delete id)
  | .loadText fresh text =>
    match store.loadText fresh text with
    | .ok (id, changed) => (.loaded id, changed)
    | .error e => (.refused e, store)
  | .loadBatch entries =>
    let (ids, changed) := store.loadBatch entries
    (.names ids, changed)
  | .get id => (.policy (store.get? id), store)
  | .evaluate id ctx =>
    match store.evaluate id ctx with
    | .ok result => (.evaluation result, store)
    | .error e => (.refused e, store)
  | .contains id => (.flag (store.contains id), store)
  | .ids => (.names store.ids, store)
  | .size => (.count store.size, store)
  | .isEmpty => (.flag store.isEmpty, store)
  | .clear => (.done, {})

/-- The answers to requests that are made through handles, one after the other, and the stores after
them. A handle reaches the store of its `owner`, and so does each clone of the handle. -/
def respondAll {Handle Owner : Type} [DecidableEq Owner] (owner : Handle → Owner)
    (stores : Owner → Store) : List (Handle × Request) → List Answer × (Owner → Store)
  | [] => ([], stores)
  | (handle, request) :: rest =>
    let (answer, changed) := (stores (owner handle)).respond request
    let (answers, stores) := respondAll owner
      (fun place => if place = owner handle then changed else stores place) rest
    (answer :: answers, stores)

end Abac.Store
