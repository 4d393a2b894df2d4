import Abac.Proofs.Declaration.Drafts
import Abac.Proofs.Json.Document

/-!
What a document means as a declaration when it is read from front to back. A field may be named once
and has its content from there, every member of a group has to be a declaration, an effect in its
object form is one member, and what stands under an unknown name is not looked at (`Declares`).
-/
namespace Abac.Declaration

open Json

def Nullable {α : Type} (means : Document → α → Prop) (doc : Document) (content : Option α) :
    Prop :=
  doc = .null ∧ content = none ∨ ∃ v, content = some v ∧ means doc v

/-- The name of an effect, or an object with the name as its only key and `null` under it, if
objects may still be opened. -/
def MeansEffect (mayOpen : Bool) (doc : Document) (effect : Effect) : Prop :=
  ∃ name, Effect.ofName? name = some effect ∧
    (doc = .string (some name) ∨ mayOpen = true ∧ doc = .object [(some name, .null)])

def MeansRules (mayOpen : Bool) (doc : Document) (rules : List String) : Prop :=
  mayOpen = true ∧ doc = .array (rules.map fun rule => .string (some rule))

def MeansText (doc : Document) (text : String) : Prop := doc = .string (some text)

/-- Member declarations under their names, if objects may still be opened; of several with one name
the last counts. -/
def MeansMembers (mayOpen : Bool) (declares : Document → Declaration → Prop) (doc : Document)
    (policies : Entries Declaration none) : Prop :=
  mayOpen = true ∧ ∃ members pairs, doc = .object members ∧
    List.Forall₂ (fun member pair => member.1 = some pair.1 ∧ declares member.2 pair.2)
      members pairs ∧ policies = Dict.ofList pairs

def Field.Means (mayOpen : Bool) (declares : Document → Declaration → Prop) :
    (field : Field) → Document → field.Content → Prop
  | .effect => Nullable (MeansEffect mayOpen)
  | .target => Nullable (MeansRules mayOpen)
  | .condition => Nullable (MeansRules mayOpen)
  | .expression => Nullable MeansText
  | .policies => Nullable (MeansMembers mayOpen declares)

section Drafts

variable (means : (field : Field) → Document → field.Content → Prop)

/-- A member of an object, read into a draft; `seen` are the fields that are read already. -/
inductive DraftsMember (draft : Draft) (seen : List Field) :
    Option String × Document → Draft × List Field → Prop
  | known {field : Field} {doc : Document} {content : field.Content} (hseen : field ∉ seen)
      (hcontent : means field doc content) :
      DraftsMember draft seen (some field.name, doc) (draft.set field content, field :: seen)
  | unknown {name : String} {doc : Document} (hname : Field.ofName? name = none) :
      DraftsMember draft seen (some name, doc) (draft, seen)

inductive DraftsMembers : Draft → List Field → List (Option String × Document) → Draft → Prop
  | nil {draft : Draft} {seen : List Field} : DraftsMembers draft seen [] draft
  | cons {draft next result : Draft} {seen seen' : List Field}
      {member : Option String × Document} {rest : List (Option String × Document)}
      (hmember : DraftsMember means draft seen member (next, seen'))
      (hrest : DraftsMembers next seen' rest result) :
      DraftsMembers draft seen (member :: rest) result

inductive DraftsItems : Draft → List Field → List Document → Draft → Prop
  | nil {draft : Draft} {fields : List Field} : DraftsItems draft fields [] draft
  | cons {draft result : Draft} {field : Field} {fields : List Field} {doc : Document}
      {content : field.Content} {rest : List Document} (hcontent : means field doc content)
      (hrest : DraftsItems (draft.set field content) fields rest result) :
      DraftsItems draft (field :: fields) (doc :: rest) result

/-- What the fields of a document hold, be they named by members or by the places of elements. -/
def Drafts : Document → Draft → Prop
  | .object members, draft => DraftsMembers means {} [] members draft
  | .array items, draft => DraftsItems means {} Field.all items draft
  | _, _ => False

end Drafts

/-- The declaration that a document is, if its parts are read one by one and arrays and objects that
are entered may nest at most `levels` deep. -/
def Declares : (levels : Nat) → Document → Declaration → Prop
  | 0 => fun _ _ => False
  | 1 => fun doc declaration => ∃ draft,
    Drafts (Field.Means false fun _ _ => False) doc draft ∧ draft.finish = .ok declaration
  | levels + 2 => fun doc declaration => ∃ draft,
    Drafts (Field.Means true (Declares levels)) doc draft ∧ draft.finish = .ok declaration

end Abac.Declaration
