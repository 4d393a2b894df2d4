import Abac.Resolution

/-!
What the evaluation of an expression reads. The references of an expression are its paths in
reading order, without operator keys. Evaluating it is reading all of them, whatever their values,
and computing a value that depends on the context alone (`Expr.evaluate_eq`). So what an evaluation
leaves in the record is known from the list of references: the bindings it adds are those of the
present resource attributes among them, in the same order (`Record.bindings_readAll`).
-/
namespace Abac

abbrev Reference : Type := Namespace × List String

def AttributePath.reference (path : AttributePath) : Reference := (path.ns, path.segments)

namespace Context

/-- Two contexts agree on references if each of them is missing in both or has the same value. -/
def Agree (ctx ctx' : Context) (refs : List Reference) : Prop :=
  ∀ ref ∈ refs, ctx.value? ref.1 ref.2 = ctx'.value? ref.1 ref.2

variable {ctx ctx' : Context} {refs refs' : List Reference}

theorem Agree.mono (h : ctx.Agree ctx' refs') (hsub : refs ⊆ refs') : ctx.Agree ctx' refs := by
  intro ref href
  exact h ref (hsub href)

theorem Agree.left (h : ctx.Agree ctx' (refs ++ refs')) : ctx.Agree ctx' refs :=
  h.mono (List.subset_append_left refs refs')

theorem Agree.right (h : ctx.Agree ctx' (refs ++ refs')) : ctx.Agree ctx' refs' :=
  h.mono (List.subset_append_right refs refs')

theorem Agree.head {ref : Reference} (h : ctx.Agree ctx' (ref :: refs)) :
    ctx.value? ref.1 ref.2 = ctx'.value? ref.1 ref.2 :=
  h ref List.mem_cons_self

theorem Agree.tail {ref : Reference} (h : ctx.Agree ctx' (ref :: refs)) : ctx.Agree ctx' refs :=
  h.mono (List.subset_cons_self ref refs)

/-- The bindings that reading a place gives: those of its value if the place is a present resource
attribute, and none otherwise. -/
def bindings (ctx : Context) (ref : Reference) : List Binding :=
  match ref with
  | (.resource, segments) =>
    match ctx.value? .resource segments with
    | some value => Record.bindingsOf segments value
    | none => []
  | _ => []

end Context

namespace Record

variable {ctx ctx' : Context}

theorem fst_read (record : Record) (ctx : Context) (ns : Namespace) (segments : List String) :
    (record.read ctx ns segments).1 = ctx.value? ns segments := by
  unfold read
  cases ctx.value? ns segments <;> rfl

theorem read_congr (record : Record) {ns : Namespace} {segments : List String}
    (h : ctx.value? ns segments = ctx'.value? ns segments) :
    record.read ctx ns segments = record.read ctx' ns segments := by
  unfold read
  rw [h]

def readAll (ctx : Context) (record : Record) (refs : List Reference) : Record :=
  refs.foldl (fun record ref => (record.read ctx ref.1 ref.2).2) record

theorem readAll_append (ctx : Context) (record : Record) (refs refs' : List Reference) :
    record.readAll ctx (refs ++ refs') = (record.readAll ctx refs).readAll ctx refs' :=
  List.foldl_append

theorem bindings_read (record : Record) (ctx : Context) (ref : Reference) :
    (record.read ctx ref.1 ref.2).2.bindings = record.bindings ++ ctx.bindings ref := by
  obtain ⟨ns, segments⟩ := ref
  unfold read
  cases ns <;> cases h : ctx.value? _ segments <;> simp [note, Context.bindings, h]

/-- Reading adds the bindings of the places read, in reading order. -/
theorem bindings_readAll (ctx : Context) (record : Record) (refs : List Reference) :
    (record.readAll ctx refs).bindings = record.bindings ++ refs.flatMap ctx.bindings := by
  induction refs generalizing record with
  | nil => simp [readAll]
  | cons ref rest ih =>
    change ((record.read ctx ref.1 ref.2).2.readAll ctx rest).bindings = _
    rw [ih, bindings_read, List.flatMap_cons, List.append_assoc]

end Record

namespace Expr

mutual

def references : Expr → List Reference
  | .literal _ => []
  | .regex _ => []
  | .path source => [source.reference]
  | .array items => referencesOfItems items
  | .object entries => referencesOfEntries entries
  | .binary _ lhs rhs => references lhs ++ references rhs

def referencesOfItems : List Expr → List Reference
  | [] => []
  | item :: rest => references item ++ referencesOfItems rest

def referencesOfEntries : List (String × Expr) → List Reference
  | [] => []
  | (_, expr) :: rest => references expr ++ referencesOfEntries rest

end

mutual

/-- The value of an expression in a context. There is none if a path in it leads nowhere or its
arithmetic has no result. -/
def value? (ctx : Context) : Expr → Option Value
  | .literal value => some value
  | .regex pattern => some (.regex pattern)
  | .path source => ctx.value? source.ns source.segments
  | .array items => (valuesOfItems? ctx items).map .array
  | .object entries => (valuesOfEntries? ctx entries).map fun pairs => .object (Dict.ofList pairs)
  | .binary op lhs rhs =>
    (value? ctx lhs).bind fun left => (value? ctx rhs).bind fun right => op.apply left right

def valuesOfItems? (ctx : Context) : List Expr → Option (List Value)
  | [] => some []
  | item :: rest =>
    (value? ctx item).bind fun value => (valuesOfItems? ctx rest).map (value :: ·)

def valuesOfEntries? (ctx : Context) : List (String × Expr) → Option (List (String × Value))
  | [] => some []
  | (key, expr) :: rest =>
    (value? ctx expr).bind fun value => (valuesOfEntries? ctx rest).map ((key, value) :: ·)

end

mutual

/-- Evaluating an expression gives its value and reads its references: a part without a value
keeps no other part from being read. -/
theorem evaluate_eq (ctx : Context) (record : Record) (expr : Expr) :
    expr.evaluate ctx record = (expr.value? ctx, record.readAll ctx expr.references) := by
  match expr with
  | .literal _ => rfl
  | .regex _ => rfl
  | .path source =>
    rw [evaluate, value?, ← Record.fst_read record]
    rfl
  | .array items =>
    rw [evaluate, evaluateItems_eq ctx record items]
    rfl
  | .object entries =>
    rw [evaluate, evaluateEntries_eq ctx record entries]
    rfl
  | .binary op lhs rhs =>
    rw [evaluate, evaluate_eq ctx record lhs, references, Record.readAll_append]
    simp only
    rw [evaluate_eq ctx _ rhs]
    rfl

theorem evaluateItems_eq (ctx : Context) (record : Record) (items : List Expr) :
    evaluateItems ctx record items =
      (valuesOfItems? ctx items, record.readAll ctx (referencesOfItems items)) := by
  match items with
  | [] => rfl
  | item :: rest =>
    rw [evaluateItems, evaluate_eq ctx record item, referencesOfItems, Record.readAll_append]
    simp only
    rw [evaluateItems_eq ctx _ rest]
    rfl

theorem evaluateEntries_eq (ctx : Context) (record : Record) (entries : List (String × Expr)) :
    evaluateEntries ctx record entries =
      (valuesOfEntries? ctx entries, record.readAll ctx (referencesOfEntries entries)) := by
  match entries with
  | [] => rfl
  | (_, expr) :: rest =>
    rw [evaluateEntries, evaluate_eq ctx record expr, referencesOfEntries, Record.readAll_append]
    simp only
    rw [evaluateEntries_eq ctx _ rest]
    rfl

end

end Expr

end Abac
