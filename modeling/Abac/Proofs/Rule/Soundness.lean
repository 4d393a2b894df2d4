import Abac.Proofs.Denotation
import Abac.Proofs.Rule.Acceptance
import Mathlib.Data.List.Basic

/-!
Rules that were read are well-formed. The readers of expressions yield parts that stand as they are
in the text of the rule: an invariant of all of them, which the chains and the readers of what is
enclosed hand on from what they are made of (`StandsIn`). With what is known of the path on the left
side, that is what every rule has that was read, whatever its text (`wellFormed_of_parse`).
-/
namespace Abac.Rule

/-- What stands in a text by itself. A literal has a simple value and a path has no operator key. A
pattern has a source, its flags are letters, and the text has it to the letter. -/
def StandsIn (text : List Char) : Expr → Prop
  | .literal value => IsSimple value
  | .path path => path.key = none
  | .regex pattern =>
    pattern.source ≠ "" ∧ (∀ c ∈ pattern.flags.toList, isAsciiLetter c = true) ∧
      pattern.text.toList <:+: text
  | .array _ | .object _ | .binary _ _ _ => True

def AllStandIn (text : List Char) (e : Expr) : Prop := ∀ part, e.Part part → StandsIn text part

section AllStandIn

variable {text : List Char}

theorem allStandIn_literal {value : Value} (h : IsSimple value) :
    AllStandIn text (.literal value) := by
  rintro part ⟨⟩
  exact h

theorem allStandIn_path {path : AttributePath} (h : path.key = none) :
    AllStandIn text (.path path) := by
  rintro part ⟨⟩
  exact h

/-- A pattern that is read from an end of a text stands in the text. -/
theorem allStandIn_regex {behind rest : List Char} {p : Pattern} (hend : '/' :: behind <:+ text)
    (h : Parsed.Yields (pattern ('/' :: behind)) p rest) : AllStandIn text (.regex p) := by
  rintro part ⟨⟩
  obtain ⟨hbehind, hsource, hflags⟩ := text_of_pattern h
  have hprefix : p.text.toList <+: '/' :: behind := ⟨rest, hbehind.symm⟩
  exact ⟨hsource, hflags, hprefix.isInfix.trans hend.isInfix⟩

theorem allStandIn_array {items : List Expr} (h : ∀ e ∈ items, AllStandIn text e) :
    AllStandIn text (.array items) := by
  intro part hpart
  cases hpart with
  | self => trivial
  | item hmem hpart => exact h _ hmem part hpart

theorem allStandIn_object {entries : List (String × Expr)}
    (h : ∀ entry ∈ entries, AllStandIn text entry.2) : AllStandIn text (.object entries) := by
  intro part hpart
  cases hpart with
  | self => trivial
  | entry hmem hpart => exact h _ hmem part hpart

theorem allStandIn_binary (op : Arithmetic) (lhs rhs : Expr) (hlhs : AllStandIn text lhs)
    (hrhs : AllStandIn text rhs) : AllStandIn text (.binary op lhs rhs) := by
  intro part hpart
  cases hpart with
  | self => trivial
  | left hpart => exact hlhs part hpart
  | right hpart => exact hrhs part hpart

end AllStandIn

/-- Sums of products of what stands in a text stand in it. -/
theorem EnsuresOn.arithmetic {text : List Char} {operand : Reader Expr}
    (h : EnsuresOn (· <:+ text) operand (AllStandIn text)) :
    EnsuresOn (· <:+ text) (Rule.arithmetic operand) (AllStandIn text) := by
  have hproduct : EnsuresOn (· <:+ text) (Rule.chain productOperator? operand) (AllStandIn text) :=
    h.chain (endClosed_suffix text) (fun _ he => he) allStandIn_binary
  exact hproduct.chain (endClosed_suffix text) (fun _ he => he) allStandIn_binary

theorem ensuresOn_primary (text : List Char) (levels : Nat) :
    EnsuresOn (· <:+ text) (primary levels) (AllStandIn text) := by
  induction levels with
  | zero => exact fun _ _ _ _ h => absurd h not_yields_primary_zero
  | succ levels ih =>
    have hends := endClosed_suffix text
    exact EnsuresOn.primary_succ hends (ih.arithmetic.primaryHere hends
      (fun _ => allStandIn_literal) (fun _ => allStandIn_path) (fun _ _ _ => allStandIn_regex)
      (fun _ he => he) (fun _ => allStandIn_array) fun _ => allStandIn_object)

/-- All parts of the right side of a rule stand in its text. -/
theorem allStandIn_of_statement {text : List Char} {s : Statement} (h : statement text = .ok s) :
    AllStandIn text s.expr := by
  obtain ⟨afterPath, afterComparator, trail, hpath, hcomparator, -, hexpr, -⟩ :=
    exists_of_statement h
  have hafterPath : afterPath <:+ text :=
    (suffix_of_assignedPath hpath).trans (skipBlank_suffix text)
  have hafterComparator : afterComparator <:+ text :=
    ((suffix_of_comparator hcomparator).trans (skipBlank_suffix afterPath)).trans hafterPath
  exact ((ensuresOn_primary text nestingLimit).arithmetic _ _ _
    ((skipBlank_suffix afterComparator).trans hafterComparator) hexpr).2

theorem exists_cons_of_isDollarKey {key : String} (hname : IsName key)
    (hdollar : isDollarKey key = true) :
    ∃ name, key.toList = '$' :: name ∧ ∀ c ∈ name, isNameChar c = true := by
  obtain ⟨c, name, hkey⟩ := List.exists_cons_of_ne_nil hname.1
  have hhead : (c :: name).head? = some '$' := hkey ▸ of_decide_eq_true hdollar
  obtain rfl : c = '$' := Option.some.inj hhead
  refine ⟨name, hkey, fun d hd => ?_⟩
  exact hname.2 d (hkey ▸ List.mem_cons_of_mem _ hd)

/-- Every rule that is read has the text that it was read from. An operator key is a dollar sign
with a name behind it, and it is assigned to. A path without an attribute has a combinator key.
Whatever the right side is made of stands in the text: literals are simple values, paths have no
operator key, and patterns are written there as they are. -/
theorem wellFormed_of_parse {source : String} {clause : Clause} (h : parse source = .ok clause) :
    clause.source = source ∧
    (∀ key, clause.path.key = some key →
      (∃ name, key.toList = '$' :: name ∧ ∀ c ∈ name, isNameChar c = true) ∧
        clause.comparator = .eq) ∧
    (clause.path.segments = [] →
      ∃ key ∈ ["$or", "$and", "$nor"], clause.path.key = some key) ∧
    ∀ part, clause.expr.Part part → StandsIn source.toList part := by
  obtain ⟨s, hs, rfl⟩ := exists_of_parse h
  obtain ⟨afterPath, -, -, hpath, -, hassigned, -⟩ := exists_of_statement hs
  refine ⟨rfl, ?_, ?_, allStandIn_of_statement hs⟩
  · intro key hkey
    obtain ⟨hname, hdollar⟩ := key_of_assignedPath hpath hkey
    exact ⟨exists_cons_of_isDollarKey hname hdollar, hassigned (by rw [hkey]; rfl)⟩
  · intro hsegments
    obtain ⟨key, hkey, hcombinator⟩ :=
      (Option.any_eq_true _ _).mp ((attribute_or_combinator hpath).resolve_left (absurd hsegments))
    exact ⟨key, List.contains_iff_mem.mp hcombinator, hkey⟩

def patternInside : Clause :=
  ⟨"resource.$or=[\x7ba:/x[/]\\/y/gi\x7d,user.b]", ⟨.resource, [], some "$or"⟩, .eq,
    .array [.object [("a", .regex ⟨"x[/]\\/y", "gi"⟩)], .path ⟨.user, ["b"], none⟩]⟩

theorem wellFormed_of_parse_patternInside :
    parse "resource.$or=[\x7ba:/x[/]\\/y/gi\x7d,user.b]" = .ok patternInside ∧
      patternInside.comparator = .eq ∧
      "/x[/]\\/y/gi".toList <:+: patternInside.source.toList := by
  have hparse : parse "resource.$or=[\x7ba:/x[/]\\/y/gi\x7d,user.b]" = .ok patternInside := by
    cbv
  obtain ⟨-, hkey, -, hparts⟩ := wellFormed_of_parse hparse
  have hpattern : patternInside.expr.Part (.regex ⟨"x[/]\\/y", "gi"⟩) :=
    .item List.mem_cons_self (.entry List.mem_cons_self (.self _))
  exact ⟨hparse, (hkey "$or" rfl).2, (hparts _ hpattern).2.2⟩

end Abac.Rule
