import Abac.Proofs.GroupExpr.Grammar
import Abac.Proofs.Rule.Acceptance
import Abac.Proofs.Rule.Completeness
import Mathlib.Data.List.Basic

/-!
The height of accepted trees. The readers of rules and of group expressions limit how deep things
stand inside each other, and they join the operands of equal rank in a loop, with no limit on their
number. So no bound holds for the height of all accepted trees (`not_exists_height_le`). What is
bounded is the nesting, where a chain of operators that groups to the left counts once, and the
height grows with the longest chain only (`height_lt_of_accepted`). Expressions of both kinds are
measured through one shape.
-/
namespace Abac

/-- The shape of an expression: what has no parts, what encloses something, parts that stand beside
each other, and the two operands of an operator. -/
inductive Shape where
  | atom
  | enclosing (inner : Shape)
  | beside (first rest : Shape)
  | operator (lhs rhs : Shape)

namespace Shape

def height : Shape → Nat
  | atom => 0
  | enclosing inner => inner.height + 1
  | beside first rest => max first.height rest.height
  | operator lhs rhs => max lhs.height rhs.height + 1

/-- The height if all steps to a left operand are left out. -/
def nesting : Shape → Nat
  | atom => 0
  | enclosing inner => inner.nesting + 1
  | beside first rest => max first.nesting rest.nesting
  | operator lhs rhs => max lhs.nesting (rhs.nesting + 1)

/-- The number of operators from the outermost one on, always to the left operand. -/
def chain : Shape → Nat
  | atom => 0
  | enclosing _ => 0
  | beside first rest => max first.chain rest.chain
  | operator lhs _ => lhs.chain + 1

def longestChain : Shape → Nat
  | atom => 0
  | enclosing inner => inner.longestChain
  | beside first rest => max first.longestChain rest.longestChain
  | operator lhs rhs => max (lhs.chain + 1) (max lhs.longestChain rhs.longestChain)

theorem chain_le_longestChain (s : Shape) : s.chain ≤ s.longestChain := by
  induction s with
  | atom => exact Nat.le_refl 0
  | enclosing inner _ => exact Nat.zero_le _
  | beside first rest ihfirst ihrest =>
    rw [chain, longestChain]
    omega
  | operator lhs rhs _ _ => exact Nat.le_max_left _ _

/-- A step of nesting adds a chain at most to the height. -/
theorem height_le_chain_add {limit : Nat} (s : Shape) (h : s.longestChain ≤ limit) :
    s.height ≤ s.chain + s.nesting * (limit + 1) := by
  induction s with
  | atom => exact Nat.zero_le _
  | enclosing inner ih =>
    have hinner := ih h
    have hchain := Nat.le_trans inner.chain_le_longestChain h
    rw [height, chain, nesting, Nat.succ_mul]
    omega
  | beside first rest ihfirst ihrest =>
    rw [longestChain] at h
    have hfirst := ihfirst (by omega)
    have hrest := ihrest (by omega)
    have hleft := Nat.mul_le_mul_right (limit + 1) (Nat.le_max_left first.nesting rest.nesting)
    have hright := Nat.mul_le_mul_right (limit + 1) (Nat.le_max_right first.nesting rest.nesting)
    rw [height, chain, nesting]
    omega
  | operator lhs rhs ihl ihr =>
    rw [longestChain] at h
    have hl := ihl (by omega)
    have hr := ihr (by omega)
    have hchain := rhs.chain_le_longestChain
    have hleft := Nat.mul_le_mul_right (limit + 1) (Nat.le_max_left lhs.nesting (rhs.nesting + 1))
    have hright := Nat.mul_le_mul_right (limit + 1) (Nat.le_max_right lhs.nesting (rhs.nesting + 1))
    rw [Nat.succ_mul] at hright
    rw [height, chain, nesting]
    omega

/-- Nesting and the longest chain bound the height. -/
theorem height_lt {s : Shape} {bound : Nat} (h : s.nesting ≤ bound) :
    s.height < (bound + 1) * (s.longestChain + 1) := by
  have hheight := s.height_le_chain_add (Nat.le_refl s.longestChain)
  have hchain := s.chain_le_longestChain
  have hnesting := Nat.mul_le_mul_right (s.longestChain + 1) h
  rw [Nat.succ_mul]
  omega

end Shape

namespace Expr

mutual

def height : Expr → Nat
  | .literal _ | .path _ | .regex _ => 0
  | .array items => heightOfItems items + 1
  | .object entries => heightOfEntries entries + 1
  | .binary _ lhs rhs => max (height lhs) (height rhs) + 1

def heightOfItems : List Expr → Nat
  | [] => 0
  | item :: rest => max (height item) (heightOfItems rest)

def heightOfEntries : List (String × Expr) → Nat
  | [] => 0
  | (_, expr) :: rest => max (height expr) (heightOfEntries rest)

end

mutual

def shape : Expr → Shape
  | .literal _ | .path _ | .regex _ => .atom
  | .array items => .enclosing (shapeOfItems items)
  | .object entries => .enclosing (shapeOfEntries entries)
  | .binary _ lhs rhs => .operator (shape lhs) (shape rhs)

def shapeOfItems : List Expr → Shape
  | [] => .atom
  | item :: rest => .beside (shape item) (shapeOfItems rest)

def shapeOfEntries : List (String × Expr) → Shape
  | [] => .atom
  | (_, expr) :: rest => .beside (shape expr) (shapeOfEntries rest)

end

mutual

theorem height_shape (e : Expr) : e.shape.height = e.height := by
  match e with
  | .literal _ | .path _ | .regex _ => rfl
  | .array items => rw [shape, Shape.height, height, height_shapeOfItems items]
  | .object entries => rw [shape, Shape.height, height, height_shapeOfEntries entries]
  | .binary _ lhs rhs => rw [shape, Shape.height, height, height_shape lhs, height_shape rhs]

theorem height_shapeOfItems (items : List Expr) :
    (shapeOfItems items).height = heightOfItems items := by
  match items with
  | [] => rfl
  | item :: rest =>
    rw [shapeOfItems, Shape.height, heightOfItems, height_shape item, height_shapeOfItems rest]

theorem height_shapeOfEntries (entries : List (String × Expr)) :
    (shapeOfEntries entries).height = heightOfEntries entries := by
  match entries with
  | [] => rfl
  | (_, expr) :: rest =>
    rw [shapeOfEntries, Shape.height, heightOfEntries, height_shape expr,
      height_shapeOfEntries rest]

end

theorem nesting_shapeOfItems_le {bound : Nat} {items : List Expr}
    (h : ∀ e ∈ items, e.shape.nesting ≤ bound) : (shapeOfItems items).nesting ≤ bound := by
  induction items with
  | nil => exact Nat.zero_le bound
  | cons item rest ih =>
    obtain ⟨hitem, hrest⟩ := List.forall_mem_cons.mp h
    exact Nat.max_le.mpr ⟨hitem, ih hrest⟩

theorem nesting_shapeOfEntries_le {bound : Nat} {entries : List (String × Expr)}
    (h : ∀ entry ∈ entries, entry.2.shape.nesting ≤ bound) :
    (shapeOfEntries entries).nesting ≤ bound := by
  induction entries with
  | nil => exact Nat.zero_le bound
  | cons entry rest ih =>
    obtain ⟨hentry, hrest⟩ := List.forall_mem_cons.mp h
    exact Nat.max_le.mpr ⟨hentry, ih hrest⟩

end Expr

namespace GroupExpr

def shape : GroupExpr → Shape
  | policy _ => .atom
  | not inner => .enclosing inner.shape
  | and lhs rhs => .operator lhs.shape rhs.shape
  | or lhs rhs => .operator lhs.shape rhs.shape

theorem height_shape (e : GroupExpr) : e.shape.height = e.height := by
  induction e with
  | policy name => rfl
  | not inner ih => rw [shape, Shape.height, height, ih]
  | and lhs rhs ihl ihr => rw [shape, Shape.height, height, ihl, ihr]
  | or lhs rhs ihl ihr => rw [shape, Shape.height, height, ihl, ihr]

end GroupExpr

/-! ## Nesting is bounded -/

namespace Rule

/-- Sums of products nest twice more than the primaries in them. -/
theorem Ensures.arithmetic {operand : Reader Expr} {bound : Nat}
    (h : Ensures operand fun e => e.shape.nesting + 2 ≤ bound) :
    Ensures (Rule.arithmetic operand) fun e => e.shape.nesting ≤ bound := by
  have hproduct : Ensures (Rule.chain productOperator? operand) fun e =>
      e.shape.nesting + 1 ≤ bound := by
    refine h.chain ?_ ?_
    · intro e he
      omega
    · intro op l r hl hr
      rw [Expr.shape, Shape.nesting]
      omega
  refine hproduct.chain ?_ ?_
  · intro e he
    omega
  · intro op l r hl hr
    rw [Expr.shape, Shape.nesting]
    omega

/-- A level of parentheses, brackets and braces adds three steps: itself, a product and a sum. -/
theorem ensures_primary (levels : Nat) :
    Ensures (primary levels) fun e => e.shape.nesting + 2 ≤ 3 * levels := by
  induction levels with
  | zero => exact fun _ _ _ h => absurd h not_yields_primary_zero
  | succ levels ih =>
    have hatom : Shape.atom.nesting + 2 ≤ 3 * (levels + 1) := by
      rw [Shape.nesting]
      omega
    refine Ensures.primary_succ (ih.arithmetic.primaryHere (fun _ => hatom) (fun _ => hatom)
      (fun _ => hatom) ?_ ?_ ?_)
    · intro e he
      omega
    · intro items hitems
      have hnesting := Expr.nesting_shapeOfItems_le hitems
      rw [Expr.shape, Shape.nesting]
      omega
    · intro entries hentries
      have hnesting := Expr.nesting_shapeOfEntries_le hentries
      rw [Expr.shape, Shape.nesting]
      omega

theorem nesting_le_of_parse {source : String} {clause : Clause} (h : parse source = .ok clause) :
    clause.expr.shape.nesting ≤ 3 * nestingLimit := by
  obtain ⟨s, hs, rfl⟩ := exists_of_parse h
  obtain ⟨-, afterComparator, trail, -, -, -, hexpr, -⟩ := exists_of_statement hs
  exact (ensures_primary nestingLimit).arithmetic _ _ _ hexpr

end Rule

namespace GroupExpr

def Phrase.nestingBound : Phrase → Nat
  | operand => 254
  | conjunction => 255
  | disjunction => 256

/-- A level of negations and parentheses adds two steps: the parentheses of an operand enclose a
disjunction of conjunctions. -/
theorem nesting_le_of_derives {phrase : Phrase} {depth : Nat} {kinds : List TokenKind}
    {e : GroupExpr} (h : Derives phrase depth kinds e) :
    e.shape.nesting + 2 * depth ≤ phrase.nestingBound := by
  induction h with
  | name hdepth =>
    rw [shape, Shape.nesting, Phrase.nestingBound]
    omega
  | alone _ ih | single _ ih | not _ _ ih | parentheses _ _ ih =>
    simp only [shape, Shape.nesting, Phrase.nestingBound] at ih ⊢
    omega
  | or _ _ ihl ihr | and _ _ ihl ihr =>
    simp only [shape, Shape.nesting, Phrase.nestingBound] at ihl ihr ⊢
    omega

theorem nesting_le_of_parse {source : String} {e : GroupExpr} (h : parse source = .ok e) :
    e.shape.nesting ≤ 2 * nestingLimit := by
  obtain ⟨input, -, hinput⟩ := parse_eq_ok_iff.mp h
  exact nesting_le_of_derives (ofTokens_eq_ok_iff.mp hinput)

end GroupExpr

/-- What is accepted as a rule or as a group expression nests within a fixed bound, whatever the
length of its text. Its height stays below the bound times the number of operands in its longest
chain. -/
theorem height_lt_of_accepted :
    (∀ (source : String) (clause : Clause), Rule.parse source = .ok clause →
      clause.expr.shape.nesting ≤ 3 * Rule.nestingLimit ∧
        clause.expr.height <
          (3 * Rule.nestingLimit + 1) * (clause.expr.shape.longestChain + 1)) ∧
    ∀ (source : String) (e : GroupExpr), GroupExpr.parse source = .ok e →
      e.shape.nesting ≤ 2 * GroupExpr.nestingLimit ∧
        e.height < (2 * GroupExpr.nestingLimit + 1) * (e.shape.longestChain + 1) := by
  constructor
  · intro source clause h
    have hnesting := Rule.nesting_le_of_parse h
    exact ⟨hnesting, clause.expr.height_shape ▸ Shape.height_lt hnesting⟩
  · intro source e h
    have hnesting := GroupExpr.nesting_le_of_parse h
    exact ⟨hnesting, e.height_shape ▸ Shape.height_lt hnesting⟩

def scaledPair : Clause :=
  ⟨"resource.n=user.a*[user.b-user.c]", ⟨.resource, ["n"], none⟩, .eq,
    .binary .mul (.path ⟨.user, ["a"], none⟩)
      (.array [.binary .sub (.path ⟨.user, ["b"], none⟩) (.path ⟨.user, ["c"], none⟩)])⟩

theorem height_lt_of_accepted_scaledPair :
    Rule.parse "resource.n=user.a*[user.b-user.c]" = .ok scaledPair ∧
    GroupExpr.parse "a AND NOT (b OR c)" =
      .ok (.and (.policy "a") (.not (.or (.policy "b") (.policy "c")))) ∧
    scaledPair.expr.height < (3 * Rule.nestingLimit + 1) * 2 ∧
    (GroupExpr.and (.policy "a") (.not (.or (.policy "b") (.policy "c")))).height <
      (2 * GroupExpr.nestingLimit + 1) * 2 := by
  have hrule : Rule.parse "resource.n=user.a*[user.b-user.c]" = .ok scaledPair := by cbv
  have hgroup : GroupExpr.parse "a AND NOT (b OR c)" =
      .ok (.and (.policy "a") (.not (.or (.policy "b") (.policy "c")))) := by cbv
  exact ⟨hrule, hgroup, (height_lt_of_accepted.1 _ _ hrule).2,
    (height_lt_of_accepted.2 _ _ hgroup).2⟩

/-! ## Height is not -/

namespace Rule

def sumOfSame : (count : Nat) → Expr
  | 0 => .path ⟨.user, ["a"], none⟩
  | count + 1 => .binary .add (sumOfSame count) (.path ⟨.user, ["a"], none⟩)

theorem height_sumOfSame (count : Nat) : (sumOfSame count).height = count := by
  induction count with
  | zero => rfl
  | succ count ih =>
    rw [sumOfSame, Expr.height, ih, Expr.height]
    omega

/-- A sum is written without parentheses. -/
theorem wellFormedRule_sumOfSame (count : Nat) :
    WellFormedRule ⟨.resource, ["total"], none⟩ .eq (sumOfSame count) := by
  have hexpr : WellFormed (sumOfSame count) ∧ enclosure .sum (sumOfSame count) = 0 := by
    induction count with
    | zero => exact ⟨rfl, rfl⟩
    | succ count ih =>
      refine ⟨⟨ih.1, rfl⟩, ?_⟩
      rw [sumOfSame, enclosure, isSum, if_pos rfl, ih.2]
      rfl
  exact ⟨.inl (List.cons_ne_nil _ _), nofun, hexpr.1, hexpr.2 ▸ Nat.zero_le 127⟩

theorem exists_parse_height (count : Nat) :
    ∃ source clause, parse source = .ok clause ∧ clause.expr.height = count := by
  obtain ⟨text, htext⟩ := (wellFormedRule_sumOfSame count).exists_writesRule
  have hparse : parse (String.ofList text) =
      .ok ⟨String.ofList text, ⟨.resource, ["total"], none⟩, .eq, sumOfSame count⟩ := by
    rw [parse, String.toList_ofList, statement_of_writesRule htext]
  exact ⟨_, _, hparse, height_sumOfSame count⟩

end Rule

namespace GroupExpr

def furtherText : (count : Nat) → List Char
  | 0 => []
  | count + 1 => ' ' :: (['A', 'N', 'D'] ++ ' ' :: (['a'] ++ furtherText count))

def furtherKinds : (count : Nat) → List TokenKind
  | 0 => []
  | count + 1 => .and :: .name "a" :: furtherKinds count

def further (first : GroupExpr) : (count : Nat) → GroupExpr
  | 0 => first
  | count + 1 => further (.and first (.policy "a")) count

theorem height_further (first : GroupExpr) (count : Nat) :
    (further first count).height = first.height + count := by
  induction count generalizing first with
  | zero => rfl
  | succ count ih =>
    rw [further, ih, height, height]
    omega

theorem halts_furtherText (count : Nat) : Halts isNameChar (furtherText count) := by
  cases count with
  | zero => exact halts_nil _
  | succ count => exact halts_cons (by decide)

theorem lexed_further {count : Nat} : Lexed (furtherText count) (furtherKinds count) := by
  induction count with
  | zero => exact .done
  | succ count ih =>
    have hname : Lexed (['a'] ++ furtherText count) (.name "a" :: furtherKinds count) :=
      .word (by decide) (List.all_eq_true.mp (by decide)) (halts_furtherText count) ih
    have hconnective : Lexed (['A', 'N', 'D'] ++ ' ' :: (['a'] ++ furtherText count))
        (.and :: .name "a" :: furtherKinds count) :=
      .word (by decide) (List.all_eq_true.mp (by decide)) (halts_cons (by decide))
        (.blank (by decide) hname)
    exact .blank (by decide) hconnective

theorem derives_further {kinds : List TokenKind} {first : GroupExpr}
    (h : Derives .conjunction 0 kinds first) (count : Nat) :
    Derives .conjunction 0 (kinds ++ furtherKinds count) (further first count) := by
  induction count generalizing kinds first with
  | zero => rwa [furtherKinds, List.append_nil]
  | succ count ih =>
    have hnext : Derives .conjunction 0 (kinds ++ [.and, .name "a"]) (.and first (.policy "a")) :=
      .and h (.name (Nat.zero_le 127))
    have hrest := ih hnext
    rwa [List.append_assoc] at hrest

theorem exists_parse_height (count : Nat) :
    ∃ source e, parse source = .ok e ∧ e.height = count := by
  have hlexed : Lexed (['a'] ++ furtherText count) (.name "a" :: furtherKinds count) :=
    .word (by decide) (List.all_eq_true.mp (by decide)) (halts_furtherText count) lexed_further
  have hname : Derives .conjunction 0 [.name "a"] (.policy "a") := .single (.name (Nat.zero_le 127))
  obtain ⟨input, hinput, hkinds⟩ := tokens_of_lexed hlexed
  refine ⟨String.ofList (['a'] ++ furtherText count), further (.policy "a") count, ?_, ?_⟩
  · rw [parse_eq_ok_iff, String.toList_ofList]
    refine ⟨input, hinput, ofTokens_eq_ok_iff.mpr ?_⟩
    rw [hkinds]
    exact .alone (derives_further hname count)
  · rw [height_further, height, Nat.zero_add]

end GroupExpr

/-- No bound holds for the height of all accepted expressions, neither in rules nor in groups. -/
theorem not_exists_height_le :
    (¬∃ bound, ∀ (source : String) (clause : Clause), Rule.parse source = .ok clause →
      clause.expr.height ≤ bound) ∧
    ¬∃ bound, ∀ (source : String) (e : GroupExpr), GroupExpr.parse source = .ok e →
      e.height ≤ bound := by
  constructor
  · rintro ⟨bound, hbound⟩
    obtain ⟨source, clause, hparse, hheight⟩ := Rule.exists_parse_height (bound + 1)
    have hle := hbound source clause hparse
    omega
  · rintro ⟨bound, hbound⟩
    obtain ⟨source, e, hparse, hheight⟩ := GroupExpr.exists_parse_height (bound + 1)
    have hle := hbound source e hparse
    omega

end Abac
