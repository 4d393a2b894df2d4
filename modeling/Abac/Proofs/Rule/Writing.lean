import Abac.Proofs.Rule.Numbers
import Abac.Proofs.Rule.Paths

/-!
How rules are written. An expression is a sum of products of primaries, both kinds of operators
grouping to the left, and a primary is a single token, an array, an object or an expression in
parentheses. Any blanks may stand between two tokens (`Writes`). Where the fewest parentheses are
used, an expression can be written if no more than 127 parentheses, brackets and braces enclose one
of its primaries (`exists_writes`).
-/
namespace Abac.Rule

inductive Atom : Expr → List Char → Prop where
  | null : Atom (.literal .null) ['n', 'u', 'l', 'l']
  | true : Atom (.literal (.bool true)) ['t', 'r', 'u', 'e']
  | false : Atom (.literal (.bool false)) ['f', 'a', 'l', 's', 'e']
  | number {n : NumberText} (h : n.Valid) : Atom (.literal (.number n.value)) n.text
  | string {s : String} {text : List Char} (h : StringText s text) :
      Atom (.literal (.string s)) text
  | pattern {p : Pattern} (h : IsPattern p) : Atom (.regex p) p.text.toList
  | path {path : AttributePath} {text : List Char} (h : PathText path text)
      (hkey : path.key = none) : Atom (.path path) text

inductive KeyText (key : String) : List Char → Prop where
  | bare (h : IsName key) : KeyText key key.toList
  | string {text : List Char} (h : StringText key text) : KeyText key text

inductive Phrase where
  | sum (e : Expr)
  | product (e : Expr)
  | primary (e : Expr)
  | elements (items : List Expr)
  | entries (entries : List (String × Expr))

/-- How a phrase is written at a depth, the number of the parentheses, brackets and braces around
it. Every primary is enclosed by at most 127 of them. -/
inductive Writes : Phrase → Nat → List Char → Prop where
  | product {depth : Nat} {e : Expr} {text : List Char} (h : Writes (.product e) depth text) :
      Writes (.sum e) depth text
  | add {depth : Nat} {l r : Expr} {left before behind right : List Char} {c : Char}
      {op : Arithmetic} (hop : sumOperator? c = some op) (hl : Writes (.sum l) depth left)
      (hbefore : Blank before) (hbehind : Blank behind) (hr : Writes (.product r) depth right) :
      Writes (.sum (.binary op l r)) depth (left ++ (before ++ c :: (behind ++ right)))
  | primary {depth : Nat} {e : Expr} {text : List Char} (h : Writes (.primary e) depth text) :
      Writes (.product e) depth text
  | multiply {depth : Nat} {l r : Expr} {left before behind right : List Char} {c : Char}
      {op : Arithmetic} (hop : productOperator? c = some op) (hl : Writes (.product l) depth left)
      (hbefore : Blank before) (hbehind : Blank behind) (hr : Writes (.primary r) depth right) :
      Writes (.product (.binary op l r)) depth (left ++ (before ++ c :: (behind ++ right)))
  | atom {depth : Nat} {e : Expr} {text : List Char} (hdepth : depth ≤ 127) (h : Atom e text) :
      Writes (.primary e) depth text
  | parentheses {depth : Nat} {e : Expr} {text before behind : List Char} (hdepth : depth ≤ 127)
      (hbefore : Blank before) (h : Writes (.sum e) (depth + 1) text) (hbehind : Blank behind) :
      Writes (.primary e) depth ('(' :: (before ++ (text ++ (behind ++ [')']))))
  | emptyArray {depth : Nat} {blanks : List Char} (hdepth : depth ≤ 127) (hblanks : Blank blanks) :
      Writes (.primary (.array [])) depth ('[' :: (blanks ++ [']']))
  | array {depth : Nat} {items : List Expr} {text before behind : List Char}
      (hdepth : depth ≤ 127) (hbefore : Blank before)
      (h : Writes (.elements items) (depth + 1) text) (hbehind : Blank behind) :
      Writes (.primary (.array items)) depth ('[' :: (before ++ (text ++ (behind ++ [']']))))
  | emptyObject {depth : Nat} {blanks : List Char} (hdepth : depth ≤ 127)
      (hblanks : Blank blanks) : Writes (.primary (.object [])) depth ('{' :: (blanks ++ ['}']))
  | object {depth : Nat} {entries : List (String × Expr)} {text before behind : List Char}
      (hdepth : depth ≤ 127) (hbefore : Blank before)
      (h : Writes (.entries entries) (depth + 1) text) (hbehind : Blank behind) :
      Writes (.primary (.object entries)) depth ('{' :: (before ++ (text ++ (behind ++ ['}']))))
  | lastElement {depth : Nat} {e : Expr} {text : List Char} (h : Writes (.sum e) depth text) :
      Writes (.elements [e]) depth text
  | element {depth : Nat} {e : Expr} {items : List Expr} {text before behind more : List Char}
      (h : Writes (.sum e) depth text) (hbefore : Blank before) (hbehind : Blank behind)
      (hmore : Writes (.elements items) depth more) :
      Writes (.elements (e :: items)) depth (text ++ (before ++ ',' :: (behind ++ more)))
  | lastEntry {depth : Nat} {key : String} {e : Expr} {keyText before behind text : List Char}
      (hkey : KeyText key keyText) (hbefore : Blank before) (hbehind : Blank behind)
      (h : Writes (.sum e) depth text) :
      Writes (.entries [(key, e)]) depth (keyText ++ (before ++ ':' :: (behind ++ text)))
  | entry {depth : Nat} {key : String} {e : Expr} {entries : List (String × Expr)}
      {keyText before behind text before' behind' more : List Char} (hkey : KeyText key keyText)
      (hbefore : Blank before) (hbehind : Blank behind) (h : Writes (.sum e) depth text)
      (hbefore' : Blank before') (hbehind' : Blank behind')
      (hmore : Writes (.entries entries) depth more) :
      Writes (.entries ((key, e) :: entries)) depth
        (keyText ++ (before ++ ':' :: (behind ++ (text ++ (before' ++ ',' :: (behind' ++ more))))))

/-- How a rule is written: its path, its comparator and its expression with any blanks around them.
The path has an attribute or a combinator key, and a key goes with an equality only. -/
inductive WritesRule (path : AttributePath) (c : Comparator) (e : Expr) : List Char → Prop where
  | mk {lead pathText before behind text trail : List Char} (hlead : Blank lead)
      (hpathText : PathText path pathText)
      (hpath : path.segments ≠ [] ∨ path.isCombinator = true)
      (hkey : path.key.isSome = true → c = .eq) (hbefore : Blank before) (hbehind : Blank behind)
      (htext : Writes (.sum e) 0 text) (htrail : Blank trail) :
      WritesRule path c e
        (lead ++ (pathText ++ (before ++ (c.symbol.toList ++ (behind ++ (text ++ trail))))))

/-! ## Well-formed rules can be written -/

def isSum : Arithmetic → Bool
  | .add | .sub => true
  | .mul | .div => false

/-- Where an expression stands: as a sum, as a product in a sum or as a primary in a product. -/
inductive Level where
  | sum | product | primary

namespace Level

def phrase : Level → Expr → Phrase
  | sum => .sum
  | product => .product
  | primary => .primary

def encloses : Level → Arithmetic → Bool
  | sum, _ => false
  | product, op => isSum op
  | primary, _ => true

end Level

mutual

/-- The largest number of parentheses, brackets and braces around a primary of an expression that is
written with as few parentheses as can be. -/
def enclosure (level : Level) : Expr → Nat
  | .literal _ | .path _ | .regex _ => 0
  | .array items => enclosureOfItems items
  | .object entries => enclosureOfEntries entries
  | .binary op lhs rhs =>
    (if level.encloses op then 1 else 0) +
      if isSum op then max (enclosure .sum lhs) (enclosure .product rhs)
      else max (enclosure .product lhs) (enclosure .primary rhs)

def enclosureOfItems : List Expr → Nat
  | [] => 0
  | item :: rest => max (enclosure .sum item + 1) (enclosureOfItems rest)

def enclosureOfEntries : List (String × Expr) → Nat
  | [] => 0
  | (_, expr) :: rest => max (enclosure .sum expr + 1) (enclosureOfEntries rest)

end

def IsLiteral : Value → Prop
  | .null | .bool _ | .string _ => True
  | .number x => ∃ n : NumberText, n.Valid ∧ n.value = x
  | .regex _ | .array _ | .object _ => False

mutual

def WellFormed : Expr → Prop
  | .literal value => IsLiteral value
  | .path path => path.key = none
  | .regex p => IsPattern p
  | .array items => WellFormedItems items
  | .object entries => WellFormedEntries entries
  | .binary _ lhs rhs => WellFormed lhs ∧ WellFormed rhs

def WellFormedItems : List Expr → Prop
  | [] => True
  | item :: rest => WellFormed item ∧ WellFormedItems rest

def WellFormedEntries : List (String × Expr) → Prop
  | [] => True
  | (_, expr) :: rest => WellFormed expr ∧ WellFormedEntries rest

end

/-- A rule is well-formed if its path has an attribute or a combinator key, if a key is a name with
a dollar sign in front that is assigned to, and if its expression is well-formed with no more than
127 parentheses, brackets and braces around any of its primaries. -/
structure WellFormedRule (path : AttributePath) (c : Comparator) (e : Expr) : Prop where
  attribute_or_combinator : path.segments ≠ [] ∨ path.isCombinator = true
  key : ∀ key, path.key = some key → IsName key ∧ isDollarKey key = true ∧ c = .eq
  expr : WellFormed e
  enclosure : enclosure .sum e ≤ 127

theorem exists_keyText (key : String) : ∃ text, KeyText key text := by
  obtain ⟨text, htext⟩ := exists_stringText key
  exact ⟨text, .string htext⟩

theorem Writes.exists_level {e : Expr} {depth : Nat} {text : List Char}
    (h : Writes (.primary e) depth text) (level : Level) : Writes (level.phrase e) depth text := by
  cases level with
  | sum => exact .product (.primary h)
  | product => exact .primary h
  | primary => exact h

theorem exists_atom {value : Value} (h : IsLiteral value) : ∃ text, Atom (.literal value) text := by
  match value with
  | .null => exact ⟨_, .null⟩
  | .bool true => exact ⟨_, .true⟩
  | .bool false => exact ⟨_, .false⟩
  | .number x =>
    obtain ⟨n, hn, rfl⟩ := h
    exact ⟨_, .number hn⟩
  | .string s =>
    obtain ⟨text, htext⟩ := exists_stringText s
    exact ⟨_, .string htext⟩

theorem exists_sumOperator? {op : Arithmetic} (h : isSum op = true) :
    ∃ c, sumOperator? c = some op := by
  cases op with
  | add => exact ⟨'+', rfl⟩
  | sub => exact ⟨'-', rfl⟩
  | mul => cases h
  | div => cases h

theorem exists_productOperator? {op : Arithmetic} (h : isSum op = false) :
    ∃ c, productOperator? c = some op := by
  cases op with
  | add => cases h
  | sub => cases h
  | mul => exact ⟨'*', rfl⟩
  | div => exact ⟨'/', rfl⟩

mutual

/-- A well-formed expression can be written wherever its enclosure leaves room. -/
theorem exists_writes {e : Expr} (h : WellFormed e) (level : Level) (depth : Nat)
    (hdepth : depth + enclosure level e ≤ 127) :
    ∃ text, Writes (level.phrase e) depth text := by
  match e with
  | .literal value =>
    obtain ⟨text, htext⟩ := exists_atom h
    exact ⟨text, (Writes.atom hdepth htext).exists_level level⟩
  | .path path =>
    have hkey : path.key = none := h
    have hnone : ∀ key, path.key = some key → IsName key ∧ isDollarKey key = true := by
      simp [hkey]
    obtain ⟨text, htext⟩ := exists_pathText hnone
    exact ⟨text, (Writes.atom hdepth (.path htext hkey)).exists_level level⟩
  | .regex p => exact ⟨_, (Writes.atom hdepth (.pattern h)).exists_level level⟩
  | .array [] => exact ⟨_, (Writes.emptyArray hdepth blank_nil).exists_level level⟩
  | .array (item :: rest) =>
    rw [enclosure] at hdepth
    have hroom : 1 ≤ enclosureOfItems (item :: rest) := by
      rw [enclosureOfItems]
      omega
    obtain ⟨text, htext⟩ := exists_writes_items h (depth + 1) (by omega)
      (List.cons_ne_nil item rest)
    exact ⟨_, (Writes.array (by omega) blank_nil htext blank_nil).exists_level level⟩
  | .object [] => exact ⟨_, (Writes.emptyObject hdepth blank_nil).exists_level level⟩
  | .object (entry :: rest) =>
    rw [enclosure] at hdepth
    have hroom : 1 ≤ enclosureOfEntries (entry :: rest) := by
      rw [enclosureOfEntries]
      omega
    obtain ⟨text, htext⟩ := exists_writes_entries h (depth + 1) (by omega)
      (List.cons_ne_nil entry rest)
    exact ⟨_, (Writes.object (by omega) blank_nil htext blank_nil).exists_level level⟩
  | .binary op lhs rhs =>
    rw [enclosure] at hdepth
    obtain ⟨hl, hr⟩ := h
    -- First the operator and its operands alone, then with parentheses where the level wants them.
    have hsum : isSum op = true → ∀ d, d + max (enclosure .sum lhs) (enclosure .product rhs) ≤ 127 →
        ∃ text, Writes (.sum (.binary op lhs rhs)) d text := by
      intro hop d hd
      obtain ⟨c, hc⟩ := exists_sumOperator? hop
      obtain ⟨left, hleft⟩ := exists_writes hl .sum d (by omega)
      obtain ⟨right, hright⟩ := exists_writes hr .product d (by omega)
      exact ⟨_, .add hc hleft blank_nil blank_nil hright⟩
    have hproduct : isSum op = false →
        ∀ d, d + max (enclosure .product lhs) (enclosure .primary rhs) ≤ 127 →
          ∃ text, Writes (.product (.binary op lhs rhs)) d text := by
      intro hop d hd
      obtain ⟨c, hc⟩ := exists_productOperator? hop
      obtain ⟨left, hleft⟩ := exists_writes hl .product d (by omega)
      obtain ⟨right, hright⟩ := exists_writes hr .primary d (by omega)
      exact ⟨_, .multiply hc hleft blank_nil blank_nil hright⟩
    have hinside : ∀ d, d + (if isSum op then max (enclosure .sum lhs) (enclosure .product rhs)
        else max (enclosure .product lhs) (enclosure .primary rhs)) ≤ 127 →
          ∃ text, Writes (.sum (.binary op lhs rhs)) d text := by
      intro d hd
      cases hop : isSum op with
      | true =>
        rw [hop, if_pos rfl] at hd
        exact hsum hop d hd
      | false =>
        rw [hop, if_neg Bool.false_ne_true] at hd
        obtain ⟨text, htext⟩ := hproduct hop d hd
        exact ⟨text, .product htext⟩
    cases hencloses : level.encloses op with
    | true =>
      rw [hencloses, if_pos rfl] at hdepth
      obtain ⟨text, htext⟩ := hinside (depth + 1) (by omega)
      exact ⟨_, (Writes.parentheses (by omega) blank_nil htext blank_nil).exists_level level⟩
    | false =>
      rw [hencloses, if_neg Bool.false_ne_true, Nat.zero_add] at hdepth
      cases level with
      | sum => exact hinside depth hdepth
      | product =>
        have hop : isSum op = false := hencloses
        rw [hop, if_neg Bool.false_ne_true] at hdepth
        exact hproduct hop depth hdepth
      | primary => cases hencloses

theorem exists_writes_items {items : List Expr} (h : WellFormedItems items) (depth : Nat)
    (hdepth : depth + enclosureOfItems items ≤ 128) (hne : items ≠ []) :
    ∃ text, Writes (.elements items) depth text := by
  match items with
  | [] => exact absurd rfl hne
  | item :: rest =>
    rw [enclosureOfItems] at hdepth
    obtain ⟨text, htext⟩ := exists_writes h.1 .sum depth (by omega)
    match rest with
    | [] => exact ⟨text, .lastElement htext⟩
    | next :: rest =>
      obtain ⟨more, hmore⟩ := exists_writes_items h.2 depth (by omega)
        (List.cons_ne_nil next rest)
      exact ⟨_, .element htext blank_nil blank_nil hmore⟩

theorem exists_writes_entries {entries : List (String × Expr)} (h : WellFormedEntries entries)
    (depth : Nat) (hdepth : depth + enclosureOfEntries entries ≤ 128) (hne : entries ≠ []) :
    ∃ text, Writes (.entries entries) depth text := by
  match entries with
  | [] => exact absurd rfl hne
  | (key, expr) :: rest =>
    rw [enclosureOfEntries] at hdepth
    obtain ⟨keyText, hkey⟩ := exists_keyText key
    obtain ⟨text, htext⟩ := exists_writes h.1 .sum depth (by omega)
    match rest with
    | [] => exact ⟨_, .lastEntry hkey blank_nil blank_nil htext⟩
    | next :: rest =>
      obtain ⟨more, hmore⟩ := exists_writes_entries h.2 depth (by omega)
        (List.cons_ne_nil next rest)
      exact ⟨_, .entry hkey blank_nil blank_nil htext blank_nil blank_nil hmore⟩

end

/-- Every well-formed rule can be written. -/
theorem WellFormedRule.exists_writesRule {path : AttributePath} {c : Comparator} {e : Expr}
    (h : WellFormedRule path c e) : ∃ text, WritesRule path c e text := by
  obtain ⟨pathText, hpathText⟩ := exists_pathText fun key hkey =>
    ⟨(h.key key hkey).1, (h.key key hkey).2.1⟩
  obtain ⟨text, htext⟩ := exists_writes h.expr .sum 0 (by
    rw [Nat.zero_add]
    exact h.enclosure)
  have hkey : path.key.isSome = true → c = .eq := by
    intro hsome
    obtain ⟨key, hkey⟩ := Option.isSome_iff_exists.mp hsome
    exact (h.key key hkey).2.2
  exact ⟨_, .mk blank_nil hpathText h.attribute_or_combinator hkey blank_nil blank_nil htext
    blank_nil⟩

end Abac.Rule
