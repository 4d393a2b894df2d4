import Abac.Proofs.Rule.Ends

/-!
What is known of a rule that was read. A text that is read as a rule falls into a path, a comparator
and an expression, and the path has an attribute or a combinator key (`Rule.exists_of_parse`). A
property of expressions holds of all that are read if the readers of primaries, products and sums
hand it on, each in its turn (`Rule.EnsuresOn`). It may speak of the text, by way of a kind of texts
that every reader leaves if it finds one: the kind of all ends of one text is such a kind.
-/
namespace Abac.Rule

def Ensures {α : Type} (reader : Reader α) (P : α → Prop) : Prop :=
  ∀ (text : List Char) (value : α) (rest : List Char),
    Parsed.Yields (reader text) value rest → P value

def EndClosed (T : List Char → Prop) : Prop := ∀ text rest, rest <:+ text → T text → T rest

/-- What a reader yields from a text of some kind has a property, and what it leaves is of that kind
as well. -/
def EnsuresOn {α : Type} (T : List Char → Prop) (reader : Reader α) (P : α → Prop) : Prop :=
  ∀ (text : List Char) (value : α) (rest : List Char), T text →
    Parsed.Yields (reader text) value rest → T rest ∧ P value

theorem ensures_iff {α : Type} {reader : Reader α} {P : α → Prop} :
    Ensures reader P ↔ EnsuresOn (fun _ => True) reader P := by
  constructor
  · intro h text value rest _ hread
    exact ⟨trivial, h text value rest hread⟩
  · intro h text value rest hread
    exact (h text value rest trivial hread).2

theorem endClosed_true : EndClosed fun _ => True := fun _ _ _ _ => trivial

theorem endClosed_suffix (source : List Char) : EndClosed (· <:+ source) :=
  fun _ _ hrest htext => hrest.trans htext

section Readers

variable {T : List Char → Prop} {operator? : Char → Option Arithmetic} {operand item : Reader Expr}
  {P Q : Expr → Prop}

theorem EndClosed.skipBlank (hT : EndClosed T) {text : List Char} (h : T text) :
    T (skipBlank text) :=
  hT _ _ (skipBlank_suffix text) h

/-- Behind a mark, blanks aside, an end of the text stands. -/
theorem EndClosed.behind (hT : EndClosed T) {c : Char} {text rest : List Char} (h : T text)
    (hskip : Abac.skipBlank text = c :: rest) : T rest :=
  hT _ _ (suffix_of_skipBlank hskip) h

/-- Joining one more operand keeps a property of chains. -/
theorem EnsuresOn.chainTail (hT : EndClosed T) (hoperand : EnsuresOn T operand Q)
    (hjoin : ∀ op l r, P l → Q r → P (.binary op l r)) {lhs e : Expr} {text rest : List Char}
    (htext : T text) (hlhs : P lhs)
    (h : Continued.Yields (Rule.chainTail operator? operand lhs text) e rest) : T rest ∧ P e := by
  fun_induction Rule.chainTail operator? operand lhs text with
  | case1 lhs text hskip =>
    obtain ⟨rfl, rfl⟩ := Continued.yields_ok.mp h
    exact ⟨htext, hlhs⟩
  | case2 lhs text c more hskip hop =>
    obtain ⟨rfl, rfl⟩ := Continued.yields_ok.mp h
    exact ⟨htext, hlhs⟩
  | case3 lhs text c more hskip op hop failure hread => exact absurd h Continued.not_yields_error
  | case4 lhs text c more hskip op hop rhs middle shorter hread ih =>
    have hmore := hT.skipBlank (hT.behind htext hskip)
    obtain ⟨hmiddle, hrhs⟩ := hoperand _ _ _ hmore ⟨shorter, hread⟩
    exact ih hmiddle (hjoin op lhs rhs hlhs hrhs) (h.of_map (fun _ => rfl) fun _ => rfl)

theorem EnsuresOn.chain (hT : EndClosed T) (hoperand : EnsuresOn T operand Q)
    (hsingle : ∀ e, Q e → P e) (hjoin : ∀ op l r, P l → Q r → P (.binary op l r)) :
    EnsuresOn T (Rule.chain operator? operand) P := by
  rintro text e rest htext ⟨shorter, h⟩
  simp only [Rule.chain, bind, Except.bind] at h
  split at h
  · cases h
  · next p hp =>
    split at h
    · cases h
    · next q hq =>
      obtain ⟨hmiddle, hlhs⟩ := hoperand _ _ _ htext ⟨p.shorter, hp⟩
      have htail : T q.rest ∧ P q.value :=
        hoperand.chainTail hT hjoin hmiddle (hsingle p.value hlhs) ⟨q.notLonger, hq⟩
      cases h
      exact htail

theorem EnsuresOn.elements (hT : EndClosed T) (hitem : EnsuresOn T item P) :
    EnsuresOn T (Rule.elements item) fun items => ∀ e ∈ items, P e := by
  intro text items rest htext h
  fun_induction Rule.elements item text generalizing items with
  | case1 text failure hread => exact absurd h Parsed.not_yields_error
  | case2 text e middle shorter hread more hskip ih =>
    obtain ⟨hmiddle, he⟩ := hitem _ _ _ htext ⟨shorter, hread⟩
    obtain ⟨others, hothers, rfl⟩ :=
      h.exists_of_map (e :: ·) (fun _ => rfl) fun _ => rfl
    obtain ⟨hrest, hothers⟩ := ih others (hT.behind hmiddle hskip) hothers
    exact ⟨hrest, List.forall_mem_cons.mpr ⟨he, hothers⟩⟩
  | case3 text e middle shorter hread more hskip =>
    obtain ⟨hmiddle, he⟩ := hitem _ _ _ htext ⟨shorter, hread⟩
    obtain ⟨rfl, rfl⟩ := Parsed.yields_ok.mp h
    exact ⟨hT.behind hmiddle hskip, List.forall_mem_singleton.mpr he⟩
  | case4 text e middle shorter hread => exact absurd h Parsed.not_yields_error

theorem EnsuresOn.arrayBody (hT : EndClosed T) (hitem : EnsuresOn T item P) {text rest : List Char}
    {e : Expr} (htext : T text) (h : Parsed.Yields (Rule.arrayBody item text) e rest) :
    T rest ∧ ∃ items, e = .array items ∧ ∀ item ∈ items, P item := by
  rw [Rule.arrayBody] at h
  split at h
  · next hskip =>
    obtain ⟨rfl, rfl⟩ := Parsed.yields_ok.mp h
    exact ⟨hT.behind htext hskip, [], rfl, fun _ hmem => absurd hmem List.not_mem_nil⟩
  · obtain ⟨items, hitems, rfl⟩ :=
      h.exists_of_map Expr.array (fun _ => rfl) fun _ => rfl
    obtain ⟨hrest, hitems⟩ := hitem.elements hT _ _ _ (hT.skipBlank htext) hitems
    exact ⟨hrest, items, rfl, hitems⟩

theorem EnsuresOn.entry (hT : EndClosed T) (hitem : EnsuresOn T item P) :
    EnsuresOn T (Rule.entry item) fun entry => P entry.2 := by
  intro text entry rest htext h
  rw [Rule.entry] at h
  split at h
  · exact absurd h Parsed.not_yields_error
  · next key middle shorter hkey =>
    split at h
    · next hskip =>
      obtain ⟨e, he, rfl⟩ :=
        h.exists_of_map (Prod.mk _) (fun _ => rfl) fun _ => rfl
      have hmiddle := hT _ _ (suffix_of_objectKey ⟨shorter, hkey⟩) (hT.skipBlank htext)
      exact hitem _ _ _ (hT.behind hmiddle hskip) he
    · exact absurd h Parsed.not_yields_error

theorem EnsuresOn.entries (hT : EndClosed T) (hitem : EnsuresOn T item P) :
    EnsuresOn T (Rule.entries item) fun entries => ∀ entry ∈ entries, P entry.2 := by
  intro text entries rest htext h
  fun_induction Rule.entries item text generalizing entries with
  | case1 text failure hread => exact absurd h Parsed.not_yields_error
  | case2 text entry middle shorter hread more hskip ih =>
    obtain ⟨hmiddle, hentry⟩ := hitem.entry hT _ _ _ htext ⟨shorter, hread⟩
    obtain ⟨others, hothers, rfl⟩ :=
      h.exists_of_map (entry :: ·) (fun _ => rfl) fun _ => rfl
    obtain ⟨hrest, hothers⟩ := ih others (hT.behind hmiddle hskip) hothers
    exact ⟨hrest, List.forall_mem_cons.mpr ⟨hentry, hothers⟩⟩
  | case3 text entry middle shorter hread more hskip =>
    obtain ⟨hmiddle, hentry⟩ := hitem.entry hT _ _ _ htext ⟨shorter, hread⟩
    obtain ⟨rfl, rfl⟩ := Parsed.yields_ok.mp h
    exact ⟨hT.behind hmiddle hskip, List.forall_mem_singleton.mpr hentry⟩
  | case4 text entry middle shorter hread => exact absurd h Parsed.not_yields_error

theorem EnsuresOn.objectBody (hT : EndClosed T) (hitem : EnsuresOn T item P)
    {text rest : List Char} {e : Expr} (htext : T text)
    (h : Parsed.Yields (Rule.objectBody item text) e rest) :
    T rest ∧ ∃ entries, e = .object entries ∧ ∀ entry ∈ entries, P entry.2 := by
  rw [Rule.objectBody] at h
  split at h
  · next hskip =>
    obtain ⟨rfl, rfl⟩ := Parsed.yields_ok.mp h
    exact ⟨hT.behind htext hskip, [], rfl, fun _ hmem => absurd hmem List.not_mem_nil⟩
  · obtain ⟨entries, hentries, rfl⟩ :=
      h.exists_of_map Expr.object (fun _ => rfl) fun _ => rfl
    obtain ⟨hrest, hentries⟩ := hitem.entries hT _ _ _ (hT.skipBlank htext) hentries
    exact ⟨hrest, entries, rfl, hentries⟩

theorem EnsuresOn.parenthesized (hT : EndClosed T) (hitem : EnsuresOn T item P) :
    EnsuresOn T (Rule.parenthesized item) P := by
  intro text e rest htext h
  rw [Rule.parenthesized] at h
  split at h
  · exact absurd h Parsed.not_yields_error
  · next expr middle shorter hread =>
    obtain ⟨hmiddle, he⟩ := hitem _ _ _ (hT.skipBlank htext) ⟨shorter, hread⟩
    split at h
    · next hskip =>
      obtain ⟨rfl, rfl⟩ := Parsed.yields_ok.mp h
      exact ⟨hT.behind hmiddle hskip, he⟩
    · exact absurd h Parsed.not_yields_error

def IsSimple : Value → Prop
  | .null | .bool _ | .number _ | .string _ => True
  | .regex _ | .array _ | .object _ => False

theorem isSimple_of_wordValue? {run : List Char} {value : Value} (h : wordValue? run = some value) :
    IsSimple value := by
  unfold wordValue? at h
  split at h
  all_goals cases h
  all_goals trivial

/-- A word stands for a value, or it starts a path. -/
theorem EnsuresOn.wordOrPath (hT : EndClosed T)
    (hliteral : ∀ value, IsSimple value → Q (.literal value))
    (hpath : ∀ path, path.key = none → Q (.path path)) : EnsuresOn T Rule.wordOrPath Q := by
  intro text e rest htext h
  rw [Rule.wordOrPath] at h
  split at h
  · next p hp =>
    obtain ⟨rfl, rfl⟩ := Parsed.yields_ok.mp h
    obtain ⟨q, hq, -⟩ := Option.bind_eq_some_iff.mp hp
    have hrun : Parsed.Finds (takeRun? isNameChar text) q.value q.rest := ⟨q.shorter, hq⟩
    obtain ⟨-, hvalue, hrest⟩ := (finds_wordValue_iff hrun).mp ⟨p.shorter, hp⟩
    exact ⟨hT _ _ (hrest ▸ suffix_of_takeRun? hrun) htext,
      hliteral _ (isSimple_of_wordValue? hvalue)⟩
  · obtain ⟨path, hread, rfl⟩ := h.exists_of_map Expr.path (fun _ => rfl) fun _ => rfl
    obtain ⟨hrest, hkey⟩ := valuePath_ends hread
    exact ⟨hT _ _ hrest htext, hpath path hkey⟩

/-- A primary is a single token, an expression in parentheses, an array or an object, so a property
of these holds of it. -/
theorem EnsuresOn.primaryHere (hT : EndClosed T) (hitem : EnsuresOn T item P)
    (hliteral : ∀ value, IsSimple value → Q (.literal value))
    (hpath : ∀ path, path.key = none → Q (.path path))
    (hregex : ∀ text pattern rest, T ('/' :: text) →
      Parsed.Yields (Rule.pattern ('/' :: text)) pattern rest → Q (.regex pattern))
    (hparentheses : ∀ e, P e → Q e) (harray : ∀ items, (∀ e ∈ items, P e) → Q (.array items))
    (hobject : ∀ entries, (∀ entry ∈ entries, P entry.2) → Q (.object entries)) :
    EnsuresOn T (Rule.primaryHere item) Q := by
  intro text e rest htext h
  have hbehind {c : Char} {text : List Char} {reading : Except Failure (Parsed Expr text)}
      (h : Parsed.Yields (reading.map (Parsed.behind (c := c))) e rest) :
      Parsed.Yields reading e rest :=
    h.of_map (fun _ => rfl) fun _ => rfl
  have hinside {c : Char} {text : List Char} (h : T (c :: text)) : T text :=
    hT _ _ (List.suffix_cons c text) h
  unfold Rule.primaryHere at h
  split at h
  · exact absurd h Parsed.not_yields_error
  · obtain ⟨hrest, he⟩ := hitem.parenthesized hT _ _ _ (hinside htext) (hbehind h)
    exact ⟨hrest, hparentheses e he⟩
  · obtain ⟨hrest, items, rfl, hitems⟩ := hitem.arrayBody hT (hinside htext) (hbehind h)
    exact ⟨hrest, harray items hitems⟩
  · obtain ⟨hrest, entries, rfl, hentries⟩ := hitem.objectBody hT (hinside htext) (hbehind h)
    exact ⟨hrest, hobject entries hentries⟩
  · obtain ⟨pattern, hread, rfl⟩ := h.exists_of_map Expr.regex (fun _ => rfl) fun _ => rfl
    have hrest := (text_of_pattern hread).1 ▸ List.suffix_append pattern.text.toList rest
    exact ⟨hT _ _ hrest htext, hregex _ pattern rest htext hread⟩
  · split at h
    · obtain ⟨s, hread, rfl⟩ :=
        h.exists_of_map (fun s => Expr.literal (.string s)) (fun _ => rfl) fun _ => rfl
      exact ⟨hT _ _ (suffix_of_quoted hread) htext, hliteral _ trivial⟩
    · split at h
      · obtain ⟨x, hread, rfl⟩ :=
          h.exists_of_map (fun x => Expr.literal (.number x)) (fun _ => rfl) fun _ => rfl
        exact ⟨hT _ _ (suffix_of_number hread) htext, hliteral _ trivial⟩
      · split at h
        · exact EnsuresOn.wordOrPath hT hliteral hpath _ _ _ htext h
        · exact absurd h Parsed.not_yields_error

/-- Nothing is read where no level is left. -/
theorem not_yields_primary_zero {text rest : List Char} {e : Expr} :
    ¬Parsed.Yields (primary 0 text) e rest :=
  Parsed.not_yields_error

theorem EnsuresOn.primary_succ (hT : EndClosed T) {levels : Nat}
    (h : EnsuresOn T (Rule.primaryHere (arithmetic (primary levels))) Q) :
    EnsuresOn T (primary (levels + 1)) Q := by
  intro text e rest htext hread
  rw [primary] at hread
  exact h _ _ _ (hT.skipBlank htext) (hread.of_map (fun _ => rfl) fun _ => rfl)

theorem Ensures.chain (hoperand : Ensures operand Q) (hsingle : ∀ e, Q e → P e)
    (hjoin : ∀ op l r, P l → Q r → P (.binary op l r)) :
    Ensures (Rule.chain operator? operand) P :=
  ensures_iff.mpr ((ensures_iff.mp hoperand).chain endClosed_true hsingle hjoin)

theorem Ensures.primaryHere (hitem : Ensures item P) (hliteral : ∀ value, Q (.literal value))
    (hpath : ∀ path, Q (.path path)) (hregex : ∀ pattern, Q (.regex pattern))
    (hparentheses : ∀ e, P e → Q e) (harray : ∀ items, (∀ e ∈ items, P e) → Q (.array items))
    (hobject : ∀ entries, (∀ entry ∈ entries, P entry.2) → Q (.object entries)) :
    Ensures (Rule.primaryHere item) Q :=
  ensures_iff.mpr ((ensures_iff.mp hitem).primaryHere endClosed_true (fun value _ => hliteral value)
    (fun path _ => hpath path) (fun _ pattern _ _ _ => hregex pattern) hparentheses harray hobject)

theorem Ensures.primary_succ {levels : Nat}
    (h : Ensures (Rule.primaryHere (arithmetic (primary levels))) Q) :
    Ensures (primary (levels + 1)) Q :=
  ensures_iff.mpr ((ensures_iff.mp h).primary_succ endClosed_true)

end Readers

/-! ## Rules -/

/-- The path on the left side of a rule has an attribute or a combinator key. -/
theorem attribute_or_combinator {text rest : List Char} {path : AttributePath}
    (h : Parsed.Yields (assignedPath text) path rest) :
    path.segments ≠ [] ∨ path.isCombinator = true := by
  obtain ⟨shorter, h⟩ := h
  simp only [assignedPath, bind, Except.bind, pure, Except.pure] at h
  split at h
  · cases h
  · split at h
    · cases h
    · next parts _ =>
      split at h
      · cases h
      · next key _ hkey =>
        split at h
        · next hcombinator =>
          cases h
          refine .inr ?_
          change parts.2.any Abac.isCombinator = true
          rw [hkey]
          exact hcombinator
        · cases h
      · next hnames =>
        cases h
        refine .inl ?_
        change parts.1 ≠ []
        rw [hnames]
        exact List.cons_ne_nil _ _

/-- The parts of a text that is read as a rule, one behind the other, with nothing left. -/
theorem exists_of_statement {text : List Char} {s : Statement} (h : statement text = .ok s) :
    ∃ afterPath afterComparator trail,
      Parsed.Yields (assignedPath (skipBlank text)) s.path afterPath ∧
      Parsed.Yields (comparator (skipBlank afterPath)) s.comparator afterComparator ∧
      (s.path.key.isSome = true → s.comparator = .eq) ∧
      Parsed.Yields (expression (skipBlank afterComparator)) s.expr trail ∧
      skipBlank trail = [] := by
  simp only [statement, bind, Except.bind, pure, Except.pure] at h
  split at h
  · cases h
  · next path hpath =>
    split at h
    · cases h
    · next c hc =>
      split at h
      · cases h
      · next hassigned =>
        split at h
        · cases h
        · next e he =>
          split at h
          · next htrail =>
            cases h
            refine ⟨path.rest, c.rest, e.rest, ⟨_, hpath⟩, ⟨_, hc⟩, ?_, ⟨_, he⟩, htrail⟩
            intro hkey
            exact Decidable.byContradiction fun hne => hassigned ⟨hkey, hne⟩
          · cases h

theorem exists_of_parse {source : String} {clause : Clause} (h : parse source = .ok clause) :
    ∃ s, statement source.toList = .ok s ∧ clause = ⟨source, s.path, s.comparator, s.expr⟩ := by
  rw [parse] at h
  split at h
  · next s hs =>
    cases h
    exact ⟨s, hs, rfl⟩
  · cases h

/-- The path of a rule that was read has an attribute or a combinator key. -/
theorem attribute_or_combinator_of_parse {source : String} {clause : Clause}
    (h : parse source = .ok clause) :
    clause.path.segments ≠ [] ∨ clause.path.isCombinator = true := by
  obtain ⟨s, hs, rfl⟩ := exists_of_parse h
  obtain ⟨afterPath, afterComparator, trail, hpath, -⟩ := exists_of_statement hs
  exact attribute_or_combinator hpath

end Abac.Rule
