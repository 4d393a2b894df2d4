import Abac.Proofs.Rule.Precedence

/-!
Chains of operands. A chain without parentheses is cut in front of each of its additions and
subtractions; the multiplications and divisions inside a run are grouped to the left, and then so
are the runs (`Chain.tree`). Whatever primaries the operands are and whatever blanks stand around
the operators, this is the expression that is read from the chain: as the right side of a rule, in
parentheses, as an element of an array and as a value of an object (`reads_chains`).
-/
namespace Abac.Rule

structure Chain where
  first : Expr
  links : List (Arithmetic × Expr)

namespace Chain

def fold (chain : Chain) : Expr :=
  chain.links.foldl (fun lhs link => .binary link.1 lhs link.2) chain.first

/-- Cuts the links of a chain in front of those that add or subtract: the links before the first of
these, and each of these with the links up to the next. -/
def cutLinks : List (Arithmetic × Expr) → List (Arithmetic × Expr) × List (Arithmetic × Chain)
  | [] => ([], [])
  | (op, operand) :: links =>
    if isSum op then ([], (op, ⟨operand, (cutLinks links).1⟩) :: (cutLinks links).2)
    else ((op, operand) :: (cutLinks links).1, (cutLinks links).2)

def firstRun (chain : Chain) : Chain := ⟨chain.first, (cutLinks chain.links).1⟩

def moreRuns (chain : Chain) : List (Arithmetic × Chain) := (cutLinks chain.links).2

/-- Groups the operands of each run to the left, and then the runs. -/
def tree (chain : Chain) : Expr :=
  fold ⟨chain.firstRun.fold, chain.moreRuns.map fun run => (run.1, run.2.fold)⟩

/-- The runs put together are the chain. -/
theorem links_eq_append (links : List (Arithmetic × Expr)) :
    links = (cutLinks links).1 ++
      (cutLinks links).2.flatMap fun run => (run.1, run.2.first) :: run.2.links := by
  induction links with
  | nil => rfl
  | cons link links ih =>
    obtain ⟨op, operand⟩ := link
    rw [cutLinks]
    split
    · simp only [List.nil_append, List.flatMap_cons, List.cons_append]
      rw [← ih]
    · simp only [List.cons_append]
      rw [← ih]

/-- The runs are as long as they can be: additions and subtractions stand between them, and only
multiplications and divisions inside. -/
theorem isSum_cutLinks (links : List (Arithmetic × Expr)) :
    (∀ link ∈ (cutLinks links).1, isSum link.1 = false) ∧
      ∀ run ∈ (cutLinks links).2,
        isSum run.1 = true ∧ ∀ link ∈ run.2.links, isSum link.1 = false := by
  induction links with
  | nil => exact ⟨nofun, nofun⟩
  | cons link links ih =>
    obtain ⟨op, operand⟩ := link
    obtain ⟨hfirst, hmore⟩ := ih
    rw [cutLinks]
    split
    · next hop => exact ⟨nofun, List.forall_mem_cons.mpr ⟨⟨hop, hfirst⟩, hmore⟩⟩
    · next hop =>
      exact ⟨List.forall_mem_cons.mpr ⟨Bool.eq_false_iff.mpr hop, hfirst⟩, hmore⟩

example (a b c d : Expr) :
    tree ⟨a, [(.sub, b), (.mul, c), (.add, d)]⟩ =
      .binary .add (.binary .sub a (.binary .mul b c)) d := rfl

end Chain

/-! ## How chains are written -/

/-- How the links of a chain are written: each operator with any blanks around it, and behind it a
text that is read on its own as a primary. -/
inductive LinksText (levels : Nat) : List (Arithmetic × Expr) → List Char → Prop where
  | nil : LinksText levels [] []
  | cons {op : Arithmetic} {operand : Expr} {links : List (Arithmetic × Expr)}
      {before behind text more : List Char} (hbefore : Blank before) (hbehind : Blank behind)
      (hoperand : Parsed.Yields (primary levels text) operand [])
      (hmore : LinksText levels links more) :
      LinksText levels ((op, operand) :: links)
        (before ++ (op.symbol.toList ++ (behind ++ (text ++ more))))

inductive ChainText (levels : Nat) : Chain → List Char → Prop where
  | mk {first : Expr} {links : List (Arithmetic × Expr)} {lead text more trail : List Char}
      (hlead : Blank lead) (hfirst : Parsed.Yields (primary levels text) first [])
      (hlinks : LinksText levels links more) (htrail : Blank trail) :
      ChainText levels ⟨first, links⟩ (lead ++ (text ++ (more ++ trail)))

inductive EntryText (levels : Nat) : String × Chain → List Char → Prop where
  | mk {key : String} {chain : Chain} {lead keyText before text : List Char} (hlead : Blank lead)
      (hkey : Parsed.Yields (objectKey keyText) key []) (hbefore : Blank before)
      (h : ChainText levels chain text) :
      EntryText levels (key, chain) (lead ++ (keyText ++ (before ++ ':' :: text)))

inductive ListText {α : Type} (written : α → List Char → Prop) : List α → List Char → Prop where
  | last {x : α} {text : List Char} (h : written x text) : ListText written [x] text
  | cons {x : α} {xs : List α} {text more : List Char} (h : written x text)
      (hmore : ListText written xs more) : ListText written (x :: xs) (text ++ ',' :: more)

def LeftSide (source : String) (path : AttributePath) (c : Comparator) (text : List Char) : Prop :=
  ∃ afterPath, Parsed.Yields (assignedPath (skipBlank source.toList)) path afterPath ∧
    Parsed.Yields (comparator (skipBlank afterPath)) c text ∧ (path.key.isSome = true → c = .eq)

/-! ## What stands behind a chain -/

/-- What stands behind a chain goes on with none of its tokens, and no operator follows. -/
structure Stops (rest : List Char) : Prop where
  token : Halts goesOn rest
  operator : ∀ c ∈ (skipBlank rest).head?, anyOperator? c = none

section Stops

variable {blanks rest : List Char}

theorem Stops.append (h : Stops rest) (hblanks : Blank blanks) : Stops (blanks ++ rest) where
  token := halts_goesOn_append hblanks h.token
  operator := by
    rw [skipBlank_append hblanks]
    exact h.operator

theorem stops_nil : Stops [] where
  token := halts_nil goesOn
  operator := nofun

theorem stops_of_ends {c : Char} (hc : Ends c) (rest : List Char) : Stops (c :: rest) where
  token := halts_cons hc.2.1
  operator := by
    rw [skipBlank_cons hc.1]
    intro d hd
    obtain rfl : c = d := Option.some.inj hd
    cases hop : anyOperator? c with
    | none => rfl
    | some op =>
      rcases sum_or_product hop with hsum | hproduct
      · exact nomatch hc.2.2.1.symm.trans hsum
      · exact nomatch hc.2.2.2.symm.trans hproduct

theorem Stops.sum (h : Stops rest) :
    Halts (fun c => (sumOperator? c).isSome) (skipBlank rest) := by
  intro c hc
  simp only [(eq_none_of_anyOperator? (h.operator c hc)).1, Option.isSome_none]

theorem Stops.product (h : Stops rest) :
    Halts (fun c => (productOperator? c).isSome) (skipBlank rest) := by
  intro c hc
  simp only [(eq_none_of_anyOperator? (h.operator c hc)).2, Option.isSome_none]

end Stops

/-! ## How chains are read -/

section Reading

variable {levels : Nat} {chain : Chain} {links : List (Arithmetic × Expr)} {lhs : Expr}
  {op : Arithmetic} {text rest : List Char}

/-- The character that an operator is written with. -/
theorem exists_symbol (op : Arithmetic) :
    ∃ c, op.symbol.toList = [c] ∧ isBlank c = false ∧ goesOn c = false ∧
      (isSum op = true → sumOperator? c = some op ∧ productOperator? c = none) ∧
      (isSum op = false → productOperator? c = some op) := by
  cases op
  · exact ⟨'+', rfl, by decide, by decide, fun _ => ⟨rfl, rfl⟩, nofun⟩
  · exact ⟨'-', rfl, by decide, by decide, fun _ => ⟨rfl, rfl⟩, nofun⟩
  · exact ⟨'*', rfl, by decide, by decide, nofun, fun _ => rfl⟩
  · exact ⟨'/', rfl, by decide, by decide, nofun, fun _ => rfl⟩

/-- The blanks in front of a primary do not matter. -/
theorem yields_primary_congr (text' : List Char) (h : Parsed.Yields (primary levels text) lhs rest)
    (hskip : skipBlank text' = skipBlank text) :
    Parsed.Yields (primary levels text') lhs rest := by
  cases levels with
  | zero => exact absurd h not_yields_primary_zero
  | succ levels =>
    rw [primary] at h
    have hread := h.of_map (fun _ => rfl) fun _ => rfl
    rw [← hskip] at hread
    exact yields_primary hread

theorem LinksText.halts (h : LinksText levels links text) (hrest : Stops rest) :
    Halts goesOn (text ++ rest) := by
  cases h with
  | nil => exact hrest.token
  | @cons op operand links before behind text more hbefore hbehind hoperand hmore =>
    obtain ⟨c, hsymbol, -, hgoes, -⟩ := exists_symbol op
    rw [hsymbol, List.append_assoc]
    exact halts_goesOn_append hbefore (halts_cons hgoes)

/-- Behind an operand the rest of its run is read as a product, and then the other runs as a sum of
products. -/
theorem yields_links (h : LinksText levels links text) (hrest : Stops rest) (lhs : Expr) :
    ∃ middle,
      Continued.Yields (chainTail productOperator? (primary levels) lhs (text ++ rest))
        (Chain.fold ⟨lhs, (Chain.cutLinks links).1⟩) middle ∧
      ∀ sum, Continued.Yields
        (chainTail sumOperator? (Rule.chain productOperator? (primary levels)) sum middle)
        (Chain.fold ⟨sum, (Chain.cutLinks links).2.map fun run => (run.1, run.2.fold)⟩) rest := by
  induction h generalizing lhs with
  | nil =>
    exact ⟨rest, yields_chainTail_stop lhs hrest.product,
      fun sum => yields_chainTail_stop sum hrest.sum⟩
  | @cons op operand links before behind text more hbefore hbehind hoperand hmore ih =>
    obtain ⟨c, hsymbol, hblank, -, hsum, hproduct⟩ := exists_symbol op
    have hskip : skipBlank (before ++ (op.symbol.toList ++ (behind ++ (text ++ more))) ++ rest) =
        c :: (behind ++ (text ++ (more ++ rest))) := by
      simp only [hsymbol, List.append_assoc, List.cons_append, List.nil_append]
      exact skipBlank_mark hbefore hblank _
    have hread : Parsed.Yields (primary levels (skipBlank (behind ++ (text ++ (more ++ rest)))))
        operand (more ++ rest) := by
      refine yields_primary_congr _ (yields_primary_append hoperand (hmore.halts hrest)) ?_
      rw [skipBlank_append hbehind, skipBlank_skipBlank]
    cases hop : isSum op with
    | true =>
      -- The run before the operator ends here, and the run behind it is the right side of a sum.
      obtain ⟨middle, hrun, hruns⟩ := ih operand
      obtain ⟨hsum, hnone⟩ := hsum hop
      rw [Chain.cutLinks, if_pos hop]
      refine ⟨_, yields_chainTail_stop lhs ?_, fun sum => ?_⟩
      · rw [hskip]
        exact halts_cons (by rw [hnone]; rfl)
      · exact yields_chainTail_step hskip hsum (yields_chain hread hrun) (hruns _)
    | false =>
      obtain ⟨middle, hrun, hruns⟩ := ih (.binary op lhs operand)
      rw [Chain.cutLinks, if_neg (by rw [hop]; exact Bool.false_ne_true)]
      exact ⟨middle, yields_chainTail_step hskip (hproduct hop) hread hrun, hruns⟩

/-- A chain is read as its tree, up to the blanks behind it. -/
theorem ChainText.yields (h : ChainText levels chain text) (hrest : Stops rest) :
    ∃ trail, Blank trail ∧
      Parsed.Yields (arithmetic (primary levels) (text ++ rest)) chain.tree (trail ++ rest) := by
  obtain ⟨hlead, hfirst, hlinks, htrail⟩ := h
  next first links lead text more trail =>
  have hstops := hrest.append htrail
  have hread : Parsed.Yields (primary levels (lead ++ (text ++ (more ++ trail)) ++ rest)) first
      (more ++ (trail ++ rest)) := by
    refine yields_primary_congr _ (yields_primary_append hfirst (hlinks.halts hstops)) ?_
    simp only [List.append_assoc, skipBlank_append hlead]
  obtain ⟨middle, hrun, hruns⟩ := yields_links hlinks hstops first
  exact ⟨trail, htrail, yields_chain (yields_chain hread hrun) (hruns _)⟩

/-- The blanks in front of a chain belong to it. -/
theorem ChainText.skipBlank (h : ChainText levels chain text) :
    ChainText levels chain (skipBlank text) ∧
      ∀ rest, Abac.skipBlank (text ++ rest) = Abac.skipBlank text ++ rest := by
  obtain ⟨hlead, hfirst, hlinks, htrail⟩ := h
  next first links lead text more trail =>
  have hstripped := yields_primary_congr (Abac.skipBlank text) hfirst
    (skipBlank_skipBlank text)
  have hskip : ∀ rest, Abac.skipBlank (lead ++ (text ++ rest)) = Abac.skipBlank text ++ rest := by
    intro rest
    rw [skipBlank_append hlead, skipBlank_append_of_yields _ hstripped]
  refine ⟨?_, fun rest => ?_⟩
  · rw [hskip]
    exact .mk blank_nil hstripped hlinks htrail
  · rw [hskip]
    simp only [List.append_assoc, hskip]

/-- A chain in parentheses is read as one primary. -/
theorem ChainText.yields_parentheses (h : ChainText levels chain text) :
    Parsed.Yields (primary (levels + 1) ('(' :: (text ++ [')']))) chain.tree [] := by
  obtain ⟨hstripped, hskip⟩ := h.skipBlank
  have hend : Stops [')'] := stops_of_ends (ends_of_mem (by decide)) []
  obtain ⟨trail, htrail, hread⟩ := hstripped.yields hend
  rw [← hskip] at hread
  apply yields_primary
  rw [skipBlank_cons (by decide)]
  exact Rule.yields_parentheses (yields_parenthesized hread (skipBlank_mark htrail (by decide) []))

/-! ## Arrays and objects -/

theorem primaryHere_closing {item : Reader Expr} {c : Char} (hc : c ∈ [')', ']', '}', ',']) :
    primaryHere item (c :: text) = failAt (c :: text) (.unexpected c) := by
  have hclass : c ∉ openingMarks ∧ isQuote c = false ∧ c ≠ '-' ∧ c ≠ '.' ∧
      Digits.isDecimal c = false ∧ isNameChar c = false := by
    simp only [List.mem_cons, List.not_mem_nil, or_false] at hc
    rcases hc with rfl | rfl | rfl | rfl <;> decide
  obtain ⟨hmark, hquote, hminus, hpoint, hdigit, hname⟩ := hclass
  rw [primaryHere_cons hmark, hquote, startsNumber_cons hminus hpoint, hdigit, hname]
  rfl

/-- No primary starts with a mark that ends or separates. -/
theorem not_yields_primary_of_mem {c : Char} {e : Expr} (hc : c ∈ [')', ']', '}', ',']) :
    ¬Parsed.Yields (primary levels (c :: text)) e rest := by
  intro h
  cases levels with
  | zero => exact not_yields_primary_zero h
  | succ levels =>
    rw [primary] at h
    have hread := h.of_map (fun _ => rfl) fun _ => rfl
    rw [skipBlank_cons (ends_of_mem hc).1, primaryHere_closing hc] at hread
    exact Parsed.not_yields_error hread

/-- The first element of a list stands in front. -/
theorem exists_of_elements {item : Reader Expr} {items : List Expr}
    (h : Parsed.Yields (elements item text) items rest) :
    ∃ e middle, Parsed.Yields (item text) e middle := by
  rw [elements] at h
  split at h
  · exact absurd h Parsed.not_yields_error
  · next e middle shorter hread => exact ⟨e, middle, shorter, hread⟩

/-- The key of the first entry of a list stands in front. -/
theorem exists_of_entries {item : Reader Expr} {pairs : List (String × Expr)}
    (h : Parsed.Yields (entries item text) pairs rest) :
    ∃ key middle, Parsed.Yields (objectKey (skipBlank text)) key middle := by
  rw [entries] at h
  split at h
  · exact absurd h Parsed.not_yields_error
  · next pair middle shorter hread =>
    rw [entry] at hread
    split at hread
    · cases hread
    · next key middle shorter hkey => exact ⟨key, middle, shorter, hkey⟩

/-- A key starts with a quote or with a character of names. -/
theorem opens_of_objectKey {key : String} (h : Parsed.Yields (objectKey text) key rest) :
    Opens text := by
  cases text with
  | nil => exact absurd h Parsed.not_yields_error
  | cons c text =>
    refine ⟨c, text, rfl, ?_⟩
    rw [objectKey] at h
    split at h
    · next hquote => exact starts_quote hquote
    · split at h
      · next p hp =>
        rw [takeRun?] at hp
        split at hp
        · next hname => exact starts_of_goesOn (goesOn_of_isNameChar hname)
        · cases hp
      · exact absurd h Parsed.not_yields_error

section Lists

variable {α : Type} {written : α → List Char → Prop} {xs : List α}

/-- The blanks in front of a list belong to its first element. -/
theorem ListText.skipBlank (h : ListText written xs text)
    (hwritten : ∀ {x text}, written x text → written x (skipBlank text) ∧
      ∀ rest, Abac.skipBlank (text ++ rest) = Abac.skipBlank text ++ rest) :
    ListText written xs (Abac.skipBlank text) ∧
      ∀ rest, Abac.skipBlank (text ++ rest) = Abac.skipBlank text ++ rest := by
  cases h with
  | last h =>
    obtain ⟨hstripped, hskip⟩ := hwritten h
    exact ⟨.last hstripped, hskip⟩
  | @cons x xs text more h hmore =>
    obtain ⟨hstripped, hskip⟩ := hwritten h
    rw [hskip]
    refine ⟨.cons hstripped hmore, fun rest => ?_⟩
    rw [List.append_assoc, hskip, List.append_assoc]

end Lists

theorem yields_elements_chains {chains : List Chain} (h : ListText (ChainText levels) chains text)
    (rest : List Char) :
    Parsed.Yields (elements (arithmetic (primary levels)) (text ++ ']' :: rest))
      (chains.map Chain.tree) rest := by
  induction h with
  | last h =>
    have hend : Stops (']' :: rest) := stops_of_ends (ends_of_mem (by decide)) rest
    obtain ⟨trail, htrail, hread⟩ := h.yields hend
    exact yields_elements_last hread (skipBlank_mark htrail (by decide) rest)
  | @cons chain chains text more h hmore ih =>
    have hend : Stops (',' :: (more ++ ']' :: rest)) := stops_of_ends (ends_of_mem (by decide)) _
    obtain ⟨trail, htrail, hread⟩ := h.yields hend
    rw [List.append_assoc, List.cons_append]
    exact yields_elements_cons hread (skipBlank_mark htrail (by decide) _) ih

/-- Chains with commas between them are read as an array in brackets. -/
theorem yields_array_chains {chains : List Chain} (h : ListText (ChainText levels) chains text) :
    Parsed.Yields (primary (levels + 1) ('[' :: (text ++ [']'])))
      (.array (chains.map Chain.tree)) [] := by
  obtain ⟨hstripped, hskip⟩ := h.skipBlank ChainText.skipBlank
  have hread := yields_elements_chains hstripped []
  rw [← hskip] at hread
  apply yields_primary
  rw [skipBlank_cons (by decide)]
  refine yields_brackets (yields_arrayBody_of_ne (fun more hclose => ?_) hread)
  rw [hclose] at hread
  obtain ⟨e, middle, hitem⟩ := exists_of_elements hread
  obtain ⟨product, middle, hproduct, -⟩ := exists_of_chain hitem
  obtain ⟨operand, middle, hoperand, -⟩ := exists_of_chain hproduct
  exact not_yields_primary_of_mem (by decide) hoperand

theorem EntryText.skipBlank {entry : String × Chain} (h : EntryText levels entry text) :
    EntryText levels entry (skipBlank text) ∧
      ∀ rest, Abac.skipBlank (text ++ rest) = Abac.skipBlank text ++ rest := by
  obtain ⟨hlead, hkey, hbefore, hvalue⟩ := h
  next key chain lead keyText before value =>
  have hopens := opens_of_objectKey hkey
  have hskip := skipBlank_opens hlead hopens
  rw [hskip]
  refine ⟨.mk blank_nil hkey hbefore hvalue, fun rest => ?_⟩
  rw [List.append_assoc, List.append_assoc, hskip]

theorem EntryText.yields {entry : String × Chain} (h : EntryText levels entry text)
    (hrest : Stops rest) :
    ∃ trail, Blank trail ∧
      Parsed.Yields (Rule.entry (arithmetic (primary levels)) (text ++ rest))
        (entry.1, entry.2.tree) (trail ++ rest) := by
  obtain ⟨hlead, hkey, hbefore, hvalue⟩ := h
  next key chain lead keyText before value =>
  obtain ⟨trail, htrail, hread⟩ := hvalue.yields hrest
  have hcolon : Halts goesOn (before ++ ':' :: (value ++ rest)) :=
    halts_goesOn_append hbefore (halts_cons (by decide))
  have hkeyRead := local_objectKey keyText key [] (before ++ ':' :: (value ++ rest)) hkey hcolon
  rw [List.nil_append, ← skipBlank_opens hlead (opens_of_objectKey hkey)] at hkeyRead
  have htext : lead ++ (keyText ++ (before ++ ':' :: value)) ++ rest =
      lead ++ (keyText ++ (before ++ ':' :: (value ++ rest))) := by
    simp only [List.append_assoc, List.cons_append]
  rw [htext]
  refine ⟨trail, htrail, ?_⟩
  exact yields_entry hkeyRead (skipBlank_mark hbefore (by decide) _) hread

theorem yields_entries_chains {entries : List (String × Chain)}
    (h : ListText (EntryText levels) entries text) (rest : List Char) :
    Parsed.Yields (Rule.entries (arithmetic (primary levels)) (text ++ '}' :: rest))
      (entries.map fun entry => (entry.1, entry.2.tree)) rest := by
  induction h with
  | last h =>
    have hend : Stops ('}' :: rest) := stops_of_ends (ends_of_mem (by decide)) rest
    obtain ⟨trail, htrail, hread⟩ := h.yields hend
    exact yields_entries_last hread (skipBlank_mark htrail (by decide) rest)
  | @cons entry entries text more h hmore ih =>
    have hend : Stops (',' :: (more ++ '}' :: rest)) := stops_of_ends (ends_of_mem (by decide)) _
    obtain ⟨trail, htrail, hread⟩ := h.yields hend
    rw [List.append_assoc, List.cons_append]
    exact yields_entries_cons hread (skipBlank_mark htrail (by decide) _) ih

/-- Keys with chains for their values are read as an object in braces. -/
theorem yields_object_chains {entries : List (String × Chain)}
    (h : ListText (EntryText levels) entries text) :
    Parsed.Yields (primary (levels + 1) ('{' :: (text ++ ['}'])))
      (.object (entries.map fun entry => (entry.1, entry.2.tree))) [] := by
  obtain ⟨hstripped, hskip⟩ := h.skipBlank EntryText.skipBlank
  have hread := yields_entries_chains hstripped []
  rw [← hskip] at hread
  apply yields_primary
  rw [skipBlank_cons (by decide)]
  refine yields_braces (yields_objectBody_of_ne (fun more hclose => ?_) hread)
  rw [hclose] at hread
  obtain ⟨key, middle, hkey⟩ := exists_of_entries hread
  rw [skipBlank_cons (by decide)] at hkey
  obtain ⟨c, behind, hcons, hstarts⟩ := opens_of_objectKey hkey
  exact hstarts.2.2.1 (List.cons.inj hcons).1.symm

end Reading

/-! ## Rules -/

/-- A path and a comparator that are written in front of a text are a left side. -/
theorem leftSide_of_pathText (source : String) {path : AttributePath} (c : Comparator)
    (text : List Char) {lead pathText before : List Char} (hlead : Blank lead)
    (hpathText : PathText path pathText)
    (hpath : path.segments ≠ [] ∨ path.isCombinator = true)
    (hkey : path.key.isSome = true → c = .eq) (hbefore : Blank before)
    (htext : text.head? ≠ some '=')
    (hsource : source.toList = lead ++ (pathText ++ (before ++ (c.symbol.toList ++ text)))) :
    LeftSide source path c text := by
  obtain ⟨mark, more, hsymbol, hmark, hgoes⟩ := symbol_eq_cons c
  have hcomparator := yields_comparator c htext
  rw [hsymbol, List.cons_append, ← skipBlank_mark hbefore hmark] at hcomparator
  have hhalts : Halts goesOn (before ++ mark :: (more ++ text)) :=
    halts_goesOn_append hbefore (halts_cons hgoes)
  have hread := yields_assignedPath hpathText hpath hhalts
  rw [← skipBlank_opens hlead hpathText.opens] at hread
  rw [hsymbol, List.cons_append] at hsource
  refine ⟨before ++ mark :: (more ++ text), ?_, hcomparator, hkey⟩
  rw [hsource]
  exact hread

/-- A rule with a chain on its right side is read with the tree of the chain. -/
theorem parse_of_chainText {source : String} {path : AttributePath} {c : Comparator}
    {chain : Chain} {text : List Char} (hleft : LeftSide source path c text)
    (h : ChainText nestingLimit chain text) :
    parse source = .ok ⟨source, path, c, chain.tree⟩ := by
  obtain ⟨afterPath, hpath, hcomparator, hkey⟩ := hleft
  obtain ⟨trail, htrail, hread⟩ := h.skipBlank.1.yields stops_nil
  rw [List.append_nil, List.append_nil] at hread
  have hstatement := statement_eq_ok hpath hcomparator hkey hread (skipBlank_eq_nil htrail)
  rw [parse, hstatement]

/-- The loop over the precedences of the operators reads what is read level by level, and what is
read from a chain is its tree: from a chain on the right side of a rule the rule with the tree, from
one in parentheses the tree, from several in brackets the array of their trees, and from several
behind keys in braces the object of these. -/
theorem reads_chains :
    (∀ operand, climb operand 1 = arithmetic operand) ∧
      (∀ source path c chain text, LeftSide source path c text →
        ChainText nestingLimit chain text → parse source = .ok ⟨source, path, c, chain.tree⟩) ∧
      ∀ levels,
        (∀ chain text, ChainText levels chain text →
          Parsed.Yields (primary (levels + 1) ('(' :: (text ++ [')']))) chain.tree []) ∧
        (∀ chains text, ListText (ChainText levels) chains text →
          Parsed.Yields (primary (levels + 1) ('[' :: (text ++ [']'])))
            (.array (chains.map Chain.tree)) []) ∧
        ∀ entries text, ListText (EntryText levels) entries text →
          Parsed.Yields (primary (levels + 1) ('{' :: (text ++ ['}'])))
            (.object (entries.map fun entry => (entry.1, entry.2.tree))) [] := by
  refine ⟨fun operand => climb_one, ?_, fun levels => ⟨?_, ?_, ?_⟩⟩
  · exact fun source path c chain text hleft h => parse_of_chainText hleft h
  · exact fun chain text h => h.yields_parentheses
  · exact fun chains text h => yields_array_chains h
  · exact fun entries text h => yields_object_chains h

def userPath (name : String) : Expr := .path ⟨.user, [name], none⟩

theorem yields_userPath (name : String) (hname : IsName name) (hdollar : isDollarKey name = false)
    (levels : Nat) :
    Parsed.Yields (primary (levels + 1) ("user.".toList ++ name.toList)) (userPath name) [] := by
  have hatom : Atom (userPath name) ("user".toList ++ '.' :: (name.toList ++ [])) :=
    .path (.mk (.segment (.bare hname hdollar) .nil)) rfl
  have hread : Parsed.Yields (primaryHere (arithmetic (primary levels))
      ("user".toList ++ '.' :: (name.toList ++ []) ++ [])) (userPath name) [] :=
    yields_atom hatom (halts_nil goesOn)
  rw [List.append_nil] at hread
  have htext : "user.".toList ++ name.toList = "user".toList ++ '.' :: (name.toList ++ []) := by
    simp
  rw [htext]
  apply yields_primary
  rw [hatom.opens.skipBlank]
  exact hread

/-- A chain in parentheses between others, and chains in an object in an array. -/
theorem reads_chains_quota :
    parse "resource.quota >= user.base - user.rate*(user.days+user.extra) /user.share" =
      .ok ⟨"resource.quota >= user.base - user.rate*(user.days+user.extra) /user.share",
        ⟨.resource, ["quota"], none⟩, .gte,
        .binary .sub (userPath "base")
          (.binary .div
            (.binary .mul (userPath "rate") (.binary .add (userPath "days") (userPath "extra")))
            (userPath "share"))⟩ ∧
    parse "resource.limits=[user.a-user.b-user.c, {max: user.a*user.b+user.c}]" =
      .ok ⟨"resource.limits=[user.a-user.b-user.c, {max: user.a*user.b+user.c}]",
        ⟨.resource, ["limits"], none⟩, .eq,
        .array [.binary .sub (.binary .sub (userPath "a") (userPath "b")) (userPath "c"),
          .object [("max",
            .binary .add (.binary .mul (userPath "a") (userPath "b")) (userPath "c"))]]⟩ := by
  have hspace : Blank [' '] := by decide
  have hquota : PathText ⟨.resource, ["quota"], none⟩ "resource.quota".toList :=
    .mk (.segment (.bare (by decide) (by decide)) .nil)
  have hlimits : PathText ⟨.resource, ["limits"], none⟩ "resource.limits".toList :=
    .mk (.segment (.bare (by decide) (by decide)) .nil)
  have hpath : ∀ name, IsName name ∧ isDollarKey name = false → ∀ levels, Parsed.Yields
      (primary (levels + 1) ("user.".toList ++ name.toList)) (userPath name) [] :=
    fun name h levels => yields_userPath name h.1 h.2 levels
  obtain ⟨-, hrule, hlevels⟩ := reads_chains
  constructor
  · have hinner : ChainText 127 ⟨userPath "days", [(.add, userPath "extra")]⟩ _ :=
      .mk blank_nil (hpath "days" (by decide) 126)
        (.cons blank_nil blank_nil (hpath "extra" (by decide) 126) .nil) blank_nil
    have hparentheses := (hlevels 127).1 _ _ hinner
    have hchain : ChainText nestingLimit
        ⟨userPath "base", [(.sub, userPath "rate"),
          (.mul, .binary .add (userPath "days") (userPath "extra")), (.div, userPath "share")]⟩ _ :=
      .mk hspace (hpath "base" (by decide) 127)
        (.cons hspace hspace (hpath "rate" (by decide) 127)
          (.cons blank_nil blank_nil hparentheses
            (.cons hspace blank_nil (hpath "share" (by decide) 127) .nil))) blank_nil
    exact hrule _ _ _ _ _ (leftSide_of_pathText _ .gte _ blank_nil hquota (.inl (by decide)) nofun
      hspace (by decide) (by decide)) hchain
  · have hsum : ChainText 126 ⟨userPath "a", [(.mul, userPath "b"), (.add, userPath "c")]⟩ _ :=
      .mk hspace (hpath "a" (by decide) 125)
        (.cons blank_nil blank_nil (hpath "b" (by decide) 125)
          (.cons blank_nil blank_nil (hpath "c" (by decide) 125) .nil)) blank_nil
    have hkey : Parsed.Yields (objectKey "max".toList) "max" [] :=
      Parsed.yields_ok.mpr ⟨rfl, rfl⟩
    have hobject := (hlevels 126).2.2 _ _ (.last (.mk blank_nil hkey blank_nil hsum))
    have hdifference :
        ChainText 127 ⟨userPath "a", [(.sub, userPath "b"), (.sub, userPath "c")]⟩ _ :=
      .mk blank_nil (hpath "a" (by decide) 126)
        (.cons blank_nil blank_nil (hpath "b" (by decide) 126)
          (.cons blank_nil blank_nil (hpath "c" (by decide) 126) .nil)) blank_nil
    have helement := ChainText.mk hspace hobject .nil blank_nil
    have harray := (hlevels 127).2.1 _ _ (.cons hdifference (.last helement))
    have hchain : ChainText nestingLimit ⟨_, []⟩ _ := .mk blank_nil harray .nil blank_nil
    exact hrule _ _ _ _ _ (leftSide_of_pathText _ .eq _ blank_nil hlimits (.inl (by decide)) nofun
      blank_nil (by decide) (by decide)) hchain

end Abac.Rule
