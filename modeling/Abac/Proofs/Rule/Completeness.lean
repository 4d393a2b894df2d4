import Abac.Proofs.Rule.Readers

/-!
What is written is read. Behind an operand of a sum or of a product the reader ends where it would
end if it had the expression so far in its hands, and every other phrase it reads alone, whatever
stands behind the phrase that does not go on with it (`read_of_writes`). So every text of a rule is
read as that rule, whatever blanks stand between its tokens (`parse_written`).
-/
namespace Abac.Rule

/-- How a phrase with `levels` levels left is read, with blanks in front. -/
def Read (levels : Nat) (text : List Char) : Phrase → Prop
  | .primary e => ∀ lead rest, Blank lead → Halts goesOn rest →
      Parsed.Yields (primary levels (lead ++ (text ++ rest))) e rest
  | .product e => ∀ lead rest final last, Blank lead → Halts goesOn rest →
      Continued.Yields (chainTail productOperator? (primary levels) e rest) final last →
        Parsed.Yields (chain productOperator? (primary levels) (lead ++ (text ++ rest))) final last
  | .sum e => ∀ lead rest final last, Blank lead → Halts goesOn rest →
      Halts (fun c => (productOperator? c).isSome) (skipBlank rest) →
      Continued.Yields
        (chainTail sumOperator? (chain productOperator? (primary levels)) e rest) final last →
        Parsed.Yields (arithmetic (primary levels) (lead ++ (text ++ rest))) final last
  | .elements items => ∀ lead behind rest, Blank lead → Blank behind →
      Parsed.Yields
        (elements (arithmetic (primary levels)) (lead ++ (text ++ (behind ++ ']' :: rest)))) items
        rest
  | .entries pairs => ∀ lead behind rest, Blank lead → Blank behind →
      Parsed.Yields
        (entries (arithmetic (primary levels)) (lead ++ (text ++ (behind ++ '}' :: rest)))) pairs
        rest

/-- A primary at an allowed depth has a level left. -/
theorem exists_levels {depth : Nat} (h : depth ≤ 127) :
    nestingLimit - depth = nestingLimit - (depth + 1) + 1 := by
  rw [nestingLimit]
  omega

/-- Behind blanks the reader stands where the text opens. -/
theorem skipBlank_opens {lead text : List Char} (hlead : Blank lead) (htext : Opens text)
    (rest : List Char) : skipBlank (lead ++ (text ++ rest)) = text ++ rest := by
  rw [skipBlank_append hlead, (htext.append rest).skipBlank]

/-- Behind blanks the reader stands at the mark that follows. -/
theorem skipBlank_mark {blanks : List Char} (hblanks : Blank blanks) {c : Char}
    (hc : isBlank c = false) (rest : List Char) : skipBlank (blanks ++ c :: rest) = c :: rest := by
  rw [skipBlank_append hblanks, skipBlank_cons hc]

/-- The marks that stand behind an expression: they go on with no token and are no operators. -/
def Ends (c : Char) : Prop :=
  isBlank c = false ∧ goesOn c = false ∧ sumOperator? c = none ∧ productOperator? c = none

theorem ends_of_mem {c : Char} (h : c ∈ [')', ']', '}', ',']) : Ends c := by
  simp only [List.mem_cons, List.not_mem_nil, or_false] at h
  rcases h with rfl | rfl | rfl | rfl <;> exact ⟨by decide, by decide, rfl, rfl⟩

/-- An expression is read alone where no operator follows. -/
theorem Read.yields_sum {levels : Nat} {e : Expr} {text : List Char}
    (h : Read levels text (.sum e)) {lead rest : List Char} (hlead : Blank lead)
    (hrest : Halts goesOn rest)
    (hsum : Halts (fun c => (sumOperator? c).isSome) (skipBlank rest))
    (hproduct : Halts (fun c => (productOperator? c).isSome) (skipBlank rest)) :
    Parsed.Yields (arithmetic (primary levels) (lead ++ (text ++ rest))) e rest :=
  h lead rest e rest hlead hrest hproduct (yields_chainTail_stop e hsum)

/-- An expression is read up to a mark that ends it. -/
theorem Read.yields_before {levels : Nat} {e : Expr} {text : List Char}
    (h : Read levels text (.sum e)) {lead behind : List Char} (hlead : Blank lead)
    (hbehind : Blank behind) {c : Char} (hc : Ends c) (rest : List Char) :
    Parsed.Yields (arithmetic (primary levels) (lead ++ (text ++ (behind ++ c :: rest)))) e
      (behind ++ c :: rest) := by
  obtain ⟨hblank, hgoes, hsum, hproduct⟩ := hc
  have hskip := skipBlank_mark hbehind hblank rest
  refine h.yields_sum hlead (halts_goesOn_append hbehind (halts_cons hgoes)) ?_ ?_
  · rw [hskip]
    exact halts_cons (by rw [hsum]; rfl)
  · rw [hskip]
    exact halts_cons (by rw [hproduct]; rfl)

theorem sumOperator?_eq_some {c : Char} {op : Arithmetic} (h : sumOperator? c = some op) :
    isBlank c = false ∧ goesOn c = false ∧ productOperator? c = none := by
  have hc : c = '+' ∨ c = '-' := by
    unfold sumOperator? at h
    split at h
    · exact .inl rfl
    · exact .inr rfl
    · cases h
  rcases hc with rfl | rfl <;> exact ⟨by decide, by decide, rfl⟩

theorem productOperator?_eq_some {c : Char} {op : Arithmetic}
    (h : productOperator? c = some op) : isBlank c = false ∧ goesOn c = false := by
  have hc : c = '*' ∨ c = '/' := by
    unfold productOperator? at h
    split at h
    · exact .inl rfl
    · exact .inr rfl
    · cases h
  rcases hc with rfl | rfl <;> exact ⟨by decide, by decide⟩

/-- The text of two operands with an operator between them, in front of a rest. -/
theorem operands_append (left before behind right rest : List Char) (c : Char) :
    left ++ (before ++ c :: (behind ++ right)) ++ rest =
      left ++ (before ++ c :: (behind ++ (right ++ rest))) := by
  simp only [List.append_assoc, List.cons_append]

/-- The text between two brackets, in front of a rest. -/
theorem enclosed_append (opening closing : Char) (before text behind rest : List Char) :
    opening :: (before ++ (text ++ (behind ++ [closing]))) ++ rest =
      opening :: (before ++ (text ++ (behind ++ closing :: rest))) := by
  simp only [List.append_assoc, List.cons_append, List.nil_append]

theorem empty_append (opening closing : Char) (blanks rest : List Char) :
    opening :: (blanks ++ [closing]) ++ rest = opening :: (blanks ++ closing :: rest) := by
  simp only [List.append_assoc, List.cons_append, List.nil_append]

/-- An operator and the operand behind it are read, whatever blanks stand around the operator. -/
theorem yields_operator {operator? : Char → Option Arithmetic} {operand : Reader Expr}
    {before behind right rest last : List Char} {c : Char} {op : Arithmetic} {lhs rhs e : Expr}
    (hop : operator? c = some op) (hblank : isBlank c = false) (hbefore : Blank before)
    (hbehind : Blank behind) (hright : Opens right)
    (hread : Parsed.Yields (operand (right ++ rest)) rhs rest)
    (htail : Continued.Yields (chainTail operator? operand (.binary op lhs rhs) rest) e last) :
    Continued.Yields
      (chainTail operator? operand lhs (before ++ c :: (behind ++ (right ++ rest)))) e last := by
  refine yields_chainTail_step (skipBlank_mark hbefore hblank _) hop ?_ htail
  rw [skipBlank_opens hbehind hright rest]
  exact hread

/-- A primary that starts with a bracket is read from there. -/
theorem yields_bracket {levels : Nat} {lead text rest : List Char} {opening : Char} {e : Expr}
    (hlead : Blank lead) (hopening : isBlank opening = false)
    (h : Parsed.Yields (primaryHere (arithmetic (primary levels)) (opening :: text)) e rest) :
    Parsed.Yields (primary (levels + 1) (lead ++ opening :: text)) e rest := by
  apply yields_primary
  rw [skipBlank_mark hlead hopening]
  exact h

/-- A key, a colon and a value are read as an entry, with blanks in front. -/
theorem yields_keyed {item : Reader Expr} {key : String} {lead keyText before text rest : List Char}
    {e : Expr} (hlead : Blank lead) (hkey : KeyText key keyText) (hbefore : Blank before)
    (h : Parsed.Yields (item text) e rest) :
    Parsed.Yields (entry item (lead ++ (keyText ++ (before ++ ':' :: text)))) (key, e) rest := by
  have hname : Halts isNameChar (before ++ ':' :: text) :=
    halts_isNameChar (halts_goesOn_append hbefore (halts_cons (by decide)))
  have hread := yields_objectKey hkey hname
  rw [← skipBlank_opens hlead hkey.opens] at hread
  exact yields_entry hread (skipBlank_mark hbefore (by decide) text) h

/-- Every phrase is read as what it was written for. -/
theorem read_of_writes {phrase : Phrase} {depth : Nat} {text : List Char}
    (h : Writes phrase depth text) : Read (nestingLimit - depth) text phrase := by
  induction h with
  | product _ ih =>
    intro lead rest final last hlead hrest hproduct htail
    exact yields_chain (ih lead rest _ rest hlead hrest (yields_chainTail_stop _ hproduct)) htail
  | @add depth l r left before behind right c op hop _ hbefore hbehind hr ihl ihr =>
    intro lead rest final last hlead hrest hproduct htail
    obtain ⟨hblank, hgoes, hnone⟩ := sumOperator?_eq_some hop
    -- The right operand is read alone. The left one is not: its reader goes on over the operator.
    have hright := ihr [] rest r rest blank_nil hrest (yields_chainTail_stop r hproduct)
    have hstep := yields_operator hop hblank hbefore hbehind hr.opens hright htail
    rw [operands_append]
    refine ihl lead _ final last hlead (halts_goesOn_append hbefore (halts_cons hgoes)) ?_ hstep
    rw [skipBlank_mark hbefore hblank]
    exact halts_cons (by rw [hnone]; rfl)
  | primary _ ih =>
    intro lead rest final last hlead hrest htail
    exact yields_chain (ih lead rest hlead hrest) htail
  | @multiply depth l r left before behind right c op hop _ hbefore hbehind hr ihl ihr =>
    intro lead rest final last hlead hrest htail
    obtain ⟨hblank, hgoes⟩ := productOperator?_eq_some hop
    have hright := ihr [] rest blank_nil hrest
    have hstep := yields_operator hop hblank hbefore hbehind hr.opens hright htail
    rw [operands_append]
    exact ihl lead _ final last hlead (halts_goesOn_append hbefore (halts_cons hgoes)) hstep
  | atom hdepth h =>
    intro lead rest hlead hrest
    rw [exists_levels hdepth]
    apply yields_primary
    rw [skipBlank_opens hlead h.opens]
    exact yields_atom h hrest
  | @parentheses depth e text before behind hdepth hbefore h hbehind ih =>
    intro lead rest hlead _
    have hinner := ih.yields_before blank_nil hbehind (ends_of_mem (c := ')') (by decide)) rest
    rw [exists_levels hdepth, enclosed_append]
    refine yields_bracket hlead (by decide) (yields_parentheses (yields_parenthesized ?_
      (skipBlank_mark hbehind (by decide) rest)))
    rw [skipBlank_opens hbefore h.opens]
    exact hinner
  | @emptyArray depth blanks hdepth hblanks =>
    intro lead rest hlead _
    rw [exists_levels hdepth, empty_append]
    exact yields_bracket hlead (by decide) (yields_brackets (yields_arrayBody_nil
      (skipBlank_mark hblanks (by decide) rest)))
  | @array depth items text before behind hdepth hbefore h hbehind ih =>
    intro lead rest hlead _
    -- What opens the first element is no bracket that closes, so the array is not the empty one.
    have hskip := skipBlank_opens hbefore h.opens (behind ++ ']' :: rest)
    rw [exists_levels hdepth, enclosed_append]
    refine yields_bracket hlead (by decide) (yields_brackets (yields_arrayBody ?_ ?_))
    · rw [hskip]
      exact h.opens.append _
    · rw [hskip]
      exact ih [] behind rest blank_nil hbehind
  | @emptyObject depth blanks hdepth hblanks =>
    intro lead rest hlead _
    rw [exists_levels hdepth, empty_append]
    exact yields_bracket hlead (by decide) (yields_braces (yields_objectBody_nil
      (skipBlank_mark hblanks (by decide) rest)))
  | @object depth pairs text before behind hdepth hbefore h hbehind ih =>
    intro lead rest hlead _
    have hskip := skipBlank_opens hbefore h.opens (behind ++ '}' :: rest)
    rw [exists_levels hdepth, enclosed_append]
    refine yields_bracket hlead (by decide) (yields_braces (yields_objectBody ?_ ?_))
    · rw [hskip]
      exact h.opens.append _
    · rw [hskip]
      exact ih [] behind rest blank_nil hbehind
  | lastElement _ ih =>
    intro lead behind rest hlead hbehind
    exact yields_elements_last (ih.yields_before hlead hbehind (ends_of_mem (by decide)) rest)
      (skipBlank_mark hbehind (by decide) rest)
  | @element depth e items text before behind more h hbefore hbehind hmore ih ihmore =>
    intro lead last rest hlead hlast
    rw [operands_append]
    exact yields_elements_cons (ih.yields_before hlead hbefore (ends_of_mem (by decide)) _)
      (skipBlank_mark hbefore (by decide) _) (ihmore behind last rest hbehind hlast)
  | @lastEntry depth key e keyText before behind text hkey hbefore hbehind h ih =>
    intro lead last rest hlead hlast
    have hvalue := ih.yields_before hbehind hlast (ends_of_mem (c := '}') (by decide)) rest
    rw [operands_append]
    exact yields_entries_last (yields_keyed hlead hkey hbefore hvalue)
      (skipBlank_mark hlast (by decide) rest)
  | @entry depth key e pairs keyText before behind text before' behind' more hkey hbefore hbehind
      h hbefore' hbehind' hmore ih ihmore =>
    intro lead last rest hlead hlast
    have hvalue := ih.yields_before hbehind hbefore' (ends_of_mem (c := ',') (by decide))
      (behind' ++ (more ++ (last ++ '}' :: rest)))
    rw [operands_append, operands_append]
    exact yields_entries_cons (yields_keyed hlead hkey hbefore hvalue)
      (skipBlank_mark hbefore' (by decide) _) (ihmore behind' last rest hbehind' hlast)

/-! ## Rules -/

/-- A comparator starts with a mark that goes on with no path. -/
theorem symbol_eq_cons (c : Comparator) :
    ∃ mark more, c.symbol.toList = mark :: more ∧ isBlank mark = false ∧ goesOn mark = false := by
  cases c <;> exact ⟨_, _, rfl, by decide, by decide⟩

/-- Neither blanks nor a phrase go on with a comparator. -/
theorem head?_ne_eq {behind text : List Char} (hbehind : Blank behind) (htext : Opens text)
    (rest : List Char) : (behind ++ (text ++ rest)).head? ≠ some '=' := by
  intro hhead
  cases behind with
  | nil =>
    obtain ⟨c, more, rfl, -, -, -, hc⟩ := htext
    exact hc (Option.some.inj hhead)
  | cons blank behind =>
    have hblank := hbehind blank List.mem_cons_self
    obtain rfl : blank = '=' := Option.some.inj hhead
    exact absurd hblank (by decide)

/-- A text is read as a rule if its parts are read one behind the other and nothing is left. -/
theorem statement_eq_ok {text afterPath afterComparator trail : List Char} {path : AttributePath}
    {c : Comparator} {e : Expr}
    (hpath : Parsed.Yields (assignedPath (skipBlank text)) path afterPath)
    (hcomparator : Parsed.Yields (comparator (skipBlank afterPath)) c afterComparator)
    (hkey : path.key.isSome = true → c = .eq)
    (hexpr : Parsed.Yields (expression (skipBlank afterComparator)) e trail)
    (htrail : skipBlank trail = []) : statement text = .ok ⟨path, c, e⟩ := by
  obtain ⟨shorter, hpath⟩ := hpath
  obtain ⟨shorter', hcomparator⟩ := hcomparator
  obtain ⟨shorter'', hexpr⟩ := hexpr
  have hassigned : ¬(path.key.isSome = true ∧ c ≠ .eq) := fun ⟨hsome, hne⟩ => hne (hkey hsome)
  rw [statement]
  simp only [bind, Except.bind, hpath, hcomparator, if_neg hassigned, hexpr, htrail, pure,
    Except.pure]

/-- A written rule is read as its path, its comparator and its expression. -/
theorem statement_of_writesRule {path : AttributePath} {c : Comparator} {e : Expr}
    {text : List Char} (h : WritesRule path c e text) : statement text = .ok ⟨path, c, e⟩ := by
  obtain ⟨hlead, hpathText, hpath, hkey, hbefore, hbehind, htext, htrail⟩ := h
  next lead pathText before behind text trail =>
  obtain ⟨mark, more, hsymbol, hmark, hgoes⟩ := symbol_eq_cons c
  have hend := skipBlank_eq_nil htrail
  have htrailHalts : Halts goesOn trail := by
    rw [← List.append_nil trail]
    exact halts_goesOn_append htrail (halts_nil goesOn)
  have hreadExpr : Parsed.Yields (expression (text ++ trail)) e trail :=
    (read_of_writes htext).yields_sum blank_nil htrailHalts (by rw [hend]; exact halts_nil _)
      (by rw [hend]; exact halts_nil _)
  rw [← skipBlank_opens hbehind htext.opens trail] at hreadExpr
  have hreadComparator := yields_comparator c (head?_ne_eq hbehind htext.opens trail)
  rw [hsymbol, List.cons_append, ← skipBlank_mark hbefore hmark] at hreadComparator
  have hmarkHalts : Halts goesOn (before ++ mark :: (more ++ (behind ++ (text ++ trail)))) :=
    halts_goesOn_append hbefore (halts_cons hgoes)
  have hreadPath := yields_assignedPath hpathText hpath hmarkHalts
  rw [← skipBlank_opens hlead hpathText.opens] at hreadPath
  rw [hsymbol, List.cons_append]
  exact statement_eq_ok hreadPath hreadComparator hkey hreadExpr hend

/-- A well-formed rule can be written, and from every text of it the rule is read back: the same
path, comparator and expression, with the text. -/
theorem parse_written {path : AttributePath} {c : Comparator} {e : Expr}
    (h : WellFormedRule path c e) :
    (∃ source : String, WritesRule path c e source.toList) ∧
      ∀ source : String, WritesRule path c e source.toList →
        parse source = .ok ⟨source, path, c, e⟩ := by
  constructor
  · obtain ⟨text, htext⟩ := h.exists_writesRule
    refine ⟨String.ofList text, ?_⟩
    rw [String.toList_ofList]
    exact htext
  · intro source hsource
    rw [parse, statement_of_writesRule hsource]

def minusOneAndHalf : NumberText := ⟨true, ['1'], some ['5'], none⟩

theorem minusOneAndHalf_valid : minusOneAndHalf.Valid where
  whole := List.all_eq_true.mp (by decide)
  fraction := List.all_eq_true.mp (by decide)
  nonempty := .inl (by decide)
  power := nofun

def scaledQuota : Expr :=
  .binary .mul
    (.binary .sub (.path ⟨.user, ["quota"], none⟩) (.literal (.number minusOneAndHalf.value)))
    (.path ⟨.user, ["rate"], none⟩)

/-- A minus stands between two operands and another one in front of a number; blanks stand around
the equality and in front of the star only. -/
theorem parse_written_scaledQuota :
    WellFormedRule ⟨.resource, ["limit"], some "$lte"⟩ .eq scaledQuota ∧
      WritesRule ⟨.resource, ["limit"], some "$lte"⟩ .eq scaledQuota
        "resource.limit.$lte = (user.quota--1.5) *user.rate".toList ∧
      parse "resource.limit.$lte = (user.quota--1.5) *user.rate" =
        .ok ⟨"resource.limit.$lte = (user.quota--1.5) *user.rate",
          ⟨.resource, ["limit"], some "$lte"⟩, .eq, scaledQuota⟩ := by
  have hwellFormed : WellFormedRule ⟨.resource, ["limit"], some "$lte"⟩ .eq scaledQuota :=
    { attribute_or_combinator := .inl (by decide)
      key := by
        rintro key ⟨⟩
        exact ⟨by decide, by decide, rfl⟩
      expr := ⟨⟨rfl, minusOneAndHalf, minusOneAndHalf_valid, rfl⟩, rfl⟩
      enclosure := by decide }
  have hspace : Blank [' '] := by decide
  have hpath : PathText ⟨.resource, ["limit"], some "$lte"⟩ "resource.limit.$lte".toList :=
    .mk (.segment (.bare (by decide) (by decide)) (.key (by decide) (by decide)))
  have hquota : Writes (.primary (.path ⟨.user, ["quota"], none⟩)) 1 "user.quota".toList :=
    .atom (by decide) (.path (.mk (.segment (.bare (by decide) (by decide)) .nil)) rfl)
  have hnumber : Writes (.primary (.literal (.number minusOneAndHalf.value))) 1 "-1.5".toList :=
    .atom (by decide) (.number minusOneAndHalf_valid)
  have hrate : Writes (.primary (.path ⟨.user, ["rate"], none⟩)) 0 "user.rate".toList :=
    .atom (by decide) (.path (.mk (.segment (.bare (by decide) (by decide)) .nil)) rfl)
  have hdifference := Writes.add (c := '-') rfl (.product (.primary hquota)) blank_nil blank_nil
    (.primary hnumber)
  have hproduct := Writes.multiply (c := '*') rfl
    (.primary (.parentheses (by decide) blank_nil hdifference blank_nil)) hspace blank_nil hrate
  have hwrites : WritesRule ⟨.resource, ["limit"], some "$lte"⟩ .eq scaledQuota
      "resource.limit.$lte = (user.quota--1.5) *user.rate".toList :=
    .mk blank_nil hpath (.inl (by decide)) (fun _ => rfl) hspace hspace (.product hproduct)
      blank_nil
  exact ⟨hwellFormed, hwrites, (parse_written hwellFormed).2 _ hwrites⟩

end Abac.Rule
