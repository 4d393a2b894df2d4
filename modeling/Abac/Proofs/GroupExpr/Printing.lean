import Abac.Proofs.GroupExpr.Grammar

/-!
Writing a group expression as text and reading it back. The text has parentheses around every
conjunction and disjunction and none around a negation, so its tokens are those of the tree
(`GroupExpr.kinds`), and each step of the tree encloses what is below it in one more `NOT` or pair
of parentheses. Up to 127 steps the grammar derives the tree from them (`derives_kinds`), and from
128 steps on the reader runs out of levels on the way to the deepest name (`tooDeep_operand`): a
tree is read back from its text exactly as far as the limit allows (`parse_text`).
-/
namespace Abac.GroupExpr

structure IsPolicyName (name : String) : Prop where
  nonempty : name.toList ≠ []
  chars : ∀ c ∈ name.toList, isNameChar c = true
  noConnective : name ∉ ["AND", "OR", "NOT"]

theorem IsPolicyName.ofWord {name : String} (h : IsPolicyName name) :
    TokenKind.ofWord name = .name name := by
  have hne := h.noConnective
  simp only [List.mem_cons, List.not_mem_nil, or_false, not_or] at hne
  obtain ⟨hand, hor, hnot⟩ := hne
  rw [TokenKind.ofWord, if_neg hand, if_neg hor, if_neg hnot]

def kinds : GroupExpr → List TokenKind
  | policy name => [.name name]
  | not inner => .not :: inner.kinds
  | and lhs rhs => .opening :: (lhs.kinds ++ .and :: rhs.kinds ++ [.closing])
  | or lhs rhs => .opening :: (lhs.kinds ++ .or :: rhs.kinds ++ [.closing])

/-! ## The tokens of the text -/

section Lexing

variable {rest : List Char} {later : List TokenKind}

/-- A word between blanks, or between other characters that are in no name. -/
theorem Lexed.ofWord {word : String} (hne : word.toList ≠ [])
    (hchars : ∀ c ∈ word.toList, isNameChar c = true) (hrest : Halts isNameChar rest)
    (hlater : Lexed rest later) :
    Lexed (word.toList ++ rest) (TokenKind.ofWord word :: later) := by
  have hword := Lexed.word hne hchars hrest hlater
  rw [String.ofList_toList] at hword
  exact hword

/-- The text of two expressions in parentheses with a connective between them. -/
theorem lexed_pair {word left right : String} {kind : TokenKind}
    {leftKinds rightKinds : List TokenKind} (hkind : TokenKind.ofWord word = kind)
    (hne : word.toList ≠ []) (hchars : ∀ c ∈ word.toList, isNameChar c = true)
    (hleft : ∀ {rest later}, Halts isNameChar rest → Lexed rest later →
      Lexed (left.toList ++ rest) (leftKinds ++ later))
    (hright : ∀ {rest later}, Halts isNameChar rest → Lexed rest later →
      Lexed (right.toList ++ rest) (rightKinds ++ later))
    (hlater : Lexed rest later) :
    Lexed ('(' :: (left.toList ++ ' ' :: (word.toList ++ ' ' :: (right.toList ++ ')' :: rest))))
      (.opening :: (leftKinds ++ kind :: (rightKinds ++ .closing :: later))) := by
  have hblank : isBlank ' ' = true := by decide
  have hspace : ∀ rest, Halts isNameChar (' ' :: rest) := fun _ => halts_cons (by decide)
  have hclosing := hright (halts_cons (by decide)) (Lexed.closing hlater)
  have hword := Lexed.ofWord hne hchars (hspace _) (.blank hblank hclosing)
  rw [hkind] at hword
  exact .opening (hleft (hspace _) (.blank hblank hword))

/-- The text of an expression falls into its tokens, whatever stands behind it that does not go on
with a name. -/
theorem lexed_text {e : GroupExpr} (hnames : ∀ name ∈ e.occurrences, IsPolicyName name)
    (hrest : Halts isNameChar rest) (hlater : Lexed rest later) :
    Lexed (e.text.toList ++ rest) (e.kinds ++ later) := by
  induction e generalizing rest later with
  | policy name =>
    have hname := hnames name (List.mem_singleton_self name)
    have hword := Lexed.ofWord hname.nonempty hname.chars hrest hlater
    rw [hname.ofWord] at hword
    exact hword
  | not inner ih =>
    have hblank : isBlank ' ' = true := by decide
    have hinner := Lexed.blank hblank (ih hnames hrest hlater)
    have hchars : ∀ c ∈ "NOT".toList, isNameChar c = true :=
      List.all_eq_true.mp (by decide)
    have hword := Lexed.ofWord (by decide) hchars (halts_cons (by decide)) hinner
    have htext : (GroupExpr.not inner).text.toList ++ rest =
        "NOT".toList ++ ' ' :: (inner.text.toList ++ rest) := by
      simp [text]
    rw [htext]
    exact hword
  | and lhs rhs ihl ihr =>
    have hchars : ∀ c ∈ "AND".toList, isNameChar c = true :=
      List.all_eq_true.mp (by decide)
    have hl : ∀ name ∈ lhs.occurrences, IsPolicyName name :=
      fun name hmem => hnames name (List.mem_append_left _ hmem)
    have hr : ∀ name ∈ rhs.occurrences, IsPolicyName name :=
      fun name hmem => hnames name (List.mem_append_right _ hmem)
    have hkind : TokenKind.ofWord "AND" = .and := by decide
    have hpair := lexed_pair hkind (by decide) hchars (ihl hl) (ihr hr) hlater
    simpa [text, kinds] using hpair
  | or lhs rhs ihl ihr =>
    have hchars : ∀ c ∈ "OR".toList, isNameChar c = true :=
      List.all_eq_true.mp (by decide)
    have hl : ∀ name ∈ lhs.occurrences, IsPolicyName name :=
      fun name hmem => hnames name (List.mem_append_left _ hmem)
    have hr : ∀ name ∈ rhs.occurrences, IsPolicyName name :=
      fun name hmem => hnames name (List.mem_append_right _ hmem)
    have hkind : TokenKind.ofWord "OR" = .or := by decide
    have hpair := lexed_pair hkind (by decide) hchars (ihl hl) (ihr hr) hlater
    simpa [text, kinds] using hpair

end Lexing

/-! ## Within the limit -/

/-- The tokens of an expression are derived as it, at any depth that leaves room for its height. -/
theorem derives_kinds (e : GroupExpr) (depth : Nat) (h : depth + e.height ≤ 127) :
    Derives .operand depth e.kinds e := by
  induction e generalizing depth with
  | policy name => exact .name h
  | not inner ih =>
    rw [height] at h
    exact .not (by omega) (ih (depth + 1) (by omega))
  | and lhs rhs ihl ihr =>
    rw [height] at h
    have hl := ihl (depth + 1) (by omega)
    have hr := ihr (depth + 1) (by omega)
    exact .parentheses (by omega) (.alone (.and (.single hl) hr))
  | or lhs rhs ihl ihr =>
    rw [height] at h
    have hl := ihl (depth + 1) (by omega)
    have hr := ihr (depth + 1) (by omega)
    exact .parentheses (by omega) (.or (.alone (.single hl)) (.single hr))

/-! ## Beyond the limit -/

def TooDeep {α : Type} (reading : Except Failure α) : Prop :=
  ∃ left, reading = .error ⟨.nestedTooDeep, left⟩

section Failing

variable {kind : TokenKind} {join : GroupExpr → GroupExpr → GroupExpr} {operand inner : Reader}
  {lhs : GroupExpr} {token : Token} {input middle : List Token}

theorem TooDeep.map {α β : Type} {reading : Except Failure α} (h : TooDeep reading) (f : α → β) :
    TooDeep (reading.map f) := by
  obtain ⟨left, rfl⟩ := h
  exact ⟨left, rfl⟩

/-- A chain fails with its first operand. -/
theorem TooDeep.chain_first (h : TooDeep (operand input)) :
    TooDeep (chain kind join operand input) := by
  obtain ⟨left, h⟩ := h
  refine ⟨left, ?_⟩
  rw [chain, h]
  rfl

/-- A chain fails with its second operand. -/
theorem TooDeep.chain_second (hkind : token.kind = kind)
    (hlhs : Parsed.Yields (operand input) lhs (token :: middle)) (h : TooDeep (operand middle)) :
    TooDeep (chain kind join operand input) := by
  obtain ⟨shorter, hlhs⟩ := hlhs
  obtain ⟨left, h⟩ := h
  refine ⟨left, ?_⟩
  simp only [chain, bind, Except.bind, hlhs]
  rw [chainTail, if_pos hkind, h]

theorem TooDeep.operandHere_not (hkind : token.kind = .not) (h : TooDeep (inner input)) :
    TooDeep (operandHere inner (token :: input)) := by
  rw [operandHere, hkind]
  exact h.map _

theorem TooDeep.operandHere_opening (hkind : token.kind = .opening)
    (h : TooDeep (disjunction inner input)) : TooDeep (operandHere inner (token :: input)) := by
  obtain ⟨left, h⟩ := h
  refine ⟨left, ?_⟩
  rw [operandHere, hkind]
  simp only [h]

end Failing

/-- An expression lower than the levels that are left is read as an operand. -/
theorem yields_operand {e : GroupExpr} {levels : Nat} {taken : List Token} (rest : List Token)
    (hlevels : levels ≤ nestingLimit) (hheight : e.height < levels)
    (hkinds : taken.map Token.kind = e.kinds) :
    Parsed.Yields (operand levels (taken ++ rest)) e rest := by
  have hlimit : nestingLimit = 128 := rfl
  have hderives := derives_kinds e (nestingLimit - levels) (by omega)
  have hread := read_of_derives hderives taken rest hkinds
  have heq : nestingLimit - (nestingLimit - levels) = levels := by omega
  rw [heq] at hread
  exact hread

/-- The tokens of two expressions in parentheses, and where the right one stands. -/
theorem exists_pair_tokens {taken : List Token} {left right : List TokenKind} {kind : TokenKind}
    (h : taken.map Token.kind = .opening :: (left ++ kind :: right ++ [.closing])) :
    ∃ opening before token behind closing,
      taken = opening :: (before ++ token :: (behind ++ [closing])) ∧ opening.kind = .opening ∧
        before.map Token.kind = left ∧ token.kind = kind ∧ behind.map Token.kind = right := by
  obtain ⟨opening, others, rfl, hopening, hothers⟩ := List.map_eq_cons_iff.mp h
  rw [List.append_assoc, List.cons_append] at hothers
  obtain ⟨before, token, last, rfl, hbefore, htoken, hlast⟩ := exists_append_of_map_kind hothers
  obtain ⟨behind, final, rfl, hbehind, hend⟩ := List.map_eq_append_iff.mp hlast
  obtain ⟨closing, rfl, -⟩ := List.map_eq_singleton_iff.mp hend
  exact ⟨opening, before, token, behind, closing, rfl, hopening, hbefore, htoken, hbehind⟩

/-- An expression as high as the levels that are left, or higher, is not read. The failure is met on
the left side first, where that is high enough, and else behind the left side. -/
theorem tooDeep_operand (e : GroupExpr) (levels : Nat) {taken : List Token} (rest : List Token)
    (hlevels : levels ≤ nestingLimit) (hheight : levels ≤ e.height)
    (hkinds : taken.map Token.kind = e.kinds) : TooDeep (operand levels (taken ++ rest)) := by
  induction e generalizing levels taken rest with
  | policy name =>
    have hzero : levels = 0 := Nat.le_zero.mp hheight
    subst hzero
    exact ⟨_, rfl⟩
  | not inner ih =>
    cases levels with
    | zero => exact ⟨_, rfl⟩
    | succ levels =>
      obtain ⟨token, behind, rfl, htoken, hbehind⟩ := List.map_eq_cons_iff.mp hkinds
      rw [height] at hheight
      have hinner := ih levels rest (by omega) (by omega) hbehind
      exact hinner.operandHere_not htoken
  | and lhs rhs ihl ihr =>
    cases levels with
    | zero => exact ⟨_, rfl⟩
    | succ levels =>
      obtain ⟨opening, before, token, behind, closing, rfl, hopening, hbefore, htoken, hbehind⟩ :=
        exists_pair_tokens hkinds
      rw [height] at hheight
      rw [List.cons_append, List.append_assoc, List.cons_append, List.append_assoc]
      apply TooDeep.operandHere_opening hopening
      apply TooDeep.chain_first
      by_cases hl : levels ≤ lhs.height
      · have hleft := ihl levels (token :: (behind ++ ([closing] ++ rest))) (by omega) hl hbefore
        exact hleft.chain_first
      · have hright := ihr levels ([closing] ++ rest) (by omega) (by omega) hbehind
        exact .chain_second htoken (yields_operand _ (by omega) (by omega) hbefore) hright
  | or lhs rhs ihl ihr =>
    cases levels with
    | zero => exact ⟨_, rfl⟩
    | succ levels =>
      obtain ⟨opening, before, token, behind, closing, rfl, hopening, hbefore, htoken, hbehind⟩ :=
        exists_pair_tokens hkinds
      rw [height] at hheight
      rw [List.cons_append, List.append_assoc, List.cons_append, List.append_assoc]
      apply TooDeep.operandHere_opening hopening
      by_cases hl : levels ≤ lhs.height
      · have hleft := ihl levels (token :: (behind ++ ([closing] ++ rest))) (by omega) hl hbefore
        exact hleft.chain_first.chain_first
      · have hright := ihr levels ([closing] ++ rest) (by omega) (by omega) hbehind
        generalize behind ++ ([closing] ++ rest) = last at hright ⊢
        -- The left side is a conjunction of one operand here, which ends at the connective.
        have hhalts : Halts (fun token => token.kind = .and) (token :: last) :=
          halts_cons (by simp [htoken])
        have hleft : Parsed.Yields (chain .and .and (operand levels) (before ++ token :: last)) lhs
            (token :: last) :=
          yields_chain.mpr ⟨lhs, _, yields_operand _ (by omega) (by omega) hbefore,
            yields_chainTail_of_halts lhs hhalts⟩
        have hsecond : TooDeep (chain .and .and (operand levels) last) := hright.chain_first
        exact .chain_second htoken hleft hsecond

/-- An expression is read back from its text if its height is at most 127, and if it is 128 or more
the text is refused because it nests too deep. -/
theorem parse_text (e : GroupExpr) (hnames : ∀ name ∈ e.occurrences, IsPolicyName name) :
    (e.height ≤ 127 → parse e.text = .ok e) ∧
      (128 ≤ e.height →
        ∃ offset, parse e.text = .error (.expression e.text offset .nestedTooDeep)) := by
  have hlexed := lexed_text hnames (halts_nil isNameChar) .done
  rw [List.append_nil, List.append_nil] at hlexed
  obtain ⟨input, hinput, hkinds⟩ := tokens_of_lexed hlexed
  constructor
  · intro hheight
    have hoperand := derives_kinds e 0 (by omega)
    refine parse_eq_ok_iff.mpr ⟨input, hinput, ofTokens_eq_ok_iff.mpr ?_⟩
    rw [hkinds]
    exact .alone (.single hoperand)
  · intro hheight
    have hoperand := tooDeep_operand e nestingLimit [] (Nat.le_refl _) hheight hkinds
    rw [List.append_nil] at hoperand
    obtain ⟨left, hdisjunction⟩ : TooDeep (disjunction (operand nestingLimit) input) :=
      hoperand.chain_first.chain_first
    refine ⟨e.text.toList.length - left, ?_⟩
    simp only [parse, bind, Except.bind, hinput, ofTokens, hdisjunction]

def negations (count : Nat) (name : String) : GroupExpr :=
  count.repeat .not (.policy name)

theorem height_negations (count : Nat) (name : String) : (negations count name).height = count := by
  induction count with
  | zero => rfl
  | succ count ih => exact congrArg (· + 1) ih

theorem occurrences_negations (count : Nat) (name : String) :
    (negations count name).occurrences = [name] := by
  induction count with
  | zero => rfl
  | succ count ih => exact ih

/-- The last expression that is read back and the first that is not. -/
theorem parse_text_negations :
    parse (negations 127 "admin").text = .ok (negations 127 "admin") ∧
      ∃ offset, parse (negations 128 "admin").text =
        .error (.expression (negations 128 "admin").text offset .nestedTooDeep) := by
  have hname : IsPolicyName "admin" := ⟨by decide, List.all_eq_true.mp (by decide), by decide⟩
  have hnames : ∀ count, ∀ name ∈ (negations count "admin").occurrences, IsPolicyName name := by
    intro count name hmem
    rw [occurrences_negations] at hmem
    exact List.mem_singleton.mp hmem ▸ hname
  have hheight := fun count => height_negations count "admin"
  have hlast := (parse_text (negations 127 "admin") (hnames 127)).1 (Nat.le_of_eq (hheight 127))
  have hfirst :=
    (parse_text (negations 128 "admin") (hnames 128)).2 (Nat.le_of_eq (hheight 128).symm)
  exact ⟨hlast, hfirst⟩

end Abac.GroupExpr
