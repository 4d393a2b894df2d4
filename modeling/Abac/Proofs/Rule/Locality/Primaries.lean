import Abac.Proofs.Rule.Acceptance
import Abac.Proofs.Rule.Completeness
import Abac.Proofs.Rule.Locality.Numbers

/-!
Expressions with more behind them. A chain goes on as long as it finds an operator, so it is read in
a longer text as it is read alone if it ended at a mark (`LocalBefore`). That is so inside of
parentheses, brackets and braces, where the mark is one of those that close or separate, and each of
these is read to its closing mark whatever stands behind. So a primary that is read alone is read as
well in front of anything that does not go on with its last token (`local_primary`).
-/
namespace Abac.Rule

section Readers

variable {operator? : Char → Option Arithmetic} {operand item : Reader Expr} {lhs e : Expr}
  {text rest : List Char}

/-! ## Chains -/

/-- Where a chain ended at a mark, a mark stood before each of its operators as well. -/
theorem marked_of_chainTail (hoperator : ∀ c op, operator? c = some op → goesOn c = false)
    (h : Continued.Yields (chainTail operator? operand lhs text) e rest) (hrest : Marked rest) :
    Marked text := by
  rw [chainTail] at h
  split at h
  · obtain ⟨-, rfl⟩ := Continued.yields_ok.mp h
    exact hrest
  · next c behind hskip =>
    split at h
    · obtain ⟨-, rfl⟩ := Continued.yields_ok.mp h
      exact hrest
    · next op hop => exact ⟨c, behind, hskip, hoperator c op hop⟩

theorem yields_chainTail_append (hoperator : ∀ c op, operator? c = some op → goesOn c = false)
    (hoperand : LocalBefore operand)
    (h : Continued.Yields (chainTail operator? operand lhs text) e rest) (hrest : Marked rest)
    (more : List Char) :
    Continued.Yields (chainTail operator? operand lhs (text ++ more)) e (rest ++ more) := by
  fun_induction chainTail operator? operand lhs text with
  | case1 lhs text hskip =>
    obtain ⟨rfl, rfl⟩ := Continued.yields_ok.mp h
    obtain ⟨mark, behind, hmark, -⟩ := hrest
    exact absurd (hskip.symm.trans hmark) (List.cons_ne_nil mark behind).symm
  | case2 lhs text c behind hskip hop =>
    obtain ⟨rfl, rfl⟩ := Continued.yields_ok.mp h
    refine yields_chainTail_stop lhs ?_
    rw [skipBlank_append_of_cons hskip]
    exact halts_cons (by rw [hop]; rfl)
  | case3 lhs text c behind hskip op hop failure hread => exact absurd h Continued.not_yields_error
  | case4 lhs text c behind hskip op hop rhs middle shorter hread ih =>
    have htail := h.of_map (fun _ => rfl) fun _ => rfl
    have hmiddle := marked_of_chainTail hoperator htail hrest
    have hrhs := hoperand _ _ _ more ⟨shorter, hread⟩ hmiddle
    rw [← skipBlank_append_of_yields operand ⟨shorter, hread⟩] at hrhs
    exact yields_chainTail_step (skipBlank_append_of_cons hskip more) hop hrhs (ih htail)

/-- A chain is read from its first operand. -/
theorem exists_of_chain (h : Parsed.Yields (chain operator? operand text) e rest) :
    ∃ lhs middle, Parsed.Yields (operand text) lhs middle ∧
      Continued.Yields (chainTail operator? operand lhs middle) e rest := by
  obtain ⟨p, hlhs, h⟩ := Parsed.yields_bind_iff.mp h
  obtain ⟨q, htail, h⟩ := Parsed.yields_bind_iff.mp h
  obtain ⟨rfl, rfl⟩ := Parsed.yields_ok.mp h
  exact ⟨p.value, p.rest, ⟨p.shorter, hlhs⟩, ⟨q.notLonger, htail⟩⟩

theorem LocalBefore.chain (hoperator : ∀ c op, operator? c = some op → goesOn c = false)
    (hoperand : LocalBefore operand) : LocalBefore (Rule.chain operator? operand) := by
  intro text e rest more h hrest
  obtain ⟨lhs, middle, hlhs, htail⟩ := exists_of_chain h
  have hmiddle := marked_of_chainTail hoperator htail hrest
  have hfirst := hoperand _ _ _ more hlhs hmiddle
  exact yields_chain hfirst (yields_chainTail_append hoperator hoperand htail hrest more)

theorem LocalBefore.arithmetic (h : LocalBefore operand) : LocalBefore (Rule.arithmetic operand) :=
  LocalBefore.chain (fun _ _ hop => (sumOperator?_eq_some hop).2.1)
    (LocalBefore.chain (fun _ _ hop => (productOperator?_eq_some hop).2) h)

/-! ## Brackets -/

variable (hitem : LocalBefore item) (more : List Char)

include hitem

theorem yields_parenthesized_append (h : Parsed.Yields (parenthesized item text) e rest) :
    Parsed.Yields (parenthesized item (text ++ more)) e (rest ++ more) := by
  rw [parenthesized] at h
  split at h
  · exact absurd h Parsed.not_yields_error
  · next expr middle shorter hread =>
    split at h
    · next behind hskip =>
      obtain ⟨rfl, rfl⟩ := Parsed.yields_ok.mp h
      have hinner := hitem _ _ _ more ⟨shorter, hread⟩ ⟨')', behind, hskip, by decide⟩
      rw [← skipBlank_append_of_yields item ⟨shorter, hread⟩] at hinner
      exact yields_parenthesized hinner (skipBlank_append_of_cons hskip more)
    · exact absurd h Parsed.not_yields_error

theorem yields_elements_append {items : List Expr}
    (h : Parsed.Yields (elements item text) items rest) :
    Parsed.Yields (elements item (text ++ more)) items (rest ++ more) := by
  fun_induction elements item text generalizing items with
  | case1 text failure hread => exact absurd h Parsed.not_yields_error
  | case2 text e middle shorter hread behind hskip ih =>
    obtain ⟨others, hothers, rfl⟩ := h.exists_of_map (e :: ·) (fun _ => rfl) fun _ => rfl
    have hfirst := hitem _ _ _ more ⟨shorter, hread⟩ ⟨',', behind, hskip, by decide⟩
    exact yields_elements_cons hfirst (skipBlank_append_of_cons hskip more) (ih hothers)
  | case3 text e middle shorter hread behind hskip =>
    obtain ⟨rfl, rfl⟩ := Parsed.yields_ok.mp h
    have hfirst := hitem _ _ _ more ⟨shorter, hread⟩ ⟨']', behind, hskip, by decide⟩
    exact yields_elements_last hfirst (skipBlank_append_of_cons hskip more)
  | case4 text e middle shorter hread => exact absurd h Parsed.not_yields_error

theorem yields_arrayBody_append (h : Parsed.Yields (arrayBody item text) e rest) :
    Parsed.Yields (arrayBody item (text ++ more)) e (rest ++ more) := by
  rw [arrayBody] at h
  split at h
  · next behind hskip =>
    obtain ⟨rfl, rfl⟩ := Parsed.yields_ok.mp h
    exact yields_arrayBody_nil (skipBlank_append_of_cons hskip more)
  · next hopen =>
    obtain ⟨items, hitems, rfl⟩ := h.exists_of_map Expr.array (fun _ => rfl) fun _ => rfl
    have hskip := skipBlank_append_of_yields (elements item) hitems more
    have hlonger := yields_elements_append hitem more hitems
    rw [← hskip] at hlonger
    refine yields_arrayBody_of_ne (fun behind hclose => ?_) hlonger
    obtain ⟨c, last, hc⟩ := exists_cons_of_yields (elements item) hitems
    rw [hskip, hc, List.cons_append] at hclose
    obtain ⟨rfl, -⟩ := List.cons.inj hclose
    exact hopen last hc

theorem LocalBefore.entry : LocalBefore (Rule.entry item) := by
  intro text pair rest more h hrest
  rw [Rule.entry] at h
  split at h
  · exact absurd h Parsed.not_yields_error
  · next key middle shorter hread =>
    split at h
    · next behind hskip =>
      obtain ⟨e, he, rfl⟩ := h.exists_of_map (Prod.mk key) (fun _ => rfl) fun _ => rfl
      have hmark : Marked middle := ⟨':', behind, hskip, by decide⟩
      have hkey := local_objectKey.before _ _ _ more ⟨shorter, hread⟩ hmark
      rw [← skipBlank_append_of_yields objectKey ⟨shorter, hread⟩] at hkey
      have hvalue := hitem _ _ _ more he hrest
      exact yields_entry hkey (skipBlank_append_of_cons hskip more) hvalue
    · exact absurd h Parsed.not_yields_error

theorem yields_entries_append {pairs : List (String × Expr)}
    (h : Parsed.Yields (entries item text) pairs rest) :
    Parsed.Yields (entries item (text ++ more)) pairs (rest ++ more) := by
  fun_induction entries item text generalizing pairs with
  | case1 text failure hread => exact absurd h Parsed.not_yields_error
  | case2 text pair middle shorter hread behind hskip ih =>
    obtain ⟨others, hothers, rfl⟩ := h.exists_of_map (pair :: ·) (fun _ => rfl) fun _ => rfl
    have hmark : Marked middle := ⟨',', behind, hskip, by decide⟩
    have hfirst := hitem.entry _ _ _ more ⟨shorter, hread⟩ hmark
    exact yields_entries_cons hfirst (skipBlank_append_of_cons hskip more) (ih hothers)
  | case3 text pair middle shorter hread behind hskip =>
    obtain ⟨rfl, rfl⟩ := Parsed.yields_ok.mp h
    have hmark : Marked middle := ⟨'}', behind, hskip, by decide⟩
    have hfirst := hitem.entry _ _ _ more ⟨shorter, hread⟩ hmark
    exact yields_entries_last hfirst (skipBlank_append_of_cons hskip more)
  | case4 text pair middle shorter hread => exact absurd h Parsed.not_yields_error

theorem yields_objectBody_append (h : Parsed.Yields (objectBody item text) e rest) :
    Parsed.Yields (objectBody item (text ++ more)) e (rest ++ more) := by
  rw [objectBody] at h
  split at h
  · next behind hskip =>
    obtain ⟨rfl, rfl⟩ := Parsed.yields_ok.mp h
    exact yields_objectBody_nil (skipBlank_append_of_cons hskip more)
  · next hopen =>
    obtain ⟨pairs, hpairs, rfl⟩ := h.exists_of_map Expr.object (fun _ => rfl) fun _ => rfl
    have hskip := skipBlank_append_of_yields (entries item) hpairs more
    have hlonger := yields_entries_append hitem more hpairs
    rw [← hskip] at hlonger
    refine yields_objectBody_of_ne (fun behind hclose => ?_) hlonger
    obtain ⟨c, last, hc⟩ := exists_cons_of_yields (entries item) hpairs
    rw [hskip, hc, List.cons_append] at hclose
    obtain ⟨rfl, -⟩ := List.cons.inj hclose
    exact hopen last hc

omit hitem

/-! ## Primaries -/

theorem startsNumber_cons {c : Char} (hminus : c ≠ '-') (hpoint : c ≠ '.') (rest : List Char) :
    startsNumber (c :: rest) = Digits.isDecimal c := by
  unfold startsNumber
  split
  · next heq => exact absurd (List.cons.inj heq).1 hminus
  · next heq => exact absurd (List.cons.inj heq).1 hpoint
  · next heq => rw [(List.cons.inj heq).1]
  · next heq => cases heq

/-- The first two characters tell whether a number starts, or one that is no minus and no point. -/
theorem startsNumber_append {c : Char} (hsingle : rest = [] → c ≠ '-' ∧ c ≠ '.')
    (more : List Char) : startsNumber (c :: (rest ++ more)) = startsNumber (c :: rest) := by
  by_cases hminus : c = '-'
  · subst hminus
    obtain ⟨d, behind, rfl⟩ := List.exists_cons_of_ne_nil fun hnil => (hsingle hnil).1 rfl
    rfl
  · by_cases hpoint : c = '.'
    · subst hpoint
      obtain ⟨d, behind, rfl⟩ := List.exists_cons_of_ne_nil fun hnil => (hsingle hnil).2 rfl
      rfl
    · rw [startsNumber_cons hminus hpoint, startsNumber_cons hminus hpoint]

include hitem

theorem local_primaryHere : Local (primaryHere item) := by
  intro text e rest more h hrest
  have hbehind {c : Char} {text : List Char} {reading : Except Failure (Parsed Expr text)}
      (h : Parsed.Yields (reading.map (Parsed.behind (c := c))) e rest) :
      Parsed.Yields reading e rest :=
    h.of_map (fun _ => rfl) fun _ => rfl
  unfold primaryHere at h
  split at h
  · exact absurd h Parsed.not_yields_error
  · exact yields_parentheses (yields_parenthesized_append hitem more (hbehind h))
  · exact yields_brackets (yields_arrayBody_append hitem more (hbehind h))
  · exact yields_braces (yields_objectBody_append hitem more (hbehind h))
  · obtain ⟨p, hp, rfl⟩ := h.exists_of_map Expr.regex (fun _ => rfl) fun _ => rfl
    have hlonger := local_pattern _ _ _ more hp hrest
    exact hlonger.map _ Expr.regex (fun _ => rfl) fun _ => rfl
  · next c behind hparenthesis hbracket hbrace hslash =>
    have hc : c ∉ openingMarks := by
      simp only [openingMarks, List.mem_cons, List.not_mem_nil, or_false, not_or]
      exact ⟨hparenthesis, hbracket, hbrace, hslash⟩
    rw [List.cons_append, primaryHere_cons hc]
    split at h
    · next hquote =>
      obtain ⟨s, hs, rfl⟩ :=
        h.exists_of_map (fun s => Expr.literal (.string s)) (fun _ => rfl) fun _ => rfl
      have hlonger := yields_quoted_append hs more
      rw [if_pos hquote]
      exact hlonger.map _ (fun s => Expr.literal (.string s)) (fun _ => rfl) fun _ => rfl
    · next hquote =>
      split at h
      · next hstarts =>
        obtain ⟨x, hx, rfl⟩ :=
          h.exists_of_map (fun x => Expr.literal (.number x)) (fun _ => rfl) fun _ => rfl
        have hlonger := local_number _ _ _ more hx hrest
        have hsingle : behind = [] → c ≠ '-' ∧ c ≠ '.' := by
          intro heq
          subst heq
          constructor <;>
            · intro heq
              subst heq
              cases hstarts
        rw [if_neg hquote, startsNumber_append hsingle, if_pos hstarts]
        exact hlonger.map _ (fun x => Expr.literal (.number x)) (fun _ => rfl) fun _ => rfl
      · next hstarts =>
        split at h
        · next hname =>
          have hmark : c ≠ '-' ∧ c ≠ '.' := by
            constructor <;>
              · intro heq
                subst heq
                exact absurd hname (by decide)
          have hlonger := local_wordOrPath _ _ _ more h hrest
          rw [if_neg hquote, startsNumber_append fun _ => hmark, if_neg hstarts, if_pos hname]
          exact hlonger
        · exact absurd h Parsed.not_yields_error

end Readers

/-- A primary that is read alone is read as well in front of anything that does not go on with its
last token. -/
theorem local_primary (levels : Nat) : Local (primary levels) := by
  induction levels with
  | zero => intro text e rest more h; exact absurd h not_yields_primary_zero
  | succ levels ih =>
    intro text e rest more h hrest
    rw [primary] at h
    have hread := h.of_map (fun _ => rfl) fun _ => rfl
    have hlonger := local_primaryHere ih.before.arithmetic _ _ _ more hread hrest
    rw [← skipBlank_append_of_yields (primaryHere _) hread] at hlonger
    exact yields_primary hlonger

/-- A text that is read as a primary on its own is read as that primary in front of a rest. -/
theorem yields_primary_append {levels : Nat} {e : Expr} {text rest : List Char}
    (h : Parsed.Yields (primary levels text) e []) (hrest : Halts goesOn rest) :
    Parsed.Yields (primary levels (text ++ rest)) e rest :=
  local_primary levels text e [] rest h hrest

end Abac.Rule
