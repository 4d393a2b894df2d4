import Abac.GroupExpr.Token
import Abac.Proofs.Character
import Abac.Proofs.Parsing

/-!
The tokens of a text, said without a reader. A text is made of blanks, parentheses and words, where
a word is a run of name characters with no name character behind it (`GroupExpr.Lexed`). Splitting
a text into tokens succeeds exactly on such texts and finds exactly these tokens
(`GroupExpr.exists_tokens_iff`).
-/
namespace Abac.GroupExpr

def isTextChar (c : Char) : Bool := isBlank c || c = '(' || c = ')' || isNameChar c

/-- A text and the kinds of its tokens. Words are longest runs. -/
inductive Lexed : List Char → List TokenKind → Prop where
  | done : Lexed [] []
  | blank {c : Char} {rest : List Char} {kinds : List TokenKind} (hc : isBlank c = true)
      (hrest : Lexed rest kinds) : Lexed (c :: rest) kinds
  | opening {rest : List Char} {kinds : List TokenKind} (hrest : Lexed rest kinds) :
      Lexed ('(' :: rest) (.opening :: kinds)
  | closing {rest : List Char} {kinds : List TokenKind} (hrest : Lexed rest kinds) :
      Lexed (')' :: rest) (.closing :: kinds)
  | word {word rest : List Char} {kinds : List TokenKind} (hne : word ≠ [])
      (hword : ∀ c ∈ word, isNameChar c = true) (hmaximal : Halts isNameChar rest)
      (hrest : Lexed rest kinds) :
      Lexed (word ++ rest) (.ofWord (String.ofList word) :: kinds)

theorem isBlank_of_isNameChar {c : Char} (h : isNameChar c = true) : isBlank c = false := by
  rw [← Bool.not_eq_true]
  intro hblank
  simp only [isNameChar, isAlphanumeric_of_isBlank hblank, Bool.false_or, Bool.or_eq_true,
    decide_eq_true_eq] at h
  rcases h with ((rfl | rfl) | rfl) | rfl <;> exact absurd hblank (by decide)

theorem Lexed.isTextChar {text : List Char} {kinds : List TokenKind} (h : Lexed text kinds) :
    ∀ c ∈ text, isTextChar c = true := by
  induction h with
  | done => simp
  | blank hc _ ih => simpa [GroupExpr.isTextChar, hc] using ih
  | opening _ ih => simpa [GroupExpr.isTextChar] using ih
  | closing _ ih => simpa [GroupExpr.isTextChar] using ih
  | word _ hword _ _ ih =>
    intro c hc
    rcases List.mem_append.mp hc with hc | hc
    · simp [GroupExpr.isTextChar, hword c hc]
    · exact ih c hc

theorem eq_cons_of_map {later : Except Failure (List Token)} {token : Token} {input : List Token}
    (h : later.map (token :: ·) = .ok input) :
    ∃ rest, later = .ok rest ∧ input = token :: rest := by
  cases later with
  | error failure => cases h
  | ok rest =>
    cases h
    exact ⟨rest, rfl, rfl⟩

theorem lexed_of_tokens {text : List Char} {input : List Token} (h : tokens text = .ok input) :
    Lexed text (input.map Token.kind) := by
  fun_induction tokens text generalizing input with
  | case1 =>
    cases h
    exact .done
  | case2 c rest hblank ih => exact .blank hblank (ih h)
  | case3 rest hblank ih =>
    obtain ⟨later, hlater, rfl⟩ := eq_cons_of_map h
    exact .opening (ih hlater)
  | case4 rest hblank hopening ih =>
    obtain ⟨later, hlater, rfl⟩ := eq_cons_of_map h
    exact .closing (ih hlater)
  | case5 c rest hblank hopening hclosing word rest' shorter hrun ih =>
    obtain ⟨hsplit, hne, hword, hmaximal⟩ := takeRun?_eq_some hrun
    obtain ⟨later, hlater, rfl⟩ := eq_cons_of_map h
    rw [hsplit]
    exact .word hne hword hmaximal (ih hlater)
  | case6 => cases h

/-- A token in front of the others. -/
theorem exists_map_cons {text : List Char} {kinds : List TokenKind}
    (h : ∃ input, tokens text = .ok input ∧ input.map Token.kind = kinds) (token : Token) :
    ∃ input, (tokens text).map (token :: ·) = .ok input ∧
      input.map Token.kind = token.kind :: kinds := by
  obtain ⟨input, hinput, hkinds⟩ := h
  rw [hinput]
  exact ⟨token :: input, rfl, congrArg (token.kind :: ·) hkinds⟩

theorem tokens_of_lexed {text : List Char} {kinds : List TokenKind} (h : Lexed text kinds) :
    ∃ input, tokens text = .ok input ∧ input.map Token.kind = kinds := by
  induction h with
  | done => exact ⟨[], by rw [tokens.eq_def], rfl⟩
  | blank hc _ ih =>
    rw [tokens.eq_def]
    simp only [if_pos hc]
    exact ih
  | @opening rest kinds _ ih =>
    have hblank : ¬isBlank '(' = true := by decide
    rw [tokens.eq_def]
    simp only [if_neg hblank, if_true]
    exact exists_map_cons ih _
  | @closing rest kinds _ ih =>
    have hblank : ¬isBlank ')' = true := by decide
    have hopening : ')' ≠ '(' := by decide
    rw [tokens.eq_def]
    simp only [if_neg hblank, if_neg hopening, if_true]
    exact exists_map_cons ih _
  | @word word rest kinds hne hword hmaximal _ ih =>
    obtain ⟨c, tail, rfl⟩ := List.exists_cons_of_ne_nil hne
    have hc := hword c List.mem_cons_self
    have hblank : ¬isBlank c = true := by simp [isBlank_of_isNameChar hc]
    have hopening : c ≠ '(' := by
      rintro rfl
      exact absurd hc (by decide)
    have hclosing : c ≠ ')' := by
      rintro rfl
      exact absurd hc (by decide)
    obtain ⟨shorter, hrun⟩ := takeRun?_cons_append hword hmaximal
    rw [List.cons_append, tokens.eq_def]
    simp only [if_neg hblank, if_neg hopening, if_neg hclosing, hrun]
    exact exists_map_cons ih _

/-- Splitting into tokens succeeds on the texts that are made of tokens, with the same tokens. -/
theorem exists_tokens_iff {text : List Char} {kinds : List TokenKind} :
    (∃ input, tokens text = .ok input ∧ input.map Token.kind = kinds) ↔ Lexed text kinds := by
  constructor
  · rintro ⟨input, hinput, rfl⟩
    exact lexed_of_tokens hinput
  · exact tokens_of_lexed

end Abac.GroupExpr
