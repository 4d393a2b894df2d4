import Abac.GroupExpr.Parser
import Abac.Proofs.GroupExpr.Lexing

/-!
The grammar of group expressions, and that reading them follows it. A phrase is a disjunction, a
conjunction or an operand, and a derivation builds the tree of a phrase from the kinds of its
tokens (`GroupExpr.Derives`). What a reader takes from the front of the tokens is derived as the
tree that it returns, and a derived phrase is read as its tree whatever stands behind it, as long
as that does not go on with it. So a text is read as a tree exactly when its tokens are derived as
that tree (`GroupExpr.parse_eq_ok_iff_denotes`).
-/
namespace Abac.GroupExpr

inductive Phrase where
  | disjunction | conjunction | operand

/-- The phrases of the grammar at a depth, the number of the uses of `NOT` and of the parentheses
that enclose them. Both connectives group to the left, and every operand is enclosed by at most 127
others. -/
inductive Derives : Phrase → Nat → List TokenKind → GroupExpr → Prop where
  | alone {depth : Nat} {kinds : List TokenKind} {e : GroupExpr}
      (h : Derives .conjunction depth kinds e) : Derives .disjunction depth kinds e
  | or {depth : Nat} {left right : List TokenKind} {l r : GroupExpr}
      (hl : Derives .disjunction depth left l) (hr : Derives .conjunction depth right r) :
      Derives .disjunction depth (left ++ .or :: right) (.or l r)
  | single {depth : Nat} {kinds : List TokenKind} {e : GroupExpr}
      (h : Derives .operand depth kinds e) : Derives .conjunction depth kinds e
  | and {depth : Nat} {left right : List TokenKind} {l r : GroupExpr}
      (hl : Derives .conjunction depth left l) (hr : Derives .operand depth right r) :
      Derives .conjunction depth (left ++ .and :: right) (.and l r)
  | name {depth : Nat} {word : String} (hdepth : depth ≤ 127) :
      Derives .operand depth [.name word] (.policy word)
  | not {depth : Nat} {kinds : List TokenKind} {e : GroupExpr} (hdepth : depth ≤ 127)
      (h : Derives .operand (depth + 1) kinds e) : Derives .operand depth (.not :: kinds) (.not e)
  | parentheses {depth : Nat} {kinds : List TokenKind} {e : GroupExpr}
      (hdepth : depth ≤ 127) (h : Derives .disjunction (depth + 1) kinds e) :
      Derives .operand depth (.opening :: (kinds ++ [.closing])) e

/-- An operand at an allowed depth has a level left. -/
theorem nestingLimit_sub {depth : Nat} (h : depth ≤ 127) :
    nestingLimit - depth = nestingLimit - (depth + 1) + 1 := by
  rw [nestingLimit]
  omega

/-! ## Readers -/

section Readers

variable {kind : TokenKind} {join : GroupExpr → GroupExpr → GroupExpr} {operand inner : Reader}
  {lhs e : GroupExpr} {token : Token} {input rest : List Token}

theorem yields_chainTail_nil :
    Continued.Yields (chainTail kind join operand lhs []) e rest ↔ e = lhs ∧ rest = [] := by
  rw [chainTail, Continued.yields_ok]
  exact and_congr eq_comm eq_comm

theorem yields_chainTail_cons :
    Continued.Yields (chainTail kind join operand lhs (token :: input)) e rest ↔
      if token.kind = kind then
        ∃ rhs middle, Parsed.Yields (operand input) rhs middle ∧
          Continued.Yields (chainTail kind join operand (join lhs rhs) middle) e rest
      else e = lhs ∧ rest = token :: input := by
  rw [chainTail]
  split
  · cases operand input with
    | error failure => simp
    | ok p =>
      rw [Parsed.exists_yields_ok]
      cases htail : chainTail kind join operand (join lhs p.value) p.rest with
      | error failure => simp [Except.map, htail]
      | ok q =>
        simp only [htail, Except.map, Continued.yields_ok]
        exact Iff.rfl
  · rw [Continued.yields_ok]
    exact and_congr eq_comm eq_comm

theorem yields_chain :
    Parsed.Yields (chain kind join operand input) e rest ↔
      ∃ lhs middle, Parsed.Yields (operand input) lhs middle ∧
        Continued.Yields (chainTail kind join operand lhs middle) e rest := by
  rw [chain]
  cases operand input with
  | error failure => simp [bind, Except.bind]
  | ok p =>
    rw [Parsed.exists_yields_ok]
    cases htail : chainTail kind join operand p.value p.rest with
    | error failure => simp [bind, Except.bind, htail]
    | ok q =>
      simp only [bind, Except.bind, htail, Continued.yields_ok]
      exact Parsed.yields_ok

theorem yields_closing :
    Parsed.Yields (closing lhs input) e rest ↔
      e = lhs ∧ ∃ token, token.kind = .closing ∧ input = token :: rest := by
  cases input with
  | nil => simp [closing, failAt]
  | cons token later =>
    rw [closing]
    split
    · next hkind =>
      rw [Parsed.yields_ok]
      constructor
      · rintro ⟨rfl, rfl⟩
        exact ⟨rfl, token, hkind, rfl⟩
      · rintro ⟨rfl, _, -, h⟩
        exact ⟨rfl, (List.cons.inj h).2⟩
    · next hkind =>
      refine iff_of_false Parsed.not_yields_error ?_
      rintro ⟨-, other, hother, h⟩
      exact hkind ((List.cons.inj h).1 ▸ hother)

theorem yields_operandHere :
    Parsed.Yields (operandHere inner (token :: input)) e rest ↔
      match token.kind with
      | .not => ∃ e', Parsed.Yields (inner input) e' rest ∧ e = .not e'
      | .name word => e = .policy word ∧ rest = input
      | .opening => ∃ token, token.kind = .closing ∧
          Parsed.Yields (disjunction inner input) e (token :: rest)
      | _ => False := by
  rw [operandHere]
  cases hkind : token.kind with
  | not => exact Parsed.yields_map _ GroupExpr.not (fun _ => rfl) fun _ => rfl
  | name word =>
    rw [Parsed.yields_ok]
    exact and_congr eq_comm eq_comm
  | opening =>
    cases disjunction inner input with
    | error failure => simp
    | ok p =>
      change Parsed.Yields (((GroupExpr.closing p.value p.rest).map fun q =>
        q.after p.shorter).map Parsed.behind) e rest ↔ _
      rw [Parsed.yields_map_of_eq Parsed.behind (fun _ => rfl) (fun _ => rfl),
        Parsed.yields_map_of_eq (fun q => q.after p.shorter) (fun _ => rfl) (fun _ => rfl),
        yields_closing]
      constructor
      · rintro ⟨rfl, token, htoken, hrest⟩
        exact ⟨token, htoken, Parsed.yields_ok.mpr ⟨rfl, hrest⟩⟩
      · rintro ⟨token, htoken, h⟩
        obtain ⟨rfl, hrest⟩ := Parsed.yields_ok.mp h
        exact ⟨rfl, token, htoken, hrest⟩
  | and => exact iff_of_false Parsed.not_yields_error id
  | or => exact iff_of_false Parsed.not_yields_error id
  | closing => exact iff_of_false Parsed.not_yields_error id

end Readers

/-! ## What is read is derived -/

/-- What a reader takes from the front of the tokens belongs to a class of phrases. -/
def Sound (reader : Reader) (P : List TokenKind → GroupExpr → Prop) : Prop :=
  ∀ (input : List Token) (e : GroupExpr) (rest : List Token),
    Parsed.Yields (reader input) e rest →
      ∃ taken, input = taken ++ rest ∧ P (taken.map Token.kind) e

section Soundness

variable {kind : TokenKind} {join : GroupExpr → GroupExpr → GroupExpr} {operand inner : Reader}
  {P Q : List TokenKind → GroupExpr → Prop} {depth : Nat}

/-- Going on with a connective extends the phrase read so far. The induction is on the number of
the tokens that are left. -/
theorem exists_taken_of_chainTail (hoperand : Sound operand Q)
    (hjoin : ∀ {left right l r}, P left l → Q right r → P (left ++ kind :: right) (join l r))
    {count : Nat} {lhs e : GroupExpr} {input rest : List Token} {before : List TokenKind}
    (hcount : input.length ≤ count) (hlhs : P before lhs)
    (h : Continued.Yields (chainTail kind join operand lhs input) e rest) :
    ∃ taken, input = taken ++ rest ∧ P (before ++ taken.map Token.kind) e := by
  induction count generalizing lhs input before with
  | zero =>
    obtain rfl := List.length_eq_zero_iff.mp (Nat.le_zero.mp hcount)
    obtain ⟨rfl, rfl⟩ := yields_chainTail_nil.mp h
    exact ⟨[], rfl, by simpa using hlhs⟩
  | succ count ih =>
    cases input with
    | nil =>
      obtain ⟨rfl, rfl⟩ := yields_chainTail_nil.mp h
      exact ⟨[], rfl, by simpa using hlhs⟩
    | cons token later =>
      rw [yields_chainTail_cons] at h
      split at h
      · next hkind =>
        obtain ⟨rhs, middle, hrhs, htail⟩ := h
        obtain ⟨first, rfl, hfirst⟩ := hoperand _ _ _ hrhs
        have hmiddle : middle.length ≤ count := by
          simp only [List.length_cons, List.length_append] at hcount
          omega
        obtain ⟨taken, rfl, hP⟩ := ih hmiddle (hjoin hlhs hfirst) htail
        refine ⟨token :: (first ++ taken), by simp, ?_⟩
        simpa [hkind] using hP
      · obtain ⟨rfl, rfl⟩ := h
        exact ⟨[], rfl, by simpa using hlhs⟩

/-- Operands with a connective between them are a phrase. -/
theorem Sound.chain (hoperand : Sound operand Q) (hsingle : ∀ {kinds e}, Q kinds e → P kinds e)
    (hjoin : ∀ {left right l r}, P left l → Q right r → P (left ++ kind :: right) (join l r)) :
    Sound (chain kind join operand) P := by
  intro input e rest h
  obtain ⟨lhs, middle, hlhs, htail⟩ := yields_chain.mp h
  obtain ⟨first, rfl, hfirst⟩ := hoperand _ _ _ hlhs
  obtain ⟨taken, rfl, hP⟩ :=
    exists_taken_of_chainTail hoperand hjoin (Nat.le_refl _) (hsingle hfirst) htail
  exact ⟨first ++ taken, by simp, by simpa using hP⟩

theorem Sound.disjunction (hoperand : Sound operand (Derives .operand depth)) :
    Sound (disjunction operand) (Derives .disjunction depth) := by
  have hconjunction : Sound (GroupExpr.chain .and .and operand) (Derives .conjunction depth) :=
    hoperand.chain Derives.single Derives.and
  exact hconjunction.chain Derives.alone Derives.or

theorem Sound.operandHere (hdepth : depth ≤ 127)
    (hinner : Sound inner (Derives .operand (depth + 1))) :
    Sound (operandHere inner) (Derives .operand depth) := by
  intro input e rest h
  cases input with
  | nil => exact absurd h Parsed.not_yields_error
  | cons token later =>
    rw [yields_operandHere] at h
    cases hkind : token.kind with
    | not =>
      rw [hkind] at h
      obtain ⟨e, h, rfl⟩ := h
      obtain ⟨taken, rfl, htaken⟩ := hinner _ _ _ h
      refine ⟨token :: taken, rfl, ?_⟩
      rw [List.map_cons, hkind]
      exact .not hdepth htaken
    | name word =>
      rw [hkind] at h
      obtain ⟨rfl, rfl⟩ := h
      refine ⟨[token], rfl, ?_⟩
      rw [List.map_singleton, hkind]
      exact .name hdepth
    | opening =>
      rw [hkind] at h
      obtain ⟨closing, hclosing, h⟩ := h
      obtain ⟨taken, rfl, htaken⟩ := hinner.disjunction _ _ _ h
      refine ⟨token :: (taken ++ [closing]), by simp, ?_⟩
      rw [List.map_cons, List.map_append, List.map_singleton, hkind, hclosing]
      exact .parentheses hdepth htaken
    | and => rw [hkind] at h; exact h.elim
    | or => rw [hkind] at h; exact h.elim
    | closing => rw [hkind] at h; exact h.elim

end Soundness

/-- The reader for one more level reads one level further outside. -/
theorem sound_operand (levels : Nat) (hlevels : levels ≤ nestingLimit) :
    Sound (operand levels) (Derives .operand (nestingLimit - levels)) := by
  induction levels with
  | zero =>
    intro input e rest h
    exact absurd h Parsed.not_yields_error
  | succ levels ih =>
    have hinner := ih (Nat.le_of_succ_le hlevels)
    have hdepth : nestingLimit - (levels + 1) ≤ 127 := by
      rw [nestingLimit]
      omega
    have hlevel : nestingLimit - levels = nestingLimit - (levels + 1) + 1 := by omega
    rw [hlevel] at hinner
    exact hinner.operandHere hdepth

/-! ## What is derived is read -/

/-- How a phrase with `levels` levels left is read, whatever stands behind it. An operand is read
alone. Behind the other phrases the reader goes on, so it ends where it would end if it had the
tree of the phrase in its hands. -/
def Read (levels : Nat) (kinds : List TokenKind) (e : GroupExpr) : Phrase → Prop
  | .operand => ∀ taken rest : List Token, taken.map Token.kind = kinds →
      Parsed.Yields (operand levels (taken ++ rest)) e rest
  | .conjunction => ∀ (taken rest : List Token) (final : GroupExpr) (last : List Token),
      taken.map Token.kind = kinds →
      Continued.Yields (chainTail .and .and (operand levels) e rest) final last →
        Parsed.Yields (chain .and .and (operand levels) (taken ++ rest)) final last
  | .disjunction => ∀ (taken rest : List Token) (final : GroupExpr) (last : List Token),
      taken.map Token.kind = kinds → Halts (fun token => token.kind = .and) rest →
      Continued.Yields
        (chainTail .or .or (chain .and .and (operand levels)) e rest) final last →
        Parsed.Yields (disjunction (operand levels) (taken ++ rest)) final last

section Completeness

variable {kind : TokenKind} {join : GroupExpr → GroupExpr → GroupExpr} {operand : Reader}

/-- Without the connective in front nothing more is read. -/
theorem yields_chainTail_of_halts (lhs : GroupExpr) {rest : List Token}
    (hrest : Halts (fun token => token.kind = kind) rest) :
    Continued.Yields (chainTail kind join operand lhs rest) lhs rest := by
  cases rest with
  | nil => exact yields_chainTail_nil.mpr ⟨rfl, rfl⟩
  | cons token later =>
    have hkind : ¬token.kind = kind := by simpa using hrest token rfl
    rw [yields_chainTail_cons, if_neg hkind]
    exact ⟨rfl, rfl⟩

end Completeness

theorem exists_append_of_map_kind {taken : List Token} {left right : List TokenKind}
    {kind : TokenKind} (h : taken.map Token.kind = left ++ kind :: right) :
    ∃ before token behind, taken = before ++ token :: behind ∧ before.map Token.kind = left ∧
      token.kind = kind ∧ behind.map Token.kind = right := by
  obtain ⟨before, others, rfl, hbefore, hothers⟩ := List.map_eq_append_iff.mp h
  obtain ⟨token, behind, rfl, htoken, hbehind⟩ := List.map_eq_cons_iff.mp hothers
  exact ⟨before, token, behind, rfl, hbefore, htoken, hbehind⟩

/-- Every derived phrase is read as its tree. -/
theorem read_of_derives {phrase : Phrase} {depth : Nat} {kinds : List TokenKind} {e : GroupExpr}
    (h : Derives phrase depth kinds e) : Read (nestingLimit - depth) kinds e phrase := by
  induction h with
  | alone _ ih =>
    intro taken rest final last hkinds hrest htail
    have hfirst := ih taken rest _ rest hkinds (yields_chainTail_of_halts _ hrest)
    exact yields_chain.mpr ⟨_, rest, hfirst, htail⟩
  | or _ _ ihl ihr =>
    intro taken rest final last hkinds hrest htail
    obtain ⟨before, token, behind, rfl, hbefore, htoken, hbehind⟩ :=
      exists_append_of_map_kind hkinds
    have hright := ihr behind rest _ rest hbehind (yields_chainTail_of_halts _ hrest)
    -- The reader of the left side stands in front of the connective and goes on from there.
    rw [List.append_assoc]
    refine ihl before _ final last hbefore (halts_cons (by simp [htoken])) ?_
    rw [List.cons_append, yields_chainTail_cons, if_pos htoken]
    exact ⟨_, rest, hright, htail⟩
  | single _ ih =>
    intro taken rest final last hkinds htail
    exact yields_chain.mpr ⟨_, rest, ih taken rest hkinds, htail⟩
  | and _ _ ihl ihr =>
    intro taken rest final last hkinds htail
    obtain ⟨before, token, behind, rfl, hbefore, htoken, hbehind⟩ :=
      exists_append_of_map_kind hkinds
    rw [List.append_assoc]
    refine ihl before _ final last hbefore ?_
    rw [List.cons_append, yields_chainTail_cons, if_pos htoken]
    exact ⟨_, rest, ihr behind rest hbehind, htail⟩
  | @name depth word hdepth =>
    intro taken rest hkinds
    obtain ⟨token, rfl, htoken⟩ := List.map_eq_singleton_iff.mp hkinds
    rw [nestingLimit_sub hdepth, operand, List.singleton_append, yields_operandHere, htoken]
    exact ⟨rfl, rfl⟩
  | @not depth kinds e hdepth _ ih =>
    intro taken rest hkinds
    obtain ⟨token, behind, rfl, htoken, hbehind⟩ := List.map_eq_cons_iff.mp hkinds
    rw [nestingLimit_sub hdepth, operand, List.cons_append, yields_operandHere, htoken]
    exact ⟨e, ih behind rest hbehind, rfl⟩
  | @parentheses depth kinds e hdepth _ ih =>
    intro taken rest hkinds
    obtain ⟨token, others, rfl, htoken, hothers⟩ := List.map_eq_cons_iff.mp hkinds
    obtain ⟨inner, closing, nothing, rfl, hinner, hclosing, hnothing⟩ :=
      exists_append_of_map_kind hothers
    obtain rfl := List.map_eq_nil_iff.mp hnothing
    rw [nestingLimit_sub hdepth, operand, List.cons_append, yields_operandHere, htoken]
    refine ⟨closing, hclosing, ?_⟩
    rw [List.append_assoc]
    refine ih inner _ e _ hinner (halts_cons (by simp [hclosing])) ?_
    exact yields_chainTail_of_halts e (halts_cons (by simp [hclosing]))

/-! ## Whole texts -/

/-- A text is a group expression with a tree: it is made of blanks, parentheses and name characters,
and the kinds of its tokens are derived as the tree. -/
def Denotes (source : String) (e : GroupExpr) : Prop :=
  (∀ c ∈ source.toList, isTextChar c = true) ∧
    ∃ kinds, Lexed source.toList kinds ∧ Derives .disjunction 0 kinds e

theorem ofTokens_eq_ok_iff {input : List Token} {e : GroupExpr} :
    ofTokens input = .ok e ↔ Derives .disjunction 0 (input.map Token.kind) e := by
  have hyields : ofTokens input = .ok e ↔
      Parsed.Yields (disjunction (operand nestingLimit) input) e [] := by
    rw [ofTokens]
    cases disjunction (operand nestingLimit) input with
    | error failure => simp [bind, Except.bind]
    | ok p =>
      obtain ⟨value, rest, shorter⟩ := p
      cases rest with
      | nil => simp [bind, Except.bind, pure, Except.pure]
      | cons token later => simp [bind, Except.bind, failAt]
  rw [hyields]
  constructor
  · intro h
    have hsound := (sound_operand nestingLimit (Nat.le_refl _)).disjunction
    obtain ⟨taken, rfl, htaken⟩ := hsound _ _ _ h
    rw [List.append_nil]
    exact Nat.sub_self nestingLimit ▸ htaken
  · intro h
    have hread := read_of_derives h input [] e [] rfl (halts_nil _)
    rw [List.append_nil] at hread
    exact hread (yields_chainTail_of_halts e (halts_nil _))

theorem parse_eq_ok_iff {source : String} {e : GroupExpr} :
    parse source = .ok e ↔
      ∃ input, tokens source.toList = .ok input ∧ ofTokens input = .ok e := by
  rw [parse]
  cases tokens source.toList with
  | error failure => simp [bind, Except.bind]
  | ok input => cases hinput : ofTokens input <;> simp [bind, Except.bind, hinput]

/-- A text is read as a tree exactly when the grammar gives it this tree, and every other text is
refused as an expression. -/
theorem parse_eq_ok_iff_denotes (source : String) :
    (∀ e, parse source = .ok e ↔ Denotes source e) ∧
      ((∃ offset fault, parse source = .error (.expression source offset fault)) ↔
        ∀ e, ¬Denotes source e) := by
  have hok : ∀ e, parse source = .ok e ↔ Denotes source e := by
    intro e
    rw [parse_eq_ok_iff, Denotes]
    constructor
    · rintro ⟨input, hinput, he⟩
      have hlexed := lexed_of_tokens hinput
      exact ⟨hlexed.isTextChar, _, hlexed, ofTokens_eq_ok_iff.mp he⟩
    · rintro ⟨-, kinds, hlexed, hderives⟩
      obtain ⟨input, hinput, rfl⟩ := tokens_of_lexed hlexed
      exact ⟨input, hinput, ofTokens_eq_ok_iff.mpr hderives⟩
  refine ⟨hok, ?_⟩
  simp only [← hok]
  rw [parse]
  cases tokens source.toList >>= ofTokens with
  | error failure => simp
  | ok e => simp

end Abac.GroupExpr
