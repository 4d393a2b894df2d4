import Abac.Proofs.Rule.Locality.Primaries

/-!
Precedence climbing. One loop reads both levels of operators: behind an operand it goes on as long
as an operator binds at least as tightly as it is asked for, and asks for a tighter one on the right
side, so that operators of one level group to the left (`climb`). Asked for no operator, it reads an
operand; asked for the tighter ones, a product; and asked for all, it reads the sum of products that
`arithmetic` reads, with the same failures (`climb_one`).
-/
namespace Abac.Rule

def precedence : Arithmetic → Nat
  | .add | .sub => 1
  | .mul | .div => 2

def anyOperator? : Char → Option Arithmetic
  | '+' => some .add
  | '-' => some .sub
  | '*' => some .mul
  | '/' => some .div
  | _ => none

mutual

/-- Reads an operand and goes on over the operators that bind at least as tightly as `least`. -/
def climb (operand : Reader Expr) (least : Nat) (text : List Char) :
    Except Failure (Parsed Expr text) :=
  match operand text with
  | .error e => .error e
  | .ok ⟨lhs, rest, h⟩ => (climbTail operand least lhs rest).map fun p => p.after h
termination_by text.length
decreasing_by exact h

def climbTail (operand : Reader Expr) (least : Nat) (lhs : Expr) (text : List Char) :
    Except Failure (Continued Expr text) :=
  match hr : skipBlank text with
  | [] => .ok (.start lhs)
  | c :: rest =>
    match anyOperator? c with
    | none => .ok (.start lhs)
    | some op =>
      if precedence op < least then .ok (.start lhs)
      else
        match climb operand (precedence op + 1) (skipBlank rest) with
        | .error e => .error e
        | .ok ⟨rhs, rest', h⟩ =>
          (climbTail operand least (.binary op lhs rhs) rest').map fun p =>
            (((p.after h).widen (length_skipBlank_le rest)).past
              (length_skipBlank_le text) hr).continued
termination_by text.length
decreasing_by
  · exact Nat.lt_of_le_of_lt (length_skipBlank_le rest)
      (length_lt_of_eq_cons (length_skipBlank_le text) hr)
  · exact Nat.lt_trans (Nat.lt_of_lt_of_le h (length_skipBlank_le rest))
      (length_lt_of_eq_cons (length_skipBlank_le text) hr)

end

section Levels

variable {operand : Reader Expr} {least : Nat} {lhs : Expr} {c : Char} {op : Arithmetic}
  {text behind : List Char}

/-! ## One step -/

def joined {middle : List Char} (hskip : skipBlank text = c :: behind)
    (shorter : middle.length < (skipBlank behind).length) (p : Continued Expr middle) :
    Continued Expr text :=
  (((p.after shorter).widen (length_skipBlank_le behind)).past (length_skipBlank_le text)
    hskip).continued

@[simp] theorem joined_value {middle : List Char} (hskip : skipBlank text = c :: behind)
    (shorter : middle.length < (skipBlank behind).length) (p : Continued Expr middle) :
    (joined hskip shorter p).value = p.value := rfl

@[simp] theorem joined_rest {middle : List Char} (hskip : skipBlank text = c :: behind)
    (shorter : middle.length < (skipBlank behind).length) (p : Continued Expr middle) :
    (joined hskip shorter p).rest = p.rest := rfl

theorem chainTail_stop {operator? : Char → Option Arithmetic} (lhs : Expr)
    (h : ∀ c ∈ (skipBlank text).head?, operator? c = none) :
    chainTail operator? operand lhs text = .ok (.start lhs) := by
  have hhalts : Halts (fun c => (operator? c).isSome) (skipBlank text) := by
    intro c hc
    simp only [h c hc, Option.isSome_none]
  obtain ⟨notLonger, hread⟩ := yields_chainTail_stop lhs hhalts
  exact hread

theorem chainTail_step {operator? : Char → Option Arithmetic}
    (hskip : skipBlank text = c :: behind) (hop : operator? c = some op) :
    chainTail operator? operand lhs text =
      match operand (skipBlank behind) with
      | .error e => .error e
      | .ok p =>
        (chainTail operator? operand (.binary op lhs p.value) p.rest).map
          (joined hskip p.shorter) := by
  rw [chainTail]
  split
  · next hnil => exact absurd (hnil.symm.trans hskip) (List.cons_ne_nil c behind).symm
  · next c' behind' hcons =>
    obtain ⟨rfl, rfl⟩ := List.cons.inj (hcons.symm.trans hskip)
    rw [hop]
    cases operand (skipBlank behind') <;> rfl

/-- Without an operator that binds tightly enough nothing more is read. -/
theorem climbTail_stop (lhs : Expr)
    (h : ∀ c ∈ (skipBlank text).head?, ∀ op, anyOperator? c = some op → precedence op < least) :
    climbTail operand least lhs text = .ok (.start lhs) := by
  rw [climbTail]
  split
  · rfl
  · next c rest hskip =>
    split
    · rfl
    · next op hop => rw [if_pos (h c (by rw [hskip]; rfl) op hop)]

theorem climbTail_step (hskip : skipBlank text = c :: behind) (hop : anyOperator? c = some op)
    (hle : least ≤ precedence op) :
    climbTail operand least lhs text =
      match climb operand (precedence op + 1) (skipBlank behind) with
      | .error e => .error e
      | .ok p =>
        (climbTail operand least (.binary op lhs p.value) p.rest).map
          (joined hskip p.shorter) := by
  rw [climbTail]
  split
  · next hnil => exact absurd (hnil.symm.trans hskip) (List.cons_ne_nil c behind).symm
  · next c' behind' hcons =>
    obtain ⟨rfl, rfl⟩ := List.cons.inj (hcons.symm.trans hskip)
    simp only [hop, if_neg (Nat.not_lt.mpr hle)]
    cases climb operand (precedence op + 1) (skipBlank behind') <;> rfl

/-! ## The levels -/

theorem anyOperator?_of_product (h : productOperator? c = some op) :
    anyOperator? c = some op ∧ precedence op = 2 := by
  unfold productOperator? at h
  split at h <;> cases h <;> exact ⟨rfl, rfl⟩

theorem anyOperator?_of_sum (h : sumOperator? c = some op) :
    anyOperator? c = some op ∧ precedence op = 1 ∧ productOperator? c = none := by
  unfold sumOperator? at h
  split at h <;> cases h <;> exact ⟨rfl, rfl, rfl⟩

/-- An operator is one of a sum or one of a product. -/
theorem sum_or_product (h : anyOperator? c = some op) :
    sumOperator? c = some op ∨ productOperator? c = some op := by
  unfold anyOperator? at h
  split at h <;> cases h
  · exact .inl rfl
  · exact .inl rfl
  · exact .inr rfl
  · exact .inr rfl

theorem eq_none_of_anyOperator? (h : anyOperator? c = none) :
    sumOperator? c = none ∧ productOperator? c = none := by
  constructor
  · cases hsum : sumOperator? c with
    | none => rfl
    | some op => exact nomatch h.symm.trans (anyOperator?_of_sum hsum).1
  · cases hproduct : productOperator? c with
    | none => rfl
    | some op => exact nomatch h.symm.trans (anyOperator?_of_product hproduct).1

/-- Asked for operators that do not exist, the loop reads an operand. -/
theorem climb_three : climb operand 3 = operand := by
  funext text
  have hprecedence : ∀ op, precedence op < 3 := by
    intro op
    cases op <;> decide
  rw [climb]
  split
  · next failure hread => exact hread.symm
  · next lhs rest shorter hread =>
    rw [climbTail_stop lhs fun c _ op _ => hprecedence op, hread]
    rfl

/-- Asked for the operators of products, the loop goes on over these. -/
theorem climbTail_two (lhs : Expr) (text : List Char) :
    climbTail operand 2 lhs text = chainTail productOperator? operand lhs text := by
  cases hskip : skipBlank text with
  | nil =>
    rw [climbTail_stop, chainTail_stop] <;> simp [hskip]
  | cons c behind =>
    cases hproduct : productOperator? c with
    | none =>
      have hweak : ∀ op, anyOperator? c = some op → precedence op < 2 := by
        intro op hop
        have hsum := (sum_or_product hop).resolve_right (by simp [hproduct])
        rw [(anyOperator?_of_sum hsum).2.1]
        decide
      rw [climbTail_stop, chainTail_stop]
      · simpa [hskip] using hproduct
      · simpa [hskip] using hweak
    | some op =>
      obtain ⟨hop, hprecedence⟩ := anyOperator?_of_product hproduct
      rw [climbTail_step hskip hop (Nat.le_of_eq hprecedence.symm),
        chainTail_step hskip hproduct, hprecedence, climb_three]
      cases operand (skipBlank behind) with
      | error failure => rfl
      | ok p => simp only [climbTail_two (.binary op lhs p.value) p.rest]
termination_by text.length
decreasing_by
  exact Nat.lt_trans (Nat.lt_of_lt_of_le p.shorter (length_skipBlank_le behind))
    (length_lt_of_eq_cons (length_skipBlank_le text) hskip)

theorem climb_two : climb operand 2 = chain productOperator? operand := by
  funext text
  rw [climb, chain]
  cases hread : operand text with
  | error failure => rfl
  | ok p =>
    simp only [climbTail_two, bind, Except.bind]
    cases chainTail productOperator? operand p.value p.rest <;> rfl

/-- A chain ends where no operator of its level follows. -/
theorem eq_none_of_chainTail {operator? : Char → Option Arithmetic} {p : Continued Expr text}
    (h : chainTail operator? operand lhs text = .ok p) :
    ∀ c ∈ (skipBlank p.rest).head?, operator? c = none := by
  fun_induction chainTail operator? operand lhs text with
  | case1 lhs text hskip =>
    obtain rfl := Except.ok.inj h
    intro c hc
    change c ∈ (skipBlank text).head? at hc
    rw [hskip] at hc
    cases hc
  | case2 lhs text c behind hskip hop =>
    obtain rfl := Except.ok.inj h
    intro d hd
    change d ∈ (skipBlank text).head? at hd
    rw [hskip] at hd
    obtain rfl : c = d := Option.some.inj hd
    exact hop
  | case3 lhs text c behind hskip op hop failure hread => cases h
  | case4 lhs text c behind hskip op hop rhs middle shorter hread ih =>
    cases htail : chainTail operator? operand (.binary op lhs rhs) middle with
    | error failure =>
      rw [htail] at h
      cases h
    | ok q =>
      rw [htail] at h
      obtain rfl := Except.ok.inj h
      exact ih htail

theorem eq_none_of_chain {operator? : Char → Option Arithmetic} {p : Parsed Expr text}
    (h : chain operator? operand text = .ok p) :
    ∀ c ∈ (skipBlank p.rest).head?, operator? c = none := by
  obtain ⟨lhs, middle, -, ⟨notLonger, htail⟩⟩ := exists_of_chain ⟨p.shorter, h⟩
  exact eq_none_of_chainTail htail

def levelsTail (operand : Reader Expr) (lhs : Expr) (text : List Char) :
    Except Failure (Continued Expr text) :=
  match chainTail productOperator? operand lhs text with
  | .error e => .error e
  | .ok p =>
    (chainTail sumOperator? (chain productOperator? operand) p.value p.rest).map
      fun q => q.widen p.notLonger

/-- Where no product goes on, a sum does. -/
theorem levelsTail_of_stop (lhs : Expr)
    (h : ∀ c ∈ (skipBlank text).head?, productOperator? c = none) :
    levelsTail operand lhs text =
      chainTail sumOperator? (chain productOperator? operand) lhs text := by
  rw [levelsTail, chainTail_stop lhs h]
  change Except.map _ (chainTail sumOperator? (chain productOperator? operand) lhs text) = _
  cases chainTail sumOperator? (chain productOperator? operand) lhs text <;> rfl

theorem climbTail_one_stop (lhs : Expr)
    (h : ∀ c ∈ (skipBlank text).head?, anyOperator? c = none) :
    climbTail operand 1 lhs text = levelsTail operand lhs text := by
  have hweak : ∀ c ∈ (skipBlank text).head?, ∀ op, anyOperator? c = some op → precedence op < 1 :=
    fun c hc op hop => nomatch (h c hc).symm.trans hop
  rw [climbTail_stop lhs hweak,
    levelsTail_of_stop lhs fun c hc => (eq_none_of_anyOperator? (h c hc)).2,
    chainTail_stop lhs fun c hc => (eq_none_of_anyOperator? (h c hc)).1]

/-- Asked for all operators, the loop goes on over a product and then over a sum. -/
theorem climbTail_one (lhs : Expr) (text : List Char) :
    climbTail operand 1 lhs text = levelsTail operand lhs text := by
  cases hskip : skipBlank text with
  | nil => exact climbTail_one_stop lhs (by simp [hskip])
  | cons c behind =>
    cases hop : anyOperator? c with
    | none => exact climbTail_one_stop lhs (by simp [hskip, hop])
    | some op =>
      rcases sum_or_product hop with hsum | hproduct
      · obtain ⟨-, hprecedence, hproduct⟩ := anyOperator?_of_sum hsum
        rw [climbTail_step hskip hop (by omega), levelsTail_of_stop lhs (by simp [hskip, hproduct]),
          chainTail_step hskip hsum, hprecedence, climb_two]
        cases hread : chain productOperator? operand (skipBlank behind) with
        | error failure => rfl
        | ok p =>
          -- The product on the right side was read to its end: only a sum goes on behind it.
          simp only [climbTail_one (.binary op lhs p.value) p.rest]
          rw [levelsTail_of_stop _ (eq_none_of_chain hread)]
      · obtain ⟨-, hprecedence⟩ := anyOperator?_of_product hproduct
        rw [climbTail_step hskip hop (by omega), levelsTail, chainTail_step hskip hproduct,
          hprecedence, climb_three]
        cases operand (skipBlank behind) with
        | error failure => rfl
        | ok p =>
          simp only [climbTail_one (.binary op lhs p.value) p.rest, levelsTail]
          cases chainTail productOperator? operand (.binary op lhs p.value) p.rest with
          | error failure => rfl
          | ok q =>
            simp only [Except.map, joined_value, joined_rest]
            cases chainTail sumOperator? (chain productOperator? operand) q.value q.rest <;> rfl
termination_by text.length
decreasing_by
  all_goals
    exact Nat.lt_trans (Nat.lt_of_lt_of_le p.shorter (length_skipBlank_le behind))
      (length_lt_of_eq_cons (length_skipBlank_le text) hskip)

/-- Precedence climbing reads the sums of products that are read level by level. -/
theorem climb_one : climb operand 1 = arithmetic operand := by
  funext text
  rw [climb, arithmetic, chain, chain]
  cases hread : operand text with
  | error failure => rfl
  | ok p =>
    simp only [climbTail_one, bind, Except.bind, levelsTail]
    cases chainTail productOperator? operand p.value p.rest with
    | error failure => rfl
    | ok q =>
      simp only [pure, Except.pure, Continued.after]
      cases chainTail sumOperator? (chain productOperator? operand) q.value q.rest <;> rfl

end Levels

end Abac.Rule
