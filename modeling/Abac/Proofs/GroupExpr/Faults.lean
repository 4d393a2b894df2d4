import Abac.Proofs.GroupExpr.Grammar
import Abac.Proofs.Traversal
import Mathlib.Order.Basic
import Mathlib.Data.Nat.Basic

/-!
Where the readers of group expressions fail. A token is placed by the number of characters from its
start on, and the tokens of a text stand one behind the other, in front of its end
(`GroupExpr.Placed`). A reader fails at a token or at the end, and what it reads over is shorter for
each token, so the place lies in the text; and a reader with some levels left says that the operands
nest too deep only behind as many tokens as it had levels, for every level is entered by `NOT` or a
parenthesis (`GroupExpr.left_le_of_tokens`).
-/
namespace Abac.GroupExpr

def front : List Token → Nat
  | [] => 0
  | token :: _ => token.left

def Placed : List Token → Prop
  | [] => True
  | token :: rest => front rest < token.left ∧ Placed rest

/-- A failure at one of the tokens or at the end of the text, which lies behind `levels` of them if
the operands nest too deep there. -/
structure Failure.Within (levels : Nat) (input : List Token) (failure : Failure) : Prop where
  left_le : failure.left ≤ front input
  left_add_le : failure.fault = .nestedTooDeep → failure.left + levels ≤ front input

/-- A reader with `levels` levels left fails among the tokens that it reads, or at their end, and
for the want of levels only when these are used up. -/
def FailsWithin (levels : Nat) (reader : Reader) : Prop :=
  ∀ (input : List Token) (failure : Failure), Placed input → reader input = .error failure →
    failure.Within levels input

variable {levels : Nat} {token : Token} {input taken rest : List Token} {failure : Failure}

theorem Placed.of_append (h : Placed (taken ++ rest)) :
    Placed rest ∧ front rest ≤ front (taken ++ rest) := by
  induction taken with
  | nil => exact ⟨h, Nat.le_refl _⟩
  | cons token taken ih =>
    obtain ⟨hrest, hle⟩ := ih h.2
    exact ⟨hrest, hle.trans h.1.le⟩

theorem Failure.Within.mono (h : failure.Within levels rest) (hrest : front rest ≤ front input) :
    failure.Within levels input :=
  ⟨h.left_le.trans hrest, fun hdeep => (h.left_add_le hdeep).trans hrest⟩

/-- A token in front makes room for a level. -/
theorem Failure.Within.behind (h : failure.Within levels rest) (hrest : front rest < token.left) :
    failure.Within (levels + 1) (token :: rest) :=
  ⟨h.left_le.trans hrest.le, fun hdeep => (h.left_add_le hdeep).trans_lt hrest⟩

theorem failAt_eq {α : Type} (input : List Token) (fault : Fault) :
    (failAt input fault : Except Failure α) = .error ⟨fault, front input⟩ := by
  cases input <;> rfl

theorem within_of_failAt {α : Type} {fault : Fault}
    (h : (failAt input fault : Except Failure α) = .error failure)
    (hfault : fault ≠ .nestedTooDeep) : failure.Within levels input := by
  rw [failAt_eq] at h
  obtain rfl := Except.error.inj h
  exact ⟨Nat.le_refl _, fun hdeep => absurd hdeep hfault⟩

/-! ## Readers -/

section Readers

variable {kind : TokenKind} {join : GroupExpr → GroupExpr → GroupExpr} {operand inner : Reader}
  {lhs e : GroupExpr}

def LeavesEnd (reader : Reader) : Prop := Sound reader fun _ _ => True

theorem Sound.leavesEnd {P : List TokenKind → GroupExpr → Prop} (h : Sound operand P) :
    LeavesEnd operand := by
  intro input e rest hread
  obtain ⟨taken, hinput, -⟩ := h input e rest hread
  exact ⟨taken, hinput, trivial⟩

theorem LeavesEnd.chain (h : LeavesEnd operand) : LeavesEnd (GroupExpr.chain kind join operand) :=
  Sound.chain h (fun _ => trivial) fun _ _ => trivial

theorem LeavesEnd.disjunction (h : LeavesEnd operand) : LeavesEnd (GroupExpr.disjunction operand) :=
  h.chain.chain

theorem LeavesEnd.placed (h : LeavesEnd operand) (hinput : Placed input)
    (hread : Parsed.Yields (operand input) e rest) : Placed rest ∧ front rest ≤ front input := by
  obtain ⟨taken, rfl, -⟩ := h input e rest hread
  exact hinput.of_append

theorem within_of_chainTail (hend : LeavesEnd operand) (hoperand : FailsWithin levels operand)
    (hinput : Placed input) (h : chainTail kind join operand lhs input = .error failure) :
    failure.Within levels input := by
  fun_induction chainTail kind join operand lhs input with
  | case1 => cases h
  | case2 lhs token rest hkind failure' hread =>
    obtain rfl := Except.error.inj h
    exact (hoperand rest _ hinput.2 hread).mono hinput.1.le
  | case3 lhs token rest hkind rhs middle shorter hread ih =>
    obtain ⟨hmiddle, hle⟩ := hend.placed hinput.2 ⟨shorter, hread⟩
    exact (ih hmiddle (map_eq_error_iff.mp h)).mono (hle.trans hinput.1.le)
  | case4 => cases h

theorem FailsWithin.chain (hend : LeavesEnd operand) (hoperand : FailsWithin levels operand) :
    FailsWithin levels (GroupExpr.chain kind join operand) := by
  intro input failure hinput h
  rw [GroupExpr.chain] at h
  rcases bind_eq_error_iff.mp h with h | ⟨p, hread, h⟩
  · exact hoperand _ _ hinput h
  · obtain ⟨hrest, hle⟩ := hend.placed hinput ⟨p.shorter, hread⟩
    rcases bind_eq_error_iff.mp h with h | ⟨_, -, h⟩
    · exact (within_of_chainTail hend hoperand hrest h).mono hle
    · cases h

theorem FailsWithin.disjunction (hend : LeavesEnd operand) (hoperand : FailsWithin levels operand) :
    FailsWithin levels (GroupExpr.disjunction operand) :=
  (hoperand.chain hend).chain hend.chain

theorem within_of_closing (h : closing e input = .error failure) :
    failure.Within levels input := by
  cases input with
  | nil => exact within_of_failAt h (by simp)
  | cons token rest =>
    rw [closing] at h
    split at h
    · cases h
    · exact within_of_failAt h (by simp)

/-- What stands inside an operand has a level less than the operand. -/
theorem FailsWithin.operandHere (hend : LeavesEnd inner) (hinner : FailsWithin levels inner) :
    FailsWithin (levels + 1) (GroupExpr.operandHere inner) := by
  intro input failure hinput h
  cases input with
  | nil => exact within_of_failAt h (by simp)
  | cons token rest =>
    rw [GroupExpr.operandHere] at h
    split at h
    · exact (hinner _ _ hinput.2 (map_eq_error_iff.mp h)).behind hinput.1
    · cases h
    · split at h
      · next hread =>
        obtain rfl := Except.error.inj h
        exact (hinner.disjunction hend _ _ hinput.2 hread).behind hinput.1
      · next e rest' shorter hread =>
        have hle := (hend.disjunction.placed hinput.2 ⟨shorter, hread⟩).2
        exact (within_of_closing (map_eq_error_iff.mp (map_eq_error_iff.mp h))).mono
          (hle.trans hinput.1.le)
    · exact within_of_failAt h (by simp)

theorem failsWithin_operand (hlevels : levels ≤ nestingLimit) :
    FailsWithin levels (GroupExpr.operand levels) := by
  induction levels with
  | zero =>
    intro input failure hinput h
    rw [GroupExpr.operand, failAt_eq] at h
    obtain rfl := Except.error.inj h
    exact ⟨Nat.le_refl _, fun _ => Nat.le_refl _⟩
  | succ levels ih =>
    have hinner : levels ≤ nestingLimit := (Nat.le_succ levels).trans hlevels
    exact (ih hinner).operandHere (sound_operand levels hinner).leavesEnd

end Readers

/-! ## Texts -/

def PlacedWithin (bound : Nat) : Except Failure (List Token) → Prop
  | .ok input => Placed input ∧ front input ≤ bound
  | .error failure => failure.left ≤ bound ∧ failure.fault ≠ .nestedTooDeep

variable {bound : Nat} {reading : Except Failure (List Token)}

theorem PlacedWithin.succ (h : PlacedWithin bound reading) : PlacedWithin (bound + 1) reading := by
  cases reading with
  | error failure => exact ⟨Nat.le_succ_of_le h.1, h.2⟩
  | ok input => exact ⟨h.1, Nat.le_succ_of_le h.2⟩

theorem PlacedWithin.cons (h : PlacedWithin bound reading) (hbound : bound < token.left) :
    PlacedWithin token.left (reading.map (token :: ·)) := by
  cases reading with
  | error failure => exact ⟨h.1.trans hbound.le, h.2⟩
  | ok input => exact ⟨⟨h.2.trans_lt hbound, h.1⟩, Nat.le_refl _⟩

theorem placedWithin_tokens (text : List Char) : PlacedWithin text.length (tokens text) := by
  fun_induction tokens text with
  | case1 => exact ⟨trivial, Nat.le_refl _⟩
  | case2 c rest hblank ih => exact ih.succ
  | case3 rest hblank ih => exact ih.cons (Nat.lt_succ_self _)
  | case4 rest hblank hopening ih => exact ih.cons (Nat.lt_succ_self _)
  | case5 c rest hblank hopening hclosing word rest' shorter hrun ih => exact ih.cons shorter
  | case6 => exact ⟨Nat.le_refl _, by simp⟩

theorem within_of_ofTokens (hinput : Placed input) (h : ofTokens input = .error failure) :
    failure.Within nestingLimit input := by
  rw [ofTokens] at h
  have hend := (sound_operand nestingLimit (Nat.le_refl _)).leavesEnd
  rcases bind_eq_error_iff.mp h with h | ⟨p, hread, h⟩
  · exact (failsWithin_operand (Nat.le_refl _)).disjunction hend _ _ hinput h
  · dsimp only at h
    split at h
    · cases h
    · next token rest hrest =>
      have hle := (hend.disjunction.placed hinput ⟨p.shorter, hread⟩).2
      exact (within_of_failAt h (by simp)).mono (hrest ▸ hle)

/-- A text that is no group expression fails inside of it, or at its end, and its operands nest too
deep only behind as many characters as there are levels. -/
theorem left_le_of_tokens {text : List Char} (h : tokens text >>= ofTokens = .error failure) :
    failure.left ≤ text.length ∧
      (failure.fault = .nestedTooDeep → failure.left + nestingLimit ≤ text.length) := by
  have hplaced := placedWithin_tokens text
  rcases bind_eq_error_iff.mp h with h | ⟨input, hinput, h⟩
  · rw [h] at hplaced
    exact ⟨hplaced.1, fun hdeep => absurd hdeep hplaced.2⟩
  · rw [hinput] at hplaced
    have hwithin := within_of_ofTokens hplaced.1 h
    exact ⟨hwithin.left_le.trans hplaced.2,
      fun hdeep => (hwithin.left_add_le hdeep).trans hplaced.2⟩

end Abac.GroupExpr
