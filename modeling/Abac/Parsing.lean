/-!
What a reader takes from the front of its input. `Parsed α input` holds the value read and the rest
of the input, and the proof that the rest is shorter: a reader that calls another one on the rest,
and a loop over readers, end for that reason alone. `Continued α input` is the same for a reader
that may take nothing. What was read from a later place of the input was read from the input:
`behind`, `past` and `after` say so for a place behind the first token, behind the first token that
is not skipped, and behind what another reader took.
-/
namespace Abac

/-- A value read from the front of `input`, and the rest of the input. -/
structure Parsed {τ : Type} (α : Type) (input : List τ) where
  value : α
  rest : List τ
  shorter : rest.length < input.length

/-- A value read from the front of `input`, and the rest of the input, which may be all of it. -/
structure Continued {τ : Type} (α : Type) (input : List τ) where
  value : α
  rest : List τ
  notLonger : rest.length ≤ input.length

/-- The tokens behind the first that is not skipped are fewer than the input. -/
theorem length_lt_of_eq_cons {τ : Type} {input skipped rest : List τ} {c : τ}
    (hle : skipped.length ≤ input.length) (h : skipped = c :: rest) :
    rest.length < input.length := by
  rw [h, List.length_cons] at hle
  exact hle

namespace Parsed

variable {τ α β : Type} {input skipped rest : List τ} {c : τ}

theorem ext {a b : Parsed α input} (hv : a.value = b.value) (hr : a.rest = b.rest) : a = b := by
  cases a
  cases b
  simp_all

def map (f : α → β) (p : Parsed α input) : Parsed β input := ⟨f p.value, p.rest, p.shorter⟩

/-- What was read from an end of `input` was read from `input`. -/
def widen (p : Parsed α rest) (h : rest.length ≤ input.length) : Parsed α input :=
  ⟨p.value, p.rest, Nat.lt_of_lt_of_le p.shorter h⟩

def first (value : α) : Parsed α (c :: rest) := ⟨value, rest, Nat.lt_succ_self _⟩

def behind (p : Parsed α rest) : Parsed α (c :: rest) := p.widen (Nat.le_succ _)

def token (hle : skipped.length ≤ input.length) (h : skipped = c :: rest) (value : α) :
    Parsed α input :=
  ⟨value, rest, length_lt_of_eq_cons hle h⟩

def past (hle : skipped.length ≤ input.length) (h : skipped = c :: rest) (p : Parsed α rest) :
    Parsed α input :=
  p.widen (Nat.le_of_lt (length_lt_of_eq_cons hle h))

def after (h : rest.length < input.length) (p : Parsed α rest) : Parsed α input :=
  p.widen (Nat.le_of_lt h)

def continued (p : Parsed α input) : Continued α input := ⟨p.value, p.rest, Nat.le_of_lt p.shorter⟩

@[simp] theorem map_value (f : α → β) (p : Parsed α input) : (p.map f).value = f p.value := rfl

@[simp] theorem map_rest (f : α → β) (p : Parsed α input) : (p.map f).rest = p.rest := rfl

@[simp] theorem widen_value (p : Parsed α rest) (h : rest.length ≤ input.length) :
    (p.widen h).value = p.value := rfl

@[simp] theorem widen_rest (p : Parsed α rest) (h : rest.length ≤ input.length) :
    (p.widen h).rest = p.rest := rfl

end Parsed

namespace Continued

variable {τ α β : Type} {input skipped rest : List τ} {c : τ}

theorem ext {a b : Continued α input} (hv : a.value = b.value) (hr : a.rest = b.rest) : a = b := by
  cases a
  cases b
  simp_all

def map (f : α → β) (p : Continued α input) : Continued β input := ⟨f p.value, p.rest, p.notLonger⟩

def start (value : α) : Continued α input := ⟨value, input, Nat.le_refl _⟩

def drop (count : Nat) (value : α) : Continued α input :=
  ⟨value, input.drop count, by rw [List.length_drop]; exact Nat.sub_le _ _⟩

def widen (p : Continued α rest) (h : rest.length ≤ input.length) : Continued α input :=
  ⟨p.value, p.rest, Nat.le_trans p.notLonger h⟩

def behind (p : Continued α rest) : Parsed α (c :: rest) :=
  ⟨p.value, p.rest, Nat.lt_succ_of_le p.notLonger⟩

def past (hle : skipped.length ≤ input.length) (h : skipped = c :: rest) (p : Continued α rest) :
    Parsed α input :=
  ⟨p.value, p.rest, Nat.lt_of_le_of_lt p.notLonger (length_lt_of_eq_cons hle h)⟩

def after (h : rest.length < input.length) (p : Continued α rest) : Parsed α input :=
  ⟨p.value, p.rest, Nat.lt_of_le_of_lt p.notLonger h⟩

end Continued

/-! ## Runs -/

section Runs

variable {τ : Type}

theorem length_dropWhile_le (p : τ → Bool) (input : List τ) :
    (input.dropWhile p).length ≤ input.length := (List.dropWhile_suffix p).length_le

def takeRun (p : τ → Bool) (input : List τ) : Continued (List τ) input :=
  ⟨input.takeWhile p, input.dropWhile p, length_dropWhile_le p input⟩

def takeRun? (p : τ → Bool) : (input : List τ) → Option (Parsed (List τ) input)
  | [] => none
  | c :: rest => if p c then some ((takeRun p rest).map (c :: ·)).behind else none

end Runs

end Abac
