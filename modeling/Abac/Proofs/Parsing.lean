import Abac.Parsing

/-!
What readers yield. A reading that succeeds yields a value and leaves a rest; the proof that the
rest is short belongs to the reading and is left out of sight here. A longest run ends where the
first character that does not belong to it stands.
-/
namespace Abac

variable {ε τ α β : Type} {input : List τ}

/-- A reading succeeds with a value and leaves a rest. -/
def Parsed.Yields (reading : Except ε (Parsed α input)) (value : α) (rest : List τ) : Prop :=
  ∃ shorter, reading = .ok ⟨value, rest, shorter⟩

/-- A reading that may find nothing finds a value and leaves a rest. -/
def Parsed.Finds (reading : Option (Parsed α input)) (value : α) (rest : List τ) : Prop :=
  ∃ shorter, reading = some ⟨value, rest, shorter⟩

def Continued.Yields (reading : Except ε (Continued α input)) (value : α) (rest : List τ) : Prop :=
  ∃ notLonger, reading = .ok ⟨value, rest, notLonger⟩

def Continued.Finds (reading : Option (Continued α input)) (value : α) (rest : List τ) : Prop :=
  ∃ notLonger, reading = some ⟨value, rest, notLonger⟩

namespace Parsed

variable {value : α} {rest : List τ}

@[simp] theorem yields_ok {p : Parsed α input} :
    Yields (.ok p : Except ε (Parsed α input)) value rest ↔ p.value = value ∧ p.rest = rest := by
  constructor
  · rintro ⟨shorter, h⟩
    cases h
    exact ⟨rfl, rfl⟩
  · rintro ⟨rfl, rfl⟩
    exact ⟨p.shorter, rfl⟩

@[simp] theorem not_yields_error {e : ε} :
    ¬Yields (.error e : Except ε (Parsed α input)) value rest := by
  rintro ⟨shorter, h⟩
  cases h

theorem exists_yields_ok {p : Parsed α input} {P : α → List τ → Prop} :
    (∃ value rest, Yields (.ok p : Except ε (Parsed α input)) value rest ∧ P value rest) ↔
      P p.value p.rest := by
  constructor
  · rintro ⟨value, rest, h, hP⟩
    obtain ⟨rfl, rfl⟩ := yields_ok.mp h
    exact hP
  · exact fun hP => ⟨p.value, p.rest, yields_ok.mpr ⟨rfl, rfl⟩, hP⟩

/-- A reading whose value is changed and whose rest is kept. -/
theorem yields_map {input' : List τ} {reading : Except ε (Parsed α input)}
    (change : Parsed α input → Parsed β input') (f : α → β) {value : β}
    (hvalue : ∀ p, (change p).value = f p.value) (hrest : ∀ p, (change p).rest = p.rest) :
    Yields (reading.map change) value rest ↔ ∃ v, Yields reading v rest ∧ value = f v := by
  cases reading with
  | error e => simp [Except.map]
  | ok p =>
    simp only [Except.map, yields_ok, hvalue, hrest]
    constructor
    · rintro ⟨rfl, rfl⟩
      exact ⟨p.value, ⟨rfl, rfl⟩, rfl⟩
    · rintro ⟨v, ⟨rfl, rfl⟩, rfl⟩
      exact ⟨rfl, rfl⟩

/-- What was read before the value was changed. -/
theorem Yields.exists_of_map {input' : List τ} {reading : Except ε (Parsed α input)}
    {change : Parsed α input → Parsed β input'} {value : β}
    (h : Yields (reading.map change) value rest) (f : α → β)
    (hvalue : ∀ p, (change p).value = f p.value) (hrest : ∀ p, (change p).rest = p.rest) :
    ∃ v, Yields reading v rest ∧ value = f v :=
  (yields_map change f hvalue hrest).mp h

/-- A reading that goes on from what came before. -/
theorem yields_bind_iff {γ : Type} {before : Except ε γ} {next : γ → Except ε (Parsed α input)} :
    Yields (before >>= next) value rest ↔ ∃ x, before = .ok x ∧ Yields (next x) value rest := by
  cases before with
  | error e =>
    refine iff_of_false not_yields_error ?_
    rintro ⟨x, h, -⟩
    cases h
  | ok x =>
    constructor
    · exact fun h => ⟨x, rfl, h⟩
    · rintro ⟨y, hy, h⟩
      obtain rfl := Except.ok.inj hy
      exact h

/-- What was read and then changed, with its rest kept. -/
theorem Yields.map {input' : List τ} {reading : Except ε (Parsed α input)} {v : α}
    (h : Yields reading v rest) (change : Parsed α input → Parsed β input') (f : α → β)
    (hvalue : ∀ p, (change p).value = f p.value) (hrest : ∀ p, (change p).rest = p.rest) :
    Yields (reading.map change) (f v) rest :=
  (yields_map change f hvalue hrest).mpr ⟨v, h, rfl⟩

/-- A reading that is only seen from further in front. -/
theorem yields_map_of_eq {input' : List τ} {reading : Except ε (Parsed α input)}
    (change : Parsed α input → Parsed α input') {value : α}
    (hvalue : ∀ p, (change p).value = p.value) (hrest : ∀ p, (change p).rest = p.rest) :
    Yields (reading.map change) value rest ↔ Yields reading value rest := by
  rw [yields_map change id hvalue hrest]
  simp

theorem Yields.of_map {input' : List τ} {reading : Except ε (Parsed α input)}
    {change : Parsed α input → Parsed α input'} {value : α}
    (h : Yields (reading.map change) value rest) (hvalue : ∀ p, (change p).value = p.value)
    (hrest : ∀ p, (change p).rest = p.rest) : Yields reading value rest :=
  (yields_map_of_eq change hvalue hrest).mp h

@[simp] theorem finds_some {p : Parsed α input} :
    Finds (some p) value rest ↔ p.value = value ∧ p.rest = rest := by
  constructor
  · rintro ⟨shorter, h⟩
    cases h
    exact ⟨rfl, rfl⟩
  · rintro ⟨rfl, rfl⟩
    exact ⟨p.shorter, rfl⟩

@[simp] theorem not_finds_none : ¬Finds (none : Option (Parsed α input)) value rest := by
  rintro ⟨shorter, h⟩
  cases h

theorem Finds.unique {reading : Option (Parsed α input)} {value' : α} {rest' : List τ}
    (h : Finds reading value rest) (h' : Finds reading value' rest') :
    rest' = rest ∧ value = value' := by
  obtain ⟨shorter, rfl⟩ := h
  exact ⟨(finds_some.mp h').2.symm, (finds_some.mp h').1⟩

/-- A reading whose value is changed and whose rest is kept. -/
theorem finds_map {input' : List τ} {reading : Option (Parsed α input)}
    (change : Parsed α input → Parsed β input') (f : α → β) {value : β}
    (hvalue : ∀ p, (change p).value = f p.value) (hrest : ∀ p, (change p).rest = p.rest) :
    Finds (reading.map change) value rest ↔ ∃ v, Finds reading v rest ∧ value = f v := by
  cases reading with
  | none => simp
  | some p =>
    simp only [Option.map_some, finds_some, hvalue, hrest]
    constructor
    · rintro ⟨rfl, rfl⟩
      exact ⟨p.value, ⟨rfl, rfl⟩, rfl⟩
    · rintro ⟨v, ⟨rfl, rfl⟩, rfl⟩
      exact ⟨rfl, rfl⟩

/-- A reading that is only seen from further in front. -/
theorem finds_map_of_eq {input' : List τ} {reading : Option (Parsed α input)}
    (change : Parsed α input → Parsed α input') (hvalue : ∀ p, (change p).value = p.value)
    (hrest : ∀ p, (change p).rest = p.rest) :
    Finds (reading.map change) value rest ↔ Finds reading value rest := by
  rw [finds_map change id hvalue hrest]
  simp

theorem Finds.of_map {input' : List τ} {reading : Option (Parsed α input)}
    {change : Parsed α input → Parsed α input'} (h : Finds (reading.map change) value rest)
    (hvalue : ∀ p, (change p).value = p.value) (hrest : ∀ p, (change p).rest = p.rest) :
    Finds reading value rest :=
  (finds_map_of_eq change hvalue hrest).mp h

/-- What was found before the value was changed. -/
theorem Finds.exists_of_map {input' : List τ} {reading : Option (Parsed α input)}
    {change : Parsed α input → Parsed β input'} {value : β}
    (h : Finds (reading.map change) value rest) (f : α → β)
    (hvalue : ∀ p, (change p).value = f p.value) (hrest : ∀ p, (change p).rest = p.rest) :
    ∃ v, Finds reading v rest ∧ value = f v :=
  (finds_map change f hvalue hrest).mp h

/-- What is found and then changed, with its rest kept. -/
theorem Finds.map {input' : List τ} {reading : Option (Parsed α input)} {v : α}
    (h : Finds reading v rest) (change : Parsed α input → Parsed β input') (f : α → β)
    (hvalue : ∀ p, (change p).value = f p.value) (hrest : ∀ p, (change p).rest = p.rest) :
    Finds (reading.map change) (f v) rest :=
  (finds_map change f hvalue hrest).mpr ⟨v, h, rfl⟩

end Parsed

namespace Continued

variable {value : α} {rest : List τ}

@[simp] theorem yields_ok {p : Continued α input} :
    Yields (.ok p : Except ε (Continued α input)) value rest ↔ p.value = value ∧ p.rest = rest := by
  constructor
  · rintro ⟨notLonger, h⟩
    cases h
    exact ⟨rfl, rfl⟩
  · rintro ⟨rfl, rfl⟩
    exact ⟨p.notLonger, rfl⟩

@[simp] theorem not_yields_error {e : ε} :
    ¬Yields (.error e : Except ε (Continued α input)) value rest := by
  rintro ⟨notLonger, h⟩
  cases h

@[simp] theorem finds_some {p : Continued α input} :
    Finds (some p) value rest ↔ p.value = value ∧ p.rest = rest := by
  constructor
  · rintro ⟨notLonger, h⟩
    cases h
    exact ⟨rfl, rfl⟩
  · rintro ⟨rfl, rfl⟩
    exact ⟨p.notLonger, rfl⟩

@[simp] theorem not_finds_none : ¬Finds (none : Option (Continued α input)) value rest := by
  rintro ⟨notLonger, h⟩
  cases h

/-- What is found and only seen from further in front. -/
theorem finds_map_of_eq {input' : List τ} {reading : Option (Continued α input)}
    (change : Continued α input → Continued α input') (hvalue : ∀ p, (change p).value = p.value)
    (hrest : ∀ p, (change p).rest = p.rest) :
    Finds (reading.map change) value rest ↔ Finds reading value rest := by
  cases reading with
  | none => simp
  | some p => simp [hvalue, hrest]

/-- What was read before the value was changed. -/
theorem Yields.exists_of_map {input' : List τ} {reading : Except ε (Continued α input)}
    {change : Continued α input → Continued β input'} {value : β}
    (h : Yields (reading.map change) value rest) (f : α → β)
    (hvalue : ∀ p, (change p).value = f p.value) (hrest : ∀ p, (change p).rest = p.rest) :
    ∃ v, Yields reading v rest ∧ value = f v := by
  cases reading with
  | error e => exact absurd h not_yields_error
  | ok p =>
    obtain ⟨rfl, rfl⟩ := yields_ok.mp h
    exact ⟨p.value, yields_ok.mpr ⟨rfl, (hrest p).symm⟩, hvalue p⟩

/-- A reading that is only seen from further in front. -/
theorem Yields.of_map {input' : List τ} {reading : Except ε (Continued α input)}
    {change : Continued α input → Continued α input'} (h : Yields (reading.map change) value rest)
    (hvalue : ∀ p, (change p).value = p.value) (hrest : ∀ p, (change p).rest = p.rest) :
    Yields reading value rest := by
  cases reading with
  | error e => exact absurd h not_yields_error
  | ok p =>
    obtain ⟨rfl, rfl⟩ := yields_ok.mp h
    exact yields_ok.mpr ⟨(hvalue p).symm, (hrest p).symm⟩

end Continued

def Halts (p : τ → Bool) (input : List τ) : Prop := ∀ c ∈ input.head?, p c = false

theorem halts_nil (p : τ → Bool) : Halts p [] := by
  intro c hc
  cases hc

theorem halts_cons {p : τ → Bool} {c : τ} {rest : List τ} (h : p c = false) :
    Halts p (c :: rest) := by
  intro other hother
  obtain rfl : c = other := Option.some.inj hother
  exact h

instance (p : τ → Bool) : (input : List τ) → Decidable (Halts p input)
  | [] => isTrue (halts_nil p)
  | c :: _ => decidable_of_iff (p c = false) ⟨halts_cons, fun h => h c rfl⟩

theorem takeWhile_append_of_halts {p : τ → Bool} {run rest : List τ} (hrun : ∀ c ∈ run, p c = true)
    (hrest : Halts p rest) : (run ++ rest).takeWhile p = run := by
  rw [List.takeWhile_append_of_pos hrun]
  cases rest with
  | nil => simp
  | cons c rest =>
    have hc : ¬p c = true := by simp [hrest c rfl]
    rw [List.takeWhile_cons_of_neg hc, List.append_nil]

theorem dropWhile_append_of_halts {p : τ → Bool} {run rest : List τ} (hrun : ∀ c ∈ run, p c = true)
    (hrest : Halts p rest) : (run ++ rest).dropWhile p = rest := by
  rw [List.dropWhile_append_of_pos hrun]
  cases rest with
  | nil => rfl
  | cons c rest =>
    have hc : ¬p c = true := by simp [hrest c rfl]
    rw [List.dropWhile_cons_of_neg hc]

/-- A run that is not empty is taken whole if what stands behind does not belong to it. -/
theorem takeRun?_cons_append {p : τ → Bool} {c : τ} {tail rest : List τ}
    (hrun : ∀ d ∈ c :: tail, p d = true) (hrest : Halts p rest) :
    Parsed.Finds (takeRun? p (c :: (tail ++ rest))) (c :: tail) rest := by
  have hc : p c = true := hrun c List.mem_cons_self
  have htail : ∀ d ∈ tail, p d = true := fun d hd => hrun d (List.mem_cons_of_mem c hd)
  rw [takeRun?, if_pos hc, Parsed.finds_some]
  constructor
  · change c :: (tail ++ rest).takeWhile p = c :: tail
    rw [takeWhile_append_of_halts htail hrest]
  · exact dropWhile_append_of_halts htail hrest

/-- What a longest run takes belongs to it, and what stands behind does not. -/
theorem takeRun?_eq_some {p : τ → Bool} {run : Parsed (List τ) input}
    (h : takeRun? p input = some run) :
    input = run.value ++ run.rest ∧ run.value ≠ [] ∧ (∀ c ∈ run.value, p c = true) ∧
      Halts p run.rest := by
  cases input with
  | nil => cases h
  | cons c rest =>
    rw [takeRun?] at h
    split at h
    · next hc =>
      obtain rfl := Option.some.inj h
      refine ⟨?_, List.cons_ne_nil c _, ?_, ?_⟩
      · change c :: rest = c :: (rest.takeWhile p ++ rest.dropWhile p)
        rw [List.takeWhile_append_dropWhile]
      · intro d hd
        rcases List.mem_cons.mp hd with rfl | hd
        · exact hc
        · exact List.all_eq_true.mp (List.all_takeWhile) d hd
      · intro d hd
        have hstop := List.head?_dropWhile_not p rest
        change (rest.dropWhile p).head? = some d at hd
        rw [hd] at hstop
        simpa using hstop
    · cases h

end Abac
