import Abac.Proofs.GroupExpr.Faults
import Abac.Proofs.Rule.Faults
import Abac.Proofs.Rule.Soundness

/-!
How the readings of rules and of group expressions end. Both are recursive in the text that is left
and in the levels of nesting that are left. What a reader takes is a front of its text and not empty
(`TakesSome`), so a loop over readers comes to an end, and going inside an operand costs a level. So
a text is read, or it is refused with itself and with a place that lies in it, and the levels are
used up only behind as many characters as there are levels (`parsing_ends_within_text`).
-/
namespace Abac

variable {α ε τ : Type}

def TakesSome (reader : (input : List τ) → Except ε (Parsed α input)) : Prop :=
  ∀ (input : List τ) (value : α) (rest : List τ), Parsed.Yields (reader input) value rest →
    ∃ taken, taken ≠ [] ∧ input = taken ++ rest

/-- A reader that leaves an end of its input takes something, since the end is shorter. -/
theorem takesSome_of_suffix {reader : (input : List τ) → Except ε (Parsed α input)}
    (h : ∀ input value rest, Parsed.Yields (reader input) value rest → rest <:+ input) :
    TakesSome reader := by
  intro input value rest hread
  obtain ⟨taken, hinput⟩ := h input value rest hread
  obtain ⟨shorter, -⟩ := hread
  refine ⟨taken, ?_, hinput.symm⟩
  rintro rfl
  exact absurd (congrArg List.length hinput) shorter.ne

/-- The part of a text in front of its last `left` characters. -/
theorem exists_append_of_left_le {text : List τ} {left : Nat} (h : left ≤ text.length) :
    ∃ before rest, text = before ++ rest ∧ rest.length = left ∧
      before.length = text.length - left := by
  refine ⟨text.take (text.length - left), text.drop (text.length - left),
    (List.take_append_drop _ _).symm, ?_, ?_⟩
  · rw [List.length_drop, Nat.sub_sub_self h]
  · exact List.length_take_of_le (Nat.sub_le _ _)

theorem le_length_of_add_le {before rest : List τ} {limit : Nat}
    (h : rest.length + limit ≤ (before ++ rest).length) : limit ≤ before.length := by
  rw [List.length_append, Nat.add_comm] at h
  exact Nat.le_of_add_le_add_right h

namespace Rule

theorem takesSome_primary (levels : Nat) : TakesSome (primary levels) :=
  takesSome_of_suffix fun text e rest hread =>
    (ensuresOn_primary text levels text e rest List.suffix_rfl hread).1

theorem takesSome_arithmetic (levels : Nat) : TakesSome (arithmetic (primary levels)) :=
  takesSome_of_suffix fun text e rest hread =>
    ((ensuresOn_primary text levels).arithmetic text e rest List.suffix_rfl hread).1

theorem parse_eq_error {source : String} {failure : Failure}
    (h : statement source.toList = .error failure) :
    ∃ before rest, source.toList = before ++ rest ∧ rest.length = failure.left ∧
      parse source = .error (.rule source before.length failure.fault) ∧
      (failure.fault = .nestedTooDeep → nestingLimit ≤ before.length) := by
  have hwithin := within_of_statement h
  obtain ⟨before, rest, hsource, hrest, hbefore⟩ := exists_append_of_left_le hwithin.left_le
  refine ⟨before, rest, hsource, hrest, ?_, fun hdeep => ?_⟩
  · rw [parse, h, hbefore]
  · have hdeep := hwithin.left_add_le hdeep
    rw [hsource, ← hrest] at hdeep
    exact le_length_of_add_le hdeep

end Rule

namespace GroupExpr

theorem LeavesEnd.takesSome {reader : Reader} (h : LeavesEnd reader) : TakesSome reader :=
  takesSome_of_suffix fun input e rest hread => by
    obtain ⟨taken, hinput, -⟩ := h input e rest hread
    exact ⟨taken, hinput.symm⟩

theorem parse_eq_error {source : String} {failure : Failure}
    (h : tokens source.toList >>= ofTokens = .error failure) :
    ∃ before rest, source.toList = before ++ rest ∧ rest.length = failure.left ∧
      parse source = .error (.expression source before.length failure.fault) ∧
      (failure.fault = .nestedTooDeep → nestingLimit ≤ before.length) := by
  obtain ⟨hleft, hlevels⟩ := left_le_of_tokens h
  obtain ⟨before, rest, hsource, hrest, hbefore⟩ := exists_append_of_left_le hleft
  refine ⟨before, rest, hsource, hrest, ?_, fun hdeep => ?_⟩
  · rw [parse, h, hbefore]
  · have hdeep := hlevels hdeep
    rw [hsource, ← hrest] at hdeep
    exact le_length_of_add_le hdeep

end GroupExpr

/-- Every text is read as a rule, or it is refused as one with itself and with the number of the
characters in front of the fault, which is the number of all characters at most; and so for group
expressions. The readers in them that call each other take something from the front of what they
read, or fail in it, and for the want of levels only behind as many characters or tokens as they had
levels. -/
theorem parsing_ends_within_text :
    (∀ source, (∃ clause, Rule.parse source = .ok clause) ∨
      ∃ before rest fault, source.toList = before ++ rest ∧
        Rule.statement source.toList = .error ⟨fault, rest.length⟩ ∧
        Rule.parse source = .error (.rule source before.length fault) ∧
        (fault = .nestedTooDeep → Rule.nestingLimit ≤ before.length)) ∧
    (∀ source, (∃ e, GroupExpr.parse source = .ok e) ∨
      ∃ before rest fault, source.toList = before ++ rest ∧
        GroupExpr.tokens source.toList >>= GroupExpr.ofTokens = .error ⟨fault, rest.length⟩ ∧
        GroupExpr.parse source = .error (.expression source before.length fault) ∧
        (fault = .nestedTooDeep → GroupExpr.nestingLimit ≤ before.length)) ∧
    (∀ levels, TakesSome (Rule.primary levels) ∧ TakesSome (Rule.arithmetic (Rule.primary levels)) ∧
      Rule.FailsWithin levels (Rule.arithmetic (Rule.primary levels))) ∧
    ∀ levels ≤ GroupExpr.nestingLimit, TakesSome (GroupExpr.operand levels) ∧
      TakesSome (GroupExpr.disjunction (GroupExpr.operand levels)) ∧
      GroupExpr.FailsWithin levels (GroupExpr.disjunction (GroupExpr.operand levels)) := by
  refine ⟨fun source => ?_, fun source => ?_, fun levels => ?_, fun levels hlevels => ?_⟩
  · cases h : Rule.statement source.toList with
    | ok s => exact .inl ⟨_, by rw [Rule.parse, h]⟩
    | error failure =>
      obtain ⟨before, rest, hsource, hrest, hparse, hdeep⟩ := Rule.parse_eq_error h
      exact .inr ⟨before, rest, failure.fault, hsource, by rw [hrest], hparse, hdeep⟩
  · cases h : GroupExpr.tokens source.toList >>= GroupExpr.ofTokens with
    | ok e => exact .inl ⟨e, by rw [GroupExpr.parse, h]⟩
    | error failure =>
      obtain ⟨before, rest, hsource, hrest, hparse, hdeep⟩ := GroupExpr.parse_eq_error h
      exact .inr ⟨before, rest, failure.fault, hsource, by rw [hrest], hparse, hdeep⟩
  · exact ⟨Rule.takesSome_primary levels, Rule.takesSome_arithmetic levels,
      (Rule.failsWithin_primary levels).arithmetic⟩
  · have hend := (GroupExpr.sound_operand levels hlevels).leavesEnd
    exact ⟨hend.takesSome, hend.disjunction.takesSome,
      (GroupExpr.failsWithin_operand hlevels).disjunction hend⟩

/-- What is not closed is missed at the end of the text. -/
theorem parsing_ends_within_text_unclosed :
    Rule.parse "a=[b" = .error (.rule "a=[b" 4 .arraySeparator) ∧
      GroupExpr.parse "NOT (a" = .error (.expression "NOT (a" 6 .missingClosing) := by
  obtain ⟨hrule, hgroup, -⟩ := parsing_ends_within_text
  have hstatement : Rule.statement "a=[b".toList = .error ⟨.arraySeparator, 0⟩ := by cbv
  have htokens : GroupExpr.tokens "NOT (a".toList >>= GroupExpr.ofTokens =
      .error ⟨.missingClosing, 0⟩ := by cbv
  constructor
  · rcases hrule "a=[b" with ⟨clause, h⟩ | ⟨before, rest, fault, hsource, hfault, hparse, -⟩
    · rw [Rule.parse, hstatement] at h
      cases h
    · obtain ⟨rfl, hrest⟩ := Rule.Failure.mk.inj (Except.error.inj (hstatement.symm.trans hfault))
      obtain rfl := List.length_eq_zero_iff.mp hrest.symm
      rw [List.append_nil] at hsource
      rw [hparse, ← hsource]
      rfl
  · rcases hgroup "NOT (a" with ⟨e, h⟩ | ⟨before, rest, fault, hsource, hfault, hparse, -⟩
    · rw [GroupExpr.parse, htokens] at h
      cases h
    · obtain ⟨rfl, hrest⟩ :=
        GroupExpr.Failure.mk.inj (Except.error.inj (htokens.symm.trans hfault))
      obtain rfl := List.length_eq_zero_iff.mp hrest.symm
      rw [List.append_nil] at hsource
      rw [hparse, ← hsource]
      rfl

end Abac
