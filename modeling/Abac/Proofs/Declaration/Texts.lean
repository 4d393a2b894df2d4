import Abac.Proofs.Declaration.Contents
import Abac.Proofs.Json.Skipping

/-!
Declarations from text. The members of an object are drafted one by one, and so are the elements of
an array; what stands under an unknown name is passed over. The reader of declarations takes the
documents that are declarations (`reads_declaration`), and a text is one just when it is such a
document (`ofText_eq_ok_iff`).
-/
namespace Abac.Declaration

open Json (Document Spells Tail Listed Entry)
open Json.Token
open Parsed (Yields)

theorem yields_separator_iff {first : Bool} {text start : List Char} :
    Continued.Yields (separator first text) () start ↔
      if first then start = text else skipSpaces text = ',' :: start := by
  unfold separator
  cases first with
  | true => exact Continued.yields_ok.trans ⟨fun h => h.2.symm, fun h => ⟨rfl, h.symm⟩⟩
  | false =>
    simp only [Bool.false_eq_true, if_false]
    split
    · next next hcomma =>
      rw [Continued.yields_ok]
      change () = () ∧ next = start ↔ _
      simp [hcomma]
    · next hcomma => exact iff_of_false Continued.not_yields_error (hcomma _)

theorem yields_elementSeparator_iff {first : Bool} {text start : List Char}
    (hstart : (skipSpaces start).head? ≠ some ']') :
    Continued.Yields (elementSeparator first text) () start ↔
      if first then start = text else skipSpaces text = ',' :: start := by
  rw [← yields_separator_iff, elementSeparator]
  cases separator first text with
  | error fault => exact Iff.rfl
  | ok p =>
    dsimp only
    split
    · next hclose =>
      refine iff_of_false Continued.not_yields_error fun h => ?_
      obtain ⟨-, rfl⟩ := Continued.yields_ok.mp h
      exact hstart (by simpa using (Bool.and_eq_true_iff.mp hclose).2)
    · rfl

section Fields

variable {policy : Option (Reader Declaration)} {declares : Document → Declaration → Prop}
  (hpolicy : ReadsPolicy policy declares)

include hpolicy

theorem takes_fieldValue_iff (draft : Draft) {result : Draft} {field : Field}
    {text rest : List Char} :
    Reader.takes (fieldValue policy draft field) text result rest ↔ ∃ doc, Spells text doc rest ∧
      ∃ content, field.Means policy.isSome declares doc content ∧
        result = draft.set field content := by
  have hcontent {reader : Reader field.Content}
      (hreader : Reads reader (field.Means policy.isSome declares))
      (hvalue : fieldValue policy draft field text =
        (reader text).map fun p => p.map (draft.set field)) :
      Reader.takes (fieldValue policy draft field) text result rest ↔ ∃ doc, Spells text doc rest ∧
        ∃ content, field.Means policy.isSome declares doc content ∧
          result = draft.set field content := by
    rw [Reader.takes, hvalue, Parsed.yields_map _ (draft.set field) (fun _ => rfl) fun _ => rfl]
    constructor
    · rintro ⟨content, h, rfl⟩
      obtain ⟨doc, hdoc, hmeans⟩ := (hreader _ _ _).mp h
      exact ⟨doc, hdoc, content, hmeans, rfl⟩
    · rintro ⟨doc, hdoc, content, hmeans, rfl⟩
      exact ⟨content, (hreader _ _ _).mpr ⟨doc, hdoc, hmeans⟩, rfl⟩
  cases field with
  | effect => exact hcontent (reads_nullable (reads_effect _) (by simp [MeansEffect])) rfl
  | target => exact hcontent (reads_nullable (reads_rules _) (by simp [MeansRules])) rfl
  | condition => exact hcontent (reads_nullable (reads_rules _) (by simp [MeansRules])) rfl
  | expression => exact hcontent (reads_nullable (reads_string _) (by simp [MeansText])) rfl
  | policies => exact hcontent (reads_nullable (reads_members hpolicy) (by simp [MeansMembers])) rfl

theorem takes_field_iff {draft : Draft} {seen : List Field} {text rest : List Char}
    {result : Draft × List Field} :
    Reader.takes (field policy draft seen) text result rest ↔ ∃ member,
      Entry Spells text member rest ∧
        DraftsMember (Field.Means policy.isSome declares) draft seen member result := by
  constructor
  · intro h
    obtain ⟨⟨name, behind, hshorter⟩, hname, h⟩ := Parsed.yields_bind_iff.mp h
    have hname := yields_token_iff.mp ⟨hshorter, hname⟩
    dsimp only at h
    split at h
    · next field hfield =>
      split at h
      · exact absurd h Parsed.not_yields_error
      · next hseen =>
        obtain ⟨⟨⟨⟩, next, hnext⟩, hcolon, h⟩ := Parsed.yields_bind_iff.mp h
        obtain ⟨p, hp, h⟩ := Parsed.yields_bind_iff.mp h
        obtain ⟨rfl, rfl⟩ := Parsed.yields_ok.mp h
        obtain ⟨doc, hdoc, content, hcontent, hresult⟩ :=
          (takes_fieldValue_iff hpolicy draft).mp ⟨p.shorter, hp⟩
        obtain rfl := Field.name_of_ofName? hfield
        refine ⟨_, .intro (.of_quoted hname) (yields_colon_iff.mp ⟨hnext, hcolon⟩) hdoc, ?_⟩
        change DraftsMember _ draft seen (some field.name, doc) (p.value, field :: seen)
        rw [hresult]
        exact .known (mt List.elem_eq_true_of_mem hseen) hcontent
    · next hfield =>
      obtain ⟨⟨⟨⟩, next, hnext⟩, hcolon, h⟩ := Parsed.yields_bind_iff.mp h
      dsimp only at h
      split at h
      · next p hp =>
        obtain ⟨rfl, rfl⟩ := Parsed.yields_ok.mp h
        obtain ⟨doc, hdoc⟩ := Json.finds_skipValue_iff.mp ⟨p.notLonger, hp⟩
        exact ⟨_, .intro (.of_quoted hname) (yields_colon_iff.mp ⟨hnext, hcolon⟩) hdoc,
          .unknown hfield⟩
      · exact absurd h Parsed.not_yields_error
  · rintro ⟨member, hentry, hmember⟩
    cases hmember with
    | @known field doc content hseen hcontent =>
      obtain ⟨hname, hcolon, hdoc⟩ := hentry
      obtain ⟨_, hname⟩ := yields_token_iff.mpr (Json.finds_quoted_iff.mpr hname)
      obtain ⟨_, hcolon⟩ := yields_colon_iff.mpr hcolon
      obtain ⟨_, hvalue⟩ :=
        (takes_fieldValue_iff hpolicy draft).mpr ⟨doc, hdoc, content, hcontent, rfl⟩
      refine Parsed.yields_bind_iff.mpr ⟨_, hname, ?_⟩
      dsimp only
      rw [Field.ofName?_name]
      dsimp only
      rw [if_neg (mt List.mem_of_elem_eq_true hseen)]
      refine Parsed.yields_bind_iff.mpr ⟨_, hcolon, ?_⟩
      refine Parsed.yields_bind_iff.mpr ⟨_, hvalue, ?_⟩
      exact Parsed.yields_ok.mpr ⟨rfl, rfl⟩
    | unknown hfield =>
      obtain ⟨hname, hcolon, hdoc⟩ := hentry
      obtain ⟨_, hname⟩ := yields_token_iff.mpr (Json.finds_quoted_iff.mpr hname)
      obtain ⟨_, hcolon⟩ := yields_colon_iff.mpr hcolon
      obtain ⟨_, hskip⟩ := Json.finds_skipValue_of_spells hdoc
      refine Parsed.yields_bind_iff.mpr ⟨_, hname, ?_⟩
      dsimp only
      rw [hfield]
      refine Parsed.yields_bind_iff.mpr ⟨_, hcolon, ?_⟩
      dsimp only
      rw [hskip]
      exact Parsed.yields_ok.mpr ⟨rfl, rfl⟩

/-- The fields end, or a field is read and the others behind it. -/
theorem yields_fields_iff {draft result : Draft} {seen : List Field} {first : Bool}
    {text rest : List Char} :
    Yields (fields policy draft seen first text) result rest ↔
      skipSpaces text = '}' :: rest ∧ result = draft ∨ ∃ start next seen' behind,
        (if first then start = text else skipSpaces text = ',' :: start) ∧
          Reader.takes (field policy draft seen) start (next, seen') behind ∧
          Yields (fields policy next seen' false behind) result rest := by
  have hnotClose {start behind last : List Char} {next : Draft × List Field}
      (hstart : if first then start = text else skipSpaces text = ',' :: start)
      (hfield : Reader.takes (field policy draft seen) start next behind) :
      skipSpaces text ≠ '}' :: last := by
    cases first with
    | true =>
      obtain rfl : start = text := hstart
      obtain ⟨member, hmember, -⟩ := (takes_field_iff hpolicy).mp hfield
      exact hmember.not_brace last
    | false =>
      intro hclose
      exact absurd (List.cons.inj (hclose.symm.trans hstart)).1 (by decide)
  simp only [← yields_separator_iff] at hnotClose ⊢
  conv => lhs; unfold fields
  split
  · next last hclose =>
    rw [Parsed.yields_ok]
    change draft = result ∧ last = rest ↔ _
    constructor
    · rintro ⟨rfl, rfl⟩
      exact .inl ⟨hclose, rfl⟩
    · rintro (⟨hclose', rfl⟩ | ⟨start, next, seen', behind, hstart, hfield, -⟩)
      · exact ⟨rfl, (List.cons.inj (hclose.symm.trans hclose')).2⟩
      · exact absurd hclose (hnotClose hstart hfield)
  · next hclose =>
    replace hclose : ∀ next, ¬skipSpaces text = '}' :: next := hclose
    split
    · next hstart => simp [hclose, hstart]
    · next start hlength hstart =>
      split
      · next hfield => simp [hclose, hstart, Reader.takes, hfield]
      · next next seen' behind hshorter hfield =>
        refine Iff.trans (Parsed.yields_map_of_eq _ (fun _ => rfl) fun _ => rfl) ?_
        simp [hclose, hstart, Reader.takes, hfield]

theorem yields_moreFields_iff {draft result : Draft} {seen : List Field}
    {text rest : List Char} :
    Yields (fields policy draft seen false text) result rest ↔ ∃ members,
      Tail (Entry Spells) '}' text members rest ∧
        DraftsMembers (Field.Means policy.isSome declares) draft seen members result := by
  constructor
  · intro h
    induction hlength : text.length using Nat.strongRecOn generalizing text draft seen with
    | ind length ih =>
    rcases (yields_fields_iff hpolicy).mp h with
      ⟨hclose, rfl⟩ | ⟨start, next, seen', behind, hcomma, hfield, hrest⟩
    · exact ⟨[], .done hclose, .nil⟩
    · obtain ⟨member, hentry, hmember⟩ := (takes_field_iff hpolicy).mp hfield
      have hshorter : behind.length < length := hlength ▸ Nat.lt_trans hfield.length_lt
        (length_lt_of_eq_cons (length_skipSpaces_le text) hcomma)
      obtain ⟨others, htail, hdrafts⟩ := ih _ hshorter hrest rfl
      exact ⟨member :: others, .more hcomma hentry htail, .cons hmember hdrafts⟩
  · rintro ⟨members, htail, hdrafts⟩
    induction htail generalizing draft seen with
    | done hclose =>
      cases hdrafts
      exact (yields_fields_iff hpolicy).mpr (.inl ⟨hclose, rfl⟩)
    | more hcomma hfirst _ ih =>
      cases hdrafts with
      | cons hmember hrest =>
        have hfield := (takes_field_iff hpolicy).mpr ⟨_, hfirst, hmember⟩
        exact (yields_fields_iff hpolicy).mpr (.inr ⟨_, _, _, _, hcomma, hfield, ih hrest⟩)

/-- The fields of an object are drafted one by one. -/
theorem yields_fields_iff_listed {draft result : Draft} {seen : List Field}
    {body rest : List Char} :
    Yields (fields policy draft seen true body) result rest ↔ ∃ members,
      Listed (Entry Spells) '}' body members rest ∧
        DraftsMembers (Field.Means policy.isSome declares) draft seen members result := by
  rw [yields_fields_iff hpolicy]
  constructor
  · rintro (⟨hclose, rfl⟩ | ⟨start, next, seen', behind, rfl, hfield, hrest⟩)
    · exact ⟨[], .none hclose, .nil⟩
    · obtain ⟨member, hentry, hmember⟩ := (takes_field_iff hpolicy).mp hfield
      obtain ⟨others, htail, hdrafts⟩ := (yields_moreFields_iff hpolicy).mp hrest
      exact ⟨member :: others, .some hentry htail, .cons hmember hdrafts⟩
  · rintro ⟨members, hclose | ⟨hfirst, htail⟩, hdrafts⟩
    · cases hdrafts
      exact .inl ⟨hclose, rfl⟩
    · cases hdrafts with
      | cons hmember hrest =>
        have hfield := (takes_field_iff hpolicy).mpr ⟨_, hfirst, hmember⟩
        exact .inr ⟨_, _, _, _, rfl, hfield, (yields_moreFields_iff hpolicy).mpr ⟨_, htail, hrest⟩⟩

theorem yields_positional_cons_iff {draft result : Draft} {field : Field} {others : List Field}
    {first : Bool} {text rest : List Char} :
    Yields (positional policy draft first (field :: others) text) result rest ↔
      skipSpaces text = ']' :: rest ∧ result = draft ∨ ∃ start next behind,
        (if first then start = text else skipSpaces text = ',' :: start) ∧
          Reader.takes (fieldValue policy draft field) start next behind ∧
          Yields (positional policy next false others behind) result rest := by
  have hsign {start behind : List Char} {next : Draft}
      (h : Reader.takes (fieldValue policy draft field) start next behind) :
      (skipSpaces start).head? ≠ some ']' := by
    obtain ⟨doc, hdoc, -⟩ := (takes_fieldValue_iff hpolicy draft).mp h
    exact hdoc.head?_ne_bracket
  have hnotClose {start behind last : List Char} {next : Draft}
      (hstart : if first then start = text else skipSpaces text = ',' :: start)
      (hvalue : Reader.takes (fieldValue policy draft field) start next behind) :
      skipSpaces text ≠ ']' :: last := by
    intro hclose
    cases first with
    | true =>
      obtain rfl : start = text := hstart
      exact hsign hvalue (by rw [hclose]; rfl)
    | false => exact absurd (List.cons.inj (hclose.symm.trans hstart)).1 (by decide)
  conv => lhs; unfold positional
  split
  · next last hclose =>
    rw [Parsed.yields_ok]
    change draft = result ∧ last = rest ↔ _
    constructor
    · rintro ⟨rfl, rfl⟩
      exact .inl ⟨hclose, rfl⟩
    · rintro (⟨hclose', rfl⟩ | ⟨start, next, behind, hstart, hvalue, -⟩)
      · exact ⟨rfl, (List.cons.inj (hclose.symm.trans hclose')).2⟩
      · exact absurd hclose (hnotClose hstart hvalue)
  · next hclose =>
    constructor
    · intro h
      obtain ⟨⟨⟨⟩, start, hlength⟩, hseparator, h⟩ := Parsed.yields_bind_iff.mp h
      obtain ⟨⟨next, behind, hshorter⟩, hvalue, h⟩ := Parsed.yields_bind_iff.mp h
      obtain ⟨p, hp, h⟩ := Parsed.yields_bind_iff.mp h
      obtain ⟨rfl, rfl⟩ := Parsed.yields_ok.mp h
      have hvalue : Reader.takes _ _ _ _ := ⟨hshorter, hvalue⟩
      exact .inr ⟨start, next, behind,
        (yields_elementSeparator_iff (hsign hvalue)).mp ⟨hlength, hseparator⟩, hvalue,
        p.shorter, hp⟩
    · rintro (⟨hclose', -⟩ | ⟨start, next, behind, hstart, hvalue, _, hrest⟩)
      · exact absurd hclose' (hclose _)
      · obtain ⟨_, hstart⟩ := (yields_elementSeparator_iff (hsign hvalue)).mpr hstart
        obtain ⟨_, hvalue⟩ := hvalue
        refine Parsed.yields_bind_iff.mpr ⟨_, hstart, ?_⟩
        refine Parsed.yields_bind_iff.mpr ⟨_, hvalue, ?_⟩
        refine Parsed.yields_bind_iff.mpr ⟨_, hrest, ?_⟩
        exact Parsed.yields_ok.mpr ⟨rfl, rfl⟩

theorem yields_moreItems_iff {draft result : Draft} {known : List Field} {text rest : List Char} :
    Yields (positional policy draft false known text) result rest ↔ ∃ docs,
      Tail Spells ']' text docs rest ∧
        DraftsItems (Field.Means policy.isSome declares) draft known docs result := by
  induction known generalizing draft text with
  | nil =>
    unfold positional
    constructor
    · intro h
      split at h
      · next hclose =>
        obtain ⟨rfl, rfl⟩ := Parsed.yields_ok.mp h
        exact ⟨[], .done hclose, .nil⟩
      · exact absurd h Parsed.not_yields_error
    · rintro ⟨docs, htail, hdrafts⟩
      cases hdrafts
      cases htail with
      | done hclose =>
        split
        · next hclose' =>
          exact Parsed.yields_ok.mpr ⟨rfl, (List.cons.inj (hclose'.symm.trans hclose)).2⟩
        · next hother => exact absurd hclose (hother _)
  | cons field known ih =>
    rw [yields_positional_cons_iff hpolicy]
    constructor
    · rintro (⟨hclose, rfl⟩ | ⟨start, next, behind, hcomma, hvalue, hrest⟩)
      · exact ⟨[], .done hclose, .nil⟩
      · obtain ⟨doc, hdoc, content, hcontent, rfl⟩ :=
          (takes_fieldValue_iff hpolicy draft).mp hvalue
        obtain ⟨docs, htail, hdrafts⟩ := ih.mp hrest
        exact ⟨doc :: docs, .more hcomma hdoc htail, .cons hcontent hdrafts⟩
    · rintro ⟨docs, hclose | ⟨hcomma, hdoc, htail⟩, hdrafts⟩
      · cases hdrafts
        exact .inl ⟨hclose, rfl⟩
      · cases hdrafts with
        | cons hcontent hrest =>
          have hvalue :=
            (takes_fieldValue_iff hpolicy draft).mpr ⟨_, hdoc, _, hcontent, rfl⟩
          exact .inr ⟨_, _, _, hcomma, hvalue, ih.mpr ⟨_, htail, hrest⟩⟩

/-- The elements of an array are drafted one by one as the fields in their order. -/
theorem yields_positional_iff_listed {draft result : Draft} {field : Field} {known : List Field}
    {body rest : List Char} :
    Yields (positional policy draft true (field :: known) body) result rest ↔ ∃ docs,
      Listed Spells ']' body docs rest ∧
        DraftsItems (Field.Means policy.isSome declares) draft (field :: known) docs result := by
  rw [yields_positional_cons_iff hpolicy]
  constructor
  · rintro (⟨hclose, rfl⟩ | ⟨start, next, behind, rfl, hvalue, hrest⟩)
    · exact ⟨[], .none hclose, .nil⟩
    · obtain ⟨doc, hdoc, content, hcontent, rfl⟩ :=
        (takes_fieldValue_iff hpolicy draft).mp hvalue
      obtain ⟨docs, htail, hdrafts⟩ := (yields_moreItems_iff hpolicy).mp hrest
      exact ⟨doc :: docs, .some hdoc htail, .cons hcontent hdrafts⟩
  · rintro ⟨docs, hclose | ⟨hdoc, htail⟩, hdrafts⟩
    · cases hdrafts
      exact .inl ⟨hclose, rfl⟩
    · cases hdrafts with
      | cons hcontent hrest =>
        have hvalue := (takes_fieldValue_iff hpolicy draft).mpr ⟨_, hdoc, _, hcontent, rfl⟩
        exact .inr ⟨_, _, _, rfl, hvalue, (yields_moreItems_iff hpolicy).mpr ⟨_, htail, hrest⟩⟩

theorem yields_declarationHere_iff {text rest : List Char} {draft : Draft} :
    Yields (declarationHere policy (skipSpaces text)) draft rest ↔
      ∃ doc, Spells text doc rest ∧ Drafts (Field.Means policy.isSome declares) doc draft := by
  constructor
  · intro h
    generalize hsign : skipSpaces text = here at h
    unfold declarationHere at h
    split at h
    · have hfields := h.of_map (fun _ => rfl) fun _ => rfl
      obtain ⟨members, hmembers, hdrafts⟩ := (yields_fields_iff_listed hpolicy).mp hfields
      exact ⟨.object members, .object hsign hmembers, hdrafts⟩
    · have hitems := h.of_map (fun _ => rfl) fun _ => rfl
      obtain ⟨docs, hdocs, hdrafts⟩ := (yields_positional_iff_listed hpolicy).mp hitems
      exact ⟨.array docs, .array hsign hdocs, hdrafts⟩
    · exact absurd h Parsed.not_yields_error
  · rintro ⟨doc, hdoc, hdrafts⟩
    cases hdoc with
    | object hsign hmembers =>
      have hfields := (yields_fields_iff_listed hpolicy).mpr ⟨_, hmembers, hdrafts⟩
      rw [hsign, declarationHere]
      exact hfields.map _ id (fun _ => rfl) fun _ => rfl
    | array hsign hitems =>
      have hpositional := (yields_positional_iff_listed hpolicy).mpr ⟨_, hitems, hdrafts⟩
      rw [hsign, declarationHere]
      exact hpositional.map _ id (fun _ => rfl) fun _ => rfl
    | _ => exact absurd hdrafts not_false

end Fields

theorem finishRead_of_ok {text : List Char} {p : Parsed Draft text} {declaration : Declaration}
    (h : p.value.finish = .ok declaration) : finishRead p = .ok (p.map fun _ => declaration) := by
  rw [finishRead, h]

theorem finishRead_eq_ok {text : List Char} {p : Parsed Draft text} {q : Parsed Declaration text}
    (h : finishRead p = .ok q) : p.value.finish = .ok q.value ∧ p.rest = q.rest := by
  unfold finishRead at h
  split at h
  · next declaration hfinish =>
    obtain rfl := Except.ok.inj h
    exact ⟨hfinish, rfl⟩
  · cases h

/-- A draft that is read and finished. -/
theorem yields_finished_iff {text rest : List Char}
    {reading : Except TextFault (Parsed Draft (skipSpaces text))} {declaration : Declaration} :
    Yields (do
      let p ← finishRead (← reading)
      return p.widen (length_skipSpaces_le text) : Except TextFault (Parsed Declaration text))
      declaration rest ↔
    ∃ draft, Yields reading draft rest ∧ draft.finish = .ok declaration := by
  constructor
  · intro h
    obtain ⟨draft, hdraft, h⟩ := Parsed.yields_bind_iff.mp h
    obtain ⟨p, hp, h⟩ := Parsed.yields_bind_iff.mp h
    obtain ⟨rfl, rfl⟩ := Parsed.yields_ok.mp h
    obtain ⟨hfinish, hrest⟩ := finishRead_eq_ok hp
    refine ⟨draft.value, ?_, hfinish⟩
    rw [hdraft]
    exact Parsed.yields_ok.mpr ⟨rfl, hrest⟩
  · rintro ⟨draft, ⟨_, hdraft⟩, hfinish⟩
    refine Parsed.yields_bind_iff.mpr ⟨_, hdraft, ?_⟩
    refine Parsed.yields_bind_iff.mpr ⟨_, finishRead_of_ok hfinish, ?_⟩
    exact Parsed.yields_ok.mpr ⟨rfl, rfl⟩

/-- The text reader takes the documents that are declarations. -/
theorem reads_declaration (levels : Nat) : Reads (declaration levels) (Declares levels) := by
  have hfinished {policy : Option (Reader Declaration)} {declares : Document → Declaration → Prop}
      (hpolicy : ReadsPolicy policy declares) (text : List Char) (d : Declaration)
      (rest : List Char) :
      (∃ draft, Yields (declarationHere policy (skipSpaces text)) draft rest ∧
        draft.finish = .ok d) ↔ ∃ doc, Spells text doc rest ∧ ∃ draft,
          Drafts (Field.Means policy.isSome declares) doc draft ∧ draft.finish = .ok d := by
    simp only [yields_declarationHere_iff hpolicy]
    constructor
    · rintro ⟨draft, ⟨doc, hdoc, hdraft⟩, hfinish⟩
      exact ⟨doc, hdoc, draft, hdraft, hfinish⟩
    · rintro ⟨doc, hdoc, draft, hdraft, hfinish⟩
      exact ⟨draft, ⟨doc, hdoc, hdraft⟩, hfinish⟩
  -- A group takes two levels, that of its own fields and that of its members.
  induction levels using Nat.twoStepInduction with
  | zero =>
    intro text d rest
    unfold Reader.takes declaration
    split
    all_goals exact iff_of_false Parsed.not_yields_error fun ⟨_, _, h⟩ => h
  | one =>
    intro text d rest
    have hpolicy : ReadsPolicy none fun _ _ => False := fun _ hreader => nomatch hreader
    exact yields_finished_iff.trans (hfinished hpolicy text d rest)
  | more levels ih _ =>
    intro text d rest
    have hpolicy : ReadsPolicy (some (declaration levels)) (Declares levels) := by
      intro reader hreader
      obtain rfl := Option.some.inj hreader
      exact ih
    exact yields_finished_iff.trans (hfinished hpolicy text d rest)

/-- A text is read as a declaration just when it is a document that is one. -/
theorem ofText_eq_ok_iff {text : String} {declaration : Declaration} :
    ofText text = .ok declaration ↔
      ∃ doc : Document, doc.OfText text ∧ Declares Json.nestingLimit doc declaration := by
  have htext : ofText text = .ok declaration ↔ ∃ rest,
      Reader.takes (Declaration.declaration Json.nestingLimit) text.toList declaration rest ∧
        skipSpaces rest = [] := by
    unfold ofText Reader.takes
    cases Declaration.declaration Json.nestingLimit text.toList with
    | error fault =>
      refine iff_of_false (fun h => nomatch h) ?_
      rintro ⟨rest, h, -⟩
      exact Parsed.not_yields_error h
    | ok p =>
      simp only [Parsed.yields_ok]
      change (if skipSpaces p.rest = [] then .ok p.value else malformed) = _ ↔ _
      split
      · next hend => simp [hend]
      · next hend => simp [hend, malformed]
  rw [htext]
  simp only [reads_declaration Json.nestingLimit _ _ _]
  constructor
  · rintro ⟨rest, ⟨doc, hdoc, hdeclares⟩, hend⟩
    exact ⟨doc, ⟨rest, hdoc, hend⟩, hdeclares⟩
  · rintro ⟨doc, ⟨rest, hdoc, hend⟩, hdeclares⟩
    exact ⟨rest, ⟨doc, hdoc, hdeclares⟩, hend⟩

end Abac.Declaration
