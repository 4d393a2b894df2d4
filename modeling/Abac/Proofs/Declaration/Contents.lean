import Abac.Declaration.OfText
import Abac.Proofs.Declaration.Documents
import Abac.Proofs.Json.Reading

/-!
What stands under the fields of a declaration, read from text. Each reader takes the documents that
mean something to it, and yields what they mean (`Reads`): texts, rules, effects, and the members of
a group.
-/
namespace Abac.Declaration

open Json (Document Spelling Spells SpellsString Tail Listed Entry Named)
open Json.Token
open Parsed (Yields)

def Reader.takes {α : Type} (reader : Reader α) : Spelling α :=
  fun text value rest => Yields (reader text) value rest

theorem Reader.takes.length_lt {α : Type} {reader : Reader α} {text : List Char} {value : α}
    {rest : List Char} (h : reader.takes text value rest) : rest.length < text.length :=
  h.choose

def Reads {α : Type} (reader : Reader α) (means : Document → α → Prop) : Prop :=
  ∀ text value rest, reader.takes text value rest ↔
    ∃ doc, Spells text doc rest ∧ means doc value

theorem yields_token_iff {α : Type} {text rest : List Char} {p : Option (Parsed α text)} {v : α} :
    Yields (token p) v rest ↔ Parsed.Finds p v rest := by
  cases p with
  | none => exact iff_of_false Parsed.not_yields_error Parsed.not_finds_none
  | some p => exact Parsed.yields_ok.trans Parsed.finds_some.symm

theorem takes_string_iff (expected : Expected) {text rest : List Char} {content : String} :
    Reader.takes (string expected) text content rest ↔ SpellsString text (some content) rest := by
  rw [← Json.finds_quoted_iff, Reader.takes, string]
  split
  · next body hquote =>
    refine Iff.trans (Parsed.yields_map_of_eq _ (fun _ => rfl) fun _ => rfl) ?_
    exact yields_token_iff
  · next hquote =>
    refine iff_of_false Parsed.not_yields_error fun h => ?_
    obtain ⟨body, hbody⟩ := (Json.finds_quoted_iff.mp h).exists_quote
    exact hquote body hbody

theorem reads_string (expected : Expected) : Reads (string expected) MeansText := by
  intro text content rest
  rw [takes_string_iff, ← Json.spells_string_iff]
  exact ⟨fun h => ⟨_, h, rfl⟩, fun ⟨_, h, hdoc⟩ => hdoc ▸ h⟩

theorem reads_nullable {α : Type} {reader : Reader α} {means : Document → α → Prop}
    (hreader : Reads reader means) (hnull : ∀ v, ¬means .null v) :
    Reads (nullable reader) (Nullable means) := by
  intro text content rest
  rw [Reader.takes, nullable]
  split
  · next body hsign =>
    constructor
    · intro h
      obtain ⟨⟨⟩, hword, rfl⟩ := h.exists_of_map (fun _ => none) (fun _ => rfl) fun _ => rfl
      exact ⟨.null, .null hsign (yields_token_iff.mp hword), .inl ⟨rfl, rfl⟩⟩
    · rintro ⟨doc, hdoc, hcontent⟩
      have hkind := hdoc.kindOf_eq hsign
      cases hdoc with
      | null hsign' hword =>
        obtain rfl : content = none := by
          rcases hcontent with ⟨-, hnone⟩ | ⟨v, -, hv⟩
          · exact hnone
          · exact absurd hv (hnull v)
        obtain ⟨-, rfl⟩ := List.cons.inj (hsign.symm.trans hsign')
        exact (yields_token_iff.mpr hword).map _ (fun _ => none) (fun _ => rfl) fun _ => rfl
      | _ => cases hkind
  · next hsign =>
    refine Iff.trans (Parsed.yields_map _ some (fun _ => rfl) fun _ => rfl) ?_
    constructor
    · rintro ⟨v, hv, rfl⟩
      obtain ⟨doc, hdoc, hmeans⟩ := (hreader _ _ _).mp hv
      exact ⟨doc, Json.spells_skipSpaces_iff.mp hdoc, .inr ⟨v, rfl, hmeans⟩⟩
    · rintro ⟨doc, hdoc, ⟨rfl, -⟩ | ⟨v, rfl, hmeans⟩⟩
      · cases hdoc with
        | null hsign' => exact absurd hsign' (hsign _)
      · exact ⟨v, (hreader _ _ _).mpr ⟨doc, Json.spells_skipSpaces_iff.mpr hdoc, hmeans⟩, rfl⟩

theorem yields_colon_iff {text rest : List Char} :
    Yields (colon text) () rest ↔ skipSpaces text = ':' :: rest := by
  unfold colon
  split
  · next last hcolon =>
    rw [Parsed.yields_ok]
    change () = () ∧ last = rest ↔ _
    simp [hcolon]
  · next hcolon => exact iff_of_false Parsed.not_yields_error (hcolon _)

/-! ## Rules -/

theorem Reads.head?_ne_bracket {α : Type} {reader : Reader α} {means : Document → α → Prop}
    (hreader : Reads reader means) {text rest : List Char} {value : α}
    (h : reader.takes text value rest) : (skipSpaces text).head? ≠ some ']' := by
  obtain ⟨doc, hdoc, -⟩ := (hreader _ _ _).mp h
  exact hdoc.head?_ne_bracket

theorem takes_moreElements_iff {α : Type} {item : Reader α} {means : Document → α → Prop}
    (hitem : Reads item means) (text : List Char) (values : List α) (rest : List Char) :
    Reader.takes (moreElements item) text values rest ↔ Tail item.takes ']' text values rest := by
  refine Json.tail_iff_of_step (fun _ _ _ h => h.length_lt) ?_ text values rest
  intro text values rest
  unfold Reader.takes
  conv => lhs; unfold moreElements
  split
  · next last hclose =>
    rw [Parsed.yields_ok]
    change [] = values ∧ last = rest ↔ _
    simp [hclose, eq_comm]
  · next next hcomma =>
    split
    · next hclose =>
      refine iff_of_false Parsed.not_yields_error ?_
      rintro (⟨-, hclose'⟩ | ⟨next', first, behind, others, -, hcomma', hfirst, -⟩)
      · cases (List.cons.inj (hcomma.symm.trans hclose')).1
      · obtain ⟨-, rfl⟩ := List.cons.inj (hcomma.symm.trans hcomma')
        exact hitem.head?_ne_bracket hfirst hclose
    · split
      · next hfirst =>
        simp [hcomma, hfirst]
      · next first behind hbehind hfirst =>
        refine Iff.trans (Parsed.yields_map _ (first :: ·) (fun _ => rfl) fun _ => rfl) ?_
        simp [hcomma, hfirst, and_comm]
  · next hclose hcomma =>
    replace hcomma : ∀ next, ¬skipSpaces text = ',' :: next := hcomma
    replace hclose : ∀ next, ¬skipSpaces text = ']' :: next := hclose
    refine iff_of_false Parsed.not_yields_error ?_
    simp [hcomma, hclose]

theorem takes_arrayBody_iff {α : Type} {item : Reader α} {means : Document → α → Prop}
    (hitem : Reads item means) {body rest : List Char} {values : List α} :
    Reader.takes (arrayBody item) body values rest ↔ Listed item.takes ']' body values rest := by
  unfold Reader.takes arrayBody
  split
  · next last hclose =>
    have hopen (text first behind rest) (h : item.takes text first behind) :
        skipSpaces text ≠ ']' :: rest := by
      intro hend
      exact hitem.head?_ne_bracket h (by rw [hend]; rfl)
    refine Iff.trans ?_ (Json.listed_iff_of_close hclose hopen).symm
    rw [Parsed.yields_ok]
    change [] = values ∧ last = rest ↔ _
    simp [eq_comm]
  · next hend =>
    refine iff_of_false Parsed.not_yields_error ?_
    rintro (hclose | ⟨hfirst, -⟩)
    · rw [hend] at hclose
      cases hclose
    · obtain ⟨doc, hdoc, -⟩ := (hitem _ _ _).mp hfirst
      obtain ⟨c, more, hsign, -⟩ := hdoc.exists_sign
      rw [hend] at hsign
      cases hsign
  · next hclose hend =>
    refine Iff.trans ?_ (Json.listed_iff_of_not_close hclose).symm
    split
    · next hfirst => simp [hfirst]
    · next first behind hbehind hfirst =>
      refine Iff.trans (Parsed.yields_map _ (first :: ·) (fun _ => rfl) fun _ => rfl) ?_
      simp only [hfirst, Parsed.yields_ok]
      constructor
      · rintro ⟨others, hothers, rfl⟩
        exact ⟨first, behind, others, rfl, ⟨rfl, rfl⟩,
          (takes_moreElements_iff hitem _ _ _).mp hothers⟩
      · rintro ⟨_, _, others, rfl, ⟨rfl, rfl⟩, hothers⟩
        exact ⟨others, (takes_moreElements_iff hitem _ _ _).mpr hothers, rfl⟩

theorem forall₂_meansText_iff {docs : List Document} {texts : List String} :
    List.Forall₂ MeansText docs texts ↔ docs = texts.map fun text => .string (some text) := by
  rw [← List.forall₂_eq_eq_eq, List.forall₂_map_right_iff]
  rfl

theorem reads_rules (mayOpen : Bool) : Reads (rules mayOpen) (MeansRules mayOpen) := by
  intro text content rest
  have hmeans : (∃ doc, Spells text doc rest ∧ MeansRules mayOpen doc content) ↔
      mayOpen = true ∧ ∃ body, skipSpaces text = '[' :: body ∧
        Reader.takes (arrayBody (string .string)) body content rest := by
    simp only [takes_arrayBody_iff (reads_string .string),
      Json.listed_exists_iff (reads_string .string), forall₂_meansText_iff]
    constructor
    · rintro ⟨doc, hdoc, hopen, rfl⟩
      obtain ⟨body, hsign, hitems⟩ := Json.spells_array_iff.mp hdoc
      exact ⟨hopen, body, hsign, _, hitems, rfl⟩
    · rintro ⟨hopen, body, hsign, docs, hitems, rfl⟩
      exact ⟨_, .array hsign hitems, hopen, rfl⟩
  rw [hmeans]
  unfold Reader.takes rules
  split
  · next body hsign =>
    split
    · next hopen =>
      refine Iff.trans (Parsed.yields_map_of_eq _ (fun _ => rfl) fun _ => rfl) ?_
      simp [hopen, hsign]
    · next hopen =>
      exact iff_of_false Parsed.not_yields_error fun h => hopen h.1
  · next hsign =>
    refine iff_of_false Parsed.not_yields_error ?_
    rintro ⟨-, body, hsign', -⟩
    exact hsign _ hsign'

/-! ## Effects -/

theorem effectIn_eq_ok_iff {name : String} {effect : Effect} :
    effectIn name = .ok effect ↔ Effect.ofName? name = some effect := by
  unfold effectIn effectNamed
  cases Effect.ofName? name <;> simp

theorem yields_unit_iff {text rest : List Char} :
    Yields (unit text) () rest ↔ Spells text .null rest := by
  unfold unit
  split
  · next body hsign =>
    refine Iff.trans (Parsed.yields_map_of_eq _ (fun _ => rfl) fun _ => rfl) ?_
    rw [yields_token_iff]
    constructor
    · exact fun hword => .null hsign hword
    · rintro ⟨hsign', hword⟩
      obtain ⟨-, rfl⟩ := List.cons.inj (hsign.symm.trans hsign')
      exact hword
  · next hsign =>
    refine iff_of_false Parsed.not_yields_error ?_
    rintro ⟨hsign', -⟩
    exact hsign _ hsign'

/-- An effect in its object form is a single member. -/
theorem takes_effectObject_iff {body rest : List Char} {effect : Effect} :
    Reader.takes effectObject body effect rest ↔ ∃ name, Effect.ofName? name = some effect ∧
      Listed (Entry Spells) '}' body [(some name, .null)] rest := by
  constructor
  · intro h
    obtain ⟨⟨name, behind, hshorter⟩, hname, h⟩ := Parsed.yields_bind_iff.mp h
    obtain ⟨effect', heffect, h⟩ := Parsed.yields_bind_iff.mp h
    obtain ⟨⟨⟨⟩, next, hnext⟩, hcolon, h⟩ := Parsed.yields_bind_iff.mp h
    obtain ⟨⟨⟨⟩, last, hlast⟩, hunit, h⟩ := Parsed.yields_bind_iff.mp h
    dsimp only at h
    split at h
    · next hclose =>
      obtain ⟨rfl, rfl⟩ := Parsed.yields_ok.mp h
      have hentry : Entry Spells body (some name, .null) last :=
        .intro ((takes_string_iff .variant).mp ⟨hshorter, hname⟩)
          (yields_colon_iff.mp ⟨hnext, hcolon⟩)
          (yields_unit_iff.mp ⟨hlast, hunit⟩)
      exact ⟨name, effectIn_eq_ok_iff.mp heffect, .some hentry (.done hclose)⟩
    · exact absurd h Parsed.not_yields_error
  · rintro ⟨name, hname, h⟩
    cases h with
    | some hentry htail =>
      cases htail with
      | done hclose =>
        obtain ⟨hstring, hcolon, hnull⟩ := hentry
        obtain ⟨_, hstring⟩ := (takes_string_iff .variant).mpr hstring
        obtain ⟨_, hcolon⟩ := yields_colon_iff.mpr hcolon
        obtain ⟨_, hnull⟩ := yields_unit_iff.mpr hnull
        refine Parsed.yields_bind_iff.mpr ⟨_, hstring, ?_⟩
        refine Parsed.yields_bind_iff.mpr ⟨_, effectIn_eq_ok_iff.mpr hname, ?_⟩
        refine Parsed.yields_bind_iff.mpr ⟨_, hcolon, ?_⟩
        refine Parsed.yields_bind_iff.mpr ⟨_, hnull, ?_⟩
        dsimp only
        split
        · next hclose' =>
          exact Parsed.yields_ok.mpr ⟨rfl, (List.cons.inj (hclose'.symm.trans hclose)).2⟩
        · next hother => exact absurd hclose (hother _)

theorem reads_effect (mayOpen : Bool) : Reads (effect mayOpen) (MeansEffect mayOpen) := by
  intro text content rest
  unfold Reader.takes effect
  split
  · next body hquote =>
    constructor
    · intro h
      obtain ⟨p, hp, h⟩ := Parsed.yields_bind_iff.mp h
      obtain ⟨effect', heffect, h⟩ := Parsed.yields_bind_iff.mp h
      obtain ⟨rfl, rfl⟩ := Parsed.yields_ok.mp h
      have hname := yields_token_iff.mp ⟨p.shorter, hp⟩
      exact ⟨_, .string (.of_quoted hname), p.value, effectIn_eq_ok_iff.mp heffect, .inl rfl⟩
    · rintro ⟨doc, hdoc, name, hname, rfl | ⟨-, rfl⟩⟩
      · have hstring := Json.finds_quoted_iff.mpr (Json.spells_string_iff.mp hdoc)
        obtain ⟨_, hstring⟩ := yields_token_iff.mpr hstring
        refine Parsed.yields_bind_iff.mpr ⟨_, hstring, ?_⟩
        refine Parsed.yields_bind_iff.mpr ⟨_, effectIn_eq_ok_iff.mpr hname, ?_⟩
        exact Parsed.yields_ok.mpr ⟨rfl, rfl⟩
      · cases hdoc.kindOf_eq hquote
  · next body hsign =>
    split
    · next hopen =>
      refine Iff.trans (Parsed.yields_map_of_eq _ (fun _ => rfl) fun _ => rfl) ?_
      refine takes_effectObject_iff.trans ?_
      constructor
      · rintro ⟨name, hname, hmembers⟩
        exact ⟨_, .object hsign hmembers, name, hname, .inr ⟨hopen, rfl⟩⟩
      · rintro ⟨doc, hdoc, name, hname, rfl | ⟨-, rfl⟩⟩
        · cases hdoc.kindOf_eq hsign
        · obtain ⟨body', hsign', hmembers⟩ := Json.spells_object_iff.mp hdoc
          obtain ⟨-, rfl⟩ := List.cons.inj (hsign.symm.trans hsign')
          exact ⟨name, hname, hmembers⟩
    · next hopen =>
      refine iff_of_false Parsed.not_yields_error ?_
      rintro ⟨doc, hdoc, name, -, rfl | ⟨hopen', -⟩⟩
      · cases hdoc.kindOf_eq hsign
      · exact hopen hopen'
  · next hquote hsign =>
    refine iff_of_false Parsed.not_yields_error ?_
    rintro ⟨doc, hdoc, name, -, rfl | ⟨-, rfl⟩⟩
    · obtain ⟨body, hquote'⟩ := (Json.spells_string_iff.mp hdoc).exists_quote
      exact hquote body hquote'
    · obtain ⟨body, hsign', -⟩ := Json.spells_object_iff.mp hdoc
      exact hsign body hsign'

/-! ## Members of groups -/

theorem takes_member_iff {policy : Reader Declaration} {text rest : List Char}
    {pair : String × Declaration} :
    Reader.takes (member policy) text pair rest ↔ Named policy.takes text pair rest := by
  constructor
  · intro h
    obtain ⟨⟨name, behind, hshorter⟩, hname, h⟩ := Parsed.yields_bind_iff.mp h
    obtain ⟨⟨⟨⟩, next, hnext⟩, hcolon, h⟩ := Parsed.yields_bind_iff.mp h
    obtain ⟨p, hp, h⟩ := Parsed.yields_bind_iff.mp h
    obtain ⟨rfl, rfl⟩ := Parsed.yields_ok.mp h
    exact .intro (.of_quoted (yields_token_iff.mp ⟨hshorter, hname⟩))
      (yields_colon_iff.mp ⟨hnext, hcolon⟩) ⟨p.shorter, hp⟩
  · obtain ⟨name, declaration⟩ := pair
    rintro ⟨hname, hcolon, _, hvalue⟩
    obtain ⟨_, hname⟩ := yields_token_iff.mpr (Json.finds_quoted_iff.mpr hname)
    obtain ⟨_, hcolon⟩ := yields_colon_iff.mpr hcolon
    refine Parsed.yields_bind_iff.mpr ⟨_, hname, ?_⟩
    refine Parsed.yields_bind_iff.mpr ⟨_, hcolon, ?_⟩
    refine Parsed.yields_bind_iff.mpr ⟨_, hvalue, ?_⟩
    exact Parsed.yields_ok.mpr ⟨rfl, rfl⟩

theorem takes_moreMembers_iff {policy : Reader Declaration} (text : List Char)
    (pairs : List (String × Declaration)) (rest : List Char) :
    Reader.takes (moreMembers policy) text pairs rest ↔
      Tail (Reader.takes (member policy)) '}' text pairs rest := by
  refine Json.tail_iff_of_step (fun _ _ _ h => h.length_lt) ?_ text pairs rest
  intro text pairs rest
  unfold Reader.takes
  conv => lhs; unfold moreMembers
  split
  · next last hclose =>
    rw [Parsed.yields_ok]
    change [] = pairs ∧ last = rest ↔ _
    simp [hclose, eq_comm]
  · next next hcomma =>
    split
    · next hfirst => simp [hcomma, hfirst]
    · next first behind hbehind hfirst =>
      refine Iff.trans (Parsed.yields_map _ (first :: ·) (fun _ => rfl) fun _ => rfl) ?_
      simp [hcomma, hfirst, and_comm, -Prod.exists]
  · next hclose hcomma =>
    replace hcomma : ∀ next, ¬skipSpaces text = ',' :: next := hcomma
    replace hclose : ∀ next, ¬skipSpaces text = '}' :: next := hclose
    refine iff_of_false Parsed.not_yields_error ?_
    simp [hcomma, hclose]

theorem takes_membersBody_iff {policy : Reader Declaration} {body rest : List Char}
    {policies : Entries Declaration none} :
    Reader.takes (membersBody policy) body policies rest ↔ ∃ pairs,
      Listed (Reader.takes (member policy)) '}' body pairs rest ∧ policies = Dict.ofList pairs := by
  conv => lhs; unfold Reader.takes membersBody
  split
  · next last hclose =>
    have hopen (text first behind rest) (h : Reader.takes (member policy) text first behind) :
        skipSpaces text ≠ '}' :: rest :=
      (takes_member_iff.mp h).not_brace rest
    simp only [Json.listed_iff_of_close hclose hopen, Parsed.yields_ok]
    constructor
    · rintro ⟨rfl, rfl⟩
      exact ⟨[], ⟨rfl, rfl⟩, rfl⟩
    · rintro ⟨pairs, ⟨rfl, rfl⟩, rfl⟩
      exact ⟨rfl, rfl⟩
  · next hclose =>
    simp only [Json.listed_iff_of_not_close hclose]
    constructor
    · intro h
      obtain ⟨⟨pair, behind, hbehind⟩, hpair, h⟩ := Parsed.yields_bind_iff.mp h
      obtain ⟨p, hp, h⟩ := Parsed.yields_bind_iff.mp h
      obtain ⟨rfl, rfl⟩ := Parsed.yields_ok.mp h
      exact ⟨_, ⟨pair, behind, p.value, rfl, ⟨hbehind, hpair⟩,
        (takes_moreMembers_iff _ _ _).mp ⟨p.shorter, hp⟩⟩, rfl⟩
    · rintro ⟨pairs, ⟨pair, behind, others, rfl, ⟨_, hpair⟩, hothers⟩, rfl⟩
      obtain ⟨_, hothers⟩ := (takes_moreMembers_iff _ _ _).mpr hothers
      refine Parsed.yields_bind_iff.mpr ⟨_, hpair, ?_⟩
      refine Parsed.yields_bind_iff.mpr ⟨_, hothers, ?_⟩
      exact Parsed.yields_ok.mpr ⟨rfl, rfl⟩

def ReadsPolicy (policy : Option (Reader Declaration)) (declares : Document → Declaration → Prop) :
    Prop :=
  ∀ reader, policy = some reader → Reads reader declares

theorem reads_members {policy : Option (Reader Declaration)}
    {declares : Document → Declaration → Prop} (hpolicy : ReadsPolicy policy declares) :
    Reads (members policy) (MeansMembers policy.isSome declares) := by
  intro text policies rest
  have hmeans : (∃ doc, Spells text doc rest ∧ MeansMembers policy.isSome declares doc policies) ↔
      ∃ reader, policy = some reader ∧ ∃ body, skipSpaces text = '{' :: body ∧
        Reader.takes (membersBody reader) body policies rest := by
    simp only [takes_membersBody_iff]
    constructor
    · rintro ⟨doc, hdoc, hopen, members, pairs, rfl, hpairs, rfl⟩
      obtain ⟨reader, rfl⟩ := Option.isSome_iff_exists.mp hopen
      obtain ⟨body, hsign, hmembers⟩ := Json.spells_object_iff.mp hdoc
      refine ⟨reader, rfl, body, hsign, pairs, ?_, rfl⟩
      have hmember (text pair rest) :=
        takes_member_iff.trans (Json.named_exists_iff (hpolicy reader rfl) text pair rest)
      exact (Json.listed_exists_iff hmember).mpr ⟨members, hmembers, hpairs⟩
    · rintro ⟨reader, rfl, body, hsign, pairs, hlisted, rfl⟩
      have hmember (text pair rest) :=
        takes_member_iff.trans (Json.named_exists_iff (hpolicy reader rfl) text pair rest)
      obtain ⟨members, hmembers, hpairs⟩ := (Json.listed_exists_iff hmember).mp hlisted
      exact ⟨_, .object hsign hmembers, rfl, members, pairs, rfl, hpairs, rfl⟩
  rw [hmeans]
  unfold Reader.takes members
  split
  · next body hsign =>
    split
    · next reader =>
      refine Iff.trans (Parsed.yields_map_of_eq _ (fun _ => rfl) fun _ => rfl) ?_
      simp [hsign]
    · refine iff_of_false Parsed.not_yields_error ?_
      rintro ⟨reader, hreader, -⟩
      cases hreader
  · next hsign =>
    refine iff_of_false Parsed.not_yields_error ?_
    rintro ⟨reader, -, body, hsign', -⟩
    exact hsign _ hsign'

end Abac.Declaration
