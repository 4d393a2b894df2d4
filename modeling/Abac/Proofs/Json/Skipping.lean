import Abac.Proofs.Json.Document

/-!
Passing over a value leaves what stands behind the document that is spelled, however deep it nests
(`finds_skipValue_iff`). The passing keeps the kinds of the open arrays and objects on a stack;
whatever is on it, a document in front is passed over first (`Passes`).
-/
namespace Abac.Json

open Token

/-- From a text on, all that the open frames still need is passed over, up to a rest. -/
def Passes (expectation : Expectation) (frames : List Frame) (text rest : List Char) : Prop :=
  Continued.Finds (skipOpen expectation frames text) () rest

namespace Token.Frame

def opening : Frame → Char
  | array => '['
  | object => '{'

def closing : Frame → Char
  | array => ']'
  | object => '}'

def Enters : Frame → List Char → List Char → Prop
  | array, text, inner => inner = text
  | object, text, inner => Parsed.Finds (skipKey text) () inner

end Token.Frame

theorem passes_afterValue_nil_iff {text rest : List Char} :
    Passes .afterValue [] text rest ↔ rest = text := by
  unfold Passes skipOpen
  rw [Continued.finds_some]
  exact ⟨fun h => h.2.symm, fun h => ⟨rfl, h.symm⟩⟩

theorem passes_afterValue_cons_iff {frame : Frame} {outer : List Frame} {text rest : List Char} :
    Passes .afterValue (frame :: outer) text rest ↔
      (∃ next, skipSpaces text = frame.closing :: next ∧ Passes .afterValue outer next rest) ∨
      ∃ next inner, skipSpaces text = ',' :: next ∧ frame.Enters next inner ∧
        Passes .value (frame :: outer) inner rest := by
  conv => lhs; unfold Passes skipOpen
  split
  · next more hcomma =>
    refine Iff.trans (Continued.finds_map_of_eq _ (fun _ => rfl) fun _ => rfl) ?_
    simp [hcomma, Frame.closing, Frame.Enters, Passes]
  · next more hcomma =>
    cases hkey : skipKey more with
    | none => simp [hcomma, Frame.closing, Frame.Enters, hkey]
    | some key =>
      refine Iff.trans (Continued.finds_map_of_eq _ (fun _ => rfl) fun _ => rfl) ?_
      simp [hcomma, Frame.closing, Frame.Enters, hkey, Passes]
  · next more hclose =>
    refine Iff.trans (Continued.finds_map_of_eq _ (fun _ => rfl) fun _ => rfl) ?_
    simp [hclose, Frame.closing, Passes]
  · next more hclose =>
    refine Iff.trans (Continued.finds_map_of_eq _ (fun _ => rfl) fun _ => rfl) ?_
    simp [hclose, Frame.closing, Passes]
  · next frame _ harray hobject hclose hclose' =>
    refine iff_of_false Continued.not_finds_none ?_
    rintro (⟨next, hend, -⟩ | ⟨next, inner, hcomma, -⟩)
    · cases frame
      · exact hclose next hend rfl
      · exact hclose' next hend rfl
    · cases frame
      · exact harray next hcomma rfl
      · exact hobject next hcomma rfl

theorem skipScalar_eq_none (frame : Frame) (body : List Char) :
    skipScalar (frame.opening :: body) = none := by
  rw [skipScalar]
  · cases frame <;> exact Option.map_eq_none_iff.mpr (numberParts_eq_none (by decide) rfl body)
  all_goals
    intro rest h
    have hsign := (List.cons.inj h).1
    cases frame <;> cases hsign

theorem exists_opening_iff {text body : List Char} (frame : Frame)
    (hopen : skipSpaces text = frame.opening :: body) {P : Frame → List Char → Prop} :
    (∃ frame body, skipSpaces text = frame.opening :: body ∧ P frame body) ↔ P frame body := by
  constructor
  · rintro ⟨frame', body', hopen', hP⟩
    obtain ⟨hframe, rfl⟩ := List.cons.inj (hopen.symm.trans hopen')
    have hsame : frame = frame' := by
      cases frame <;> cases frame' <;> first | rfl | exact absurd hframe (by decide)
    exact hsame ▸ hP
  · exact fun hP => ⟨frame, body, hopen, hP⟩

theorem passes_value_iff {frames : List Frame} {text rest : List Char} :
    Passes .value frames text rest ↔
      (∃ behind, Parsed.Finds (skipScalar (skipSpaces text)) () behind ∧
        Passes .afterValue frames behind rest) ∨
      ∃ frame body, skipSpaces text = frame.opening :: body ∧
        ((∃ next, skipSpaces body = frame.closing :: next ∧ Passes .afterValue frames next rest) ∨
        (∀ next, skipSpaces body ≠ frame.closing :: next) ∧
          ∃ inner, frame.Enters body inner ∧ Passes .value (frame :: frames) inner rest) := by
  have hframe (frame : Frame) {body : List Char} (hopen : skipSpaces text = frame.opening :: body) :
      ¬∃ behind, Parsed.Finds (skipScalar (skipSpaces text)) () behind ∧
        Passes .afterValue frames behind rest := by
    rintro ⟨behind, hscalar, -⟩
    rw [hopen, skipScalar_eq_none] at hscalar
    exact Parsed.not_finds_none hscalar
  conv => lhs; unfold Passes skipOpen
  split
  · next body hopen =>
    rw [or_iff_right (hframe .array hopen), exists_opening_iff .array hopen]
    split
    · next more hclose =>
      refine Iff.trans (Continued.finds_map_of_eq _ (fun _ => rfl) fun _ => rfl) ?_
      simp [hclose, Frame.closing, Passes]
    · next hclose =>
      replace hclose : ∀ next, ¬skipSpaces body = ']' :: next := hclose
      refine Iff.trans (Continued.finds_map_of_eq _ (fun _ => rfl) fun _ => rfl) ?_
      simp [hclose, Frame.closing, Frame.Enters, Passes]
  · next body hopen =>
    rw [or_iff_right (hframe .object hopen), exists_opening_iff .object hopen]
    split
    · next more hclose =>
      refine Iff.trans (Continued.finds_map_of_eq _ (fun _ => rfl) fun _ => rfl) ?_
      simp [hclose, Frame.closing, Passes]
    · next hclose =>
      replace hclose : ∀ next, ¬skipSpaces body = '}' :: next := hclose
      cases hkey : skipKey body with
      | none => simp [hclose, Frame.closing, Frame.Enters, hkey]
      | some key =>
        refine Iff.trans (Continued.finds_map_of_eq _ (fun _ => rfl) fun _ => rfl) ?_
        simp [hclose, Frame.closing, Frame.Enters, hkey, Passes]
  · next harray hobject =>
    rw [or_iff_left]
    · split
      · next hscalar => simp [hscalar]
      · next hscalar =>
        refine Iff.trans (Continued.finds_map_of_eq _ (fun _ => rfl) fun _ => rfl) ?_
        simp [hscalar, Passes]
    · rintro ⟨frame, body, hopen, -⟩
      cases frame
      · exact harray body hopen
      · exact hobject body hopen

theorem finds_skipKey_iff {text next : List Char} :
    Parsed.Finds (skipKey text) () next ↔
      ∃ name behind, SpellsString text name behind ∧ skipSpaces behind = ':' :: next := by
  constructor
  · intro h
    unfold skipKey at h
    split at h
    · next body hquote =>
      split at h
      · exact absurd h Parsed.not_finds_none
      · next behind shorter hbody =>
        split at h
        · next hcolon =>
          obtain ⟨-, rfl⟩ := Parsed.finds_some.mp h
          exact ⟨_, behind, .intro hquote ⟨shorter, hbody⟩, hcolon⟩
        · exact absurd h Parsed.not_finds_none
    · exact absurd h Parsed.not_finds_none
  · rintro ⟨name, behind, ⟨hquote, shorter, hbody⟩, hcolon⟩
    unfold skipKey
    split
    · next hquote' =>
      obtain ⟨-, rfl⟩ := List.cons.inj (hquote.symm.trans hquote')
      rw [hbody]
      dsimp only
      split
      · next hcolon' =>
        exact Parsed.finds_some.mpr ⟨rfl, (List.cons.inj (hcolon'.symm.trans hcolon)).2⟩
      · next hother => exact absurd hcolon (hother _)
    · next hother => exact absurd hquote (hother _)

theorem skipScalar_of_kindOf_number {c : Char} (h : kindOf c = some .number) (body : List Char) :
    skipScalar (c :: body) = (numberParts (c :: body)).map fun p => p.map fun _ => () := by
  rw [skipScalar]
  all_goals
    rintro rest hsign
    obtain ⟨rfl, -⟩ := List.cons.inj hsign
    cases h

/-- Values without parts are passed over without the stack. -/
theorem finds_skipScalar_iff {text rest : List Char} :
    Parsed.Finds (skipScalar (skipSpaces text)) () rest ↔
      ∃ doc, Spells text doc rest ∧ doc.depth = 0 := by
  constructor
  · intro h
    generalize hsign : skipSpaces text = here at h
    unfold skipScalar at h
    split at h
    · exact ⟨_, .null hsign (h.of_map (fun _ => rfl) fun _ => rfl), rfl⟩
    · exact ⟨_, .true hsign (h.of_map (fun _ => rfl) fun _ => rfl), rfl⟩
    · exact ⟨_, .false hsign (h.of_map (fun _ => rfl) fun _ => rfl), rfl⟩
    · exact ⟨_, .string (.intro hsign (h.of_map (fun _ => rfl) fun _ => rfl)), rfl⟩
    · obtain ⟨parts, hparts, -⟩ := h.exists_of_map (fun _ => ()) (fun _ => rfl) fun _ => rfl
      rw [← hsign] at hparts
      exact ⟨_, .number hparts, rfl⟩
  · rintro ⟨doc, h, hdepth⟩
    cases h with
    | null hsign hword | true hsign hword | false hsign hword =>
      rw [hsign]
      exact hword.map _ id (fun _ => rfl) fun _ => rfl
    | number hparts =>
      cases hsign : skipSpaces text with
      | nil =>
        rw [hsign] at hparts
        exact absurd hparts.choose (Nat.not_lt_zero _)
      | cons c body =>
        rw [hsign] at hparts
        rw [skipScalar_of_kindOf_number (kindOf_of_numberParts hparts)]
        exact hparts.map _ (fun _ => ()) (fun _ => rfl) fun _ => rfl
    | string hcontent =>
      obtain ⟨hquote, hbody⟩ := hcontent
      rw [hquote]
      exact hbody.map _ id (fun _ => rfl) fun _ => rfl
    | array | object => cases hdepth

/-! ## Arrays and objects alike -/

namespace Token.Frame

variable {frame : Frame} {text inner body rest : List Char} {doc : Document}

def item (frame : Frame) : Spelling Document :=
  fun text doc rest => ∃ inner, frame.Enters text inner ∧ Spells inner doc rest

theorem item_array_iff (text : List Char) (doc : Document) (rest : List Char) :
    array.item text doc rest ↔ ∃ part, Spells text part rest ∧ part = doc := by
  simp [item, Enters]

theorem item_object_iff (text : List Char) (doc : Document) (rest : List Char) :
    object.item text doc rest ↔ ∃ member, Entry Spells text member rest ∧ member.2 = doc := by
  constructor
  · rintro ⟨inner, henters, hdoc⟩
    obtain ⟨name, behind, hname, hcolon⟩ := finds_skipKey_iff.mp henters
    exact ⟨(name, doc), .intro hname hcolon hdoc, rfl⟩
  · rintro ⟨member, ⟨hname, hcolon, hdoc⟩, rfl⟩
    exact ⟨_, finds_skipKey_iff.mpr ⟨_, _, hname, hcolon⟩, hdoc⟩

theorem item_not_close (h : frame.item text doc rest) (next : List Char) :
    skipSpaces text ≠ frame.closing :: next := by
  cases frame with
  | array =>
    obtain ⟨part, hpart, -⟩ := (item_array_iff _ _ _).mp h
    exact hpart.not_bracket next
  | object =>
    obtain ⟨member, hmember, -⟩ := (item_object_iff _ _ _).mp h
    exact hmember.not_brace next

theorem exists_spells (hopen : skipSpaces text = frame.opening :: body) {docs : List Document}
    (h : Listed frame.item frame.closing body docs rest) : ∃ doc, Spells text doc rest := by
  cases frame with
  | array =>
    obtain ⟨items, hitems, -⟩ := (listed_exists_iff item_array_iff).mp h
    exact ⟨_, .array hopen hitems⟩
  | object =>
    obtain ⟨members, hmembers, -⟩ := (listed_exists_iff item_object_iff).mp h
    exact ⟨_, .object hopen hmembers⟩

end Token.Frame

/-- A document with parts is a frame around them. -/
theorem Spells.exists_frame {text rest : List Char} {doc : Document} (h : Spells text doc rest)
    (hparts : doc.depth ≠ 0) : ∃ frame body docs, skipSpaces text = Frame.opening frame :: body ∧
      Listed frame.item frame.closing body docs rest ∧ ∀ part ∈ docs, part.depth < doc.depth := by
  cases h with
  | @array _ _ _ items hsign hitems =>
    refine ⟨.array, _, items, hsign,
      (listed_exists_iff Frame.item_array_iff).mpr ⟨items, hitems, ?_⟩,
      fun _ hmem => Document.depth_lt_of_mem_items hmem⟩
    exact List.forall₂_same.mpr fun _ _ => rfl
  | @object _ _ _ members hsign hmembers =>
    refine ⟨.object, _, members.map (·.2), hsign,
      (listed_exists_iff Frame.item_object_iff).mpr ⟨members, hmembers, ?_⟩, ?_⟩
    · exact List.forall₂_map_right_iff.mpr (List.forall₂_same.mpr fun _ _ => rfl)
    · intro part hmem
      obtain ⟨member, hmember, rfl⟩ := List.mem_map.mp hmem
      exact Document.depth_lt_of_mem_members hmember
  | null | true | false | number | string => exact absurd rfl hparts

/-! ## What is spelled is passed over -/

def Passable (doc : Document) : Prop :=
  ∀ text behind frames rest, Spells text doc behind → Passes .afterValue frames behind rest →
    Passes .value frames text rest

theorem Tail.passes {frame : Frame} {outer : List Frame} {text behind rest : List Char}
    {docs : List Document} (h : Tail frame.item frame.closing text docs behind)
    (hdocs : ∀ part ∈ docs, Passable part) (hbehind : Passes .afterValue outer behind rest) :
    Passes .afterValue (frame :: outer) text rest := by
  induction h with
  | done hclose => exact passes_afterValue_cons_iff.mpr (.inl ⟨_, hclose, hbehind⟩)
  | more hcomma hfirst _ ih =>
    obtain ⟨inner, henters, hdoc⟩ := hfirst
    have hothers := ih (fun part hmem => hdocs part (List.mem_cons_of_mem _ hmem)) hbehind
    have hfirst := hdocs _ List.mem_cons_self _ _ _ _ hdoc hothers
    exact passes_afterValue_cons_iff.mpr (.inr ⟨_, inner, hcomma, henters, hfirst⟩)

theorem passable_of_depth_lt {levels : Nat} {doc : Document} (hdepth : doc.depth < levels) :
    Passable doc := by
  induction levels generalizing doc with
  | zero => exact absurd hdepth (Nat.not_lt_zero _)
  | succ levels ih =>
    intro text behind frames rest h hbehind
    by_cases hscalar : doc.depth = 0
    · exact passes_value_iff.mpr
        (.inl ⟨behind, finds_skipScalar_iff.mpr ⟨doc, h, hscalar⟩, hbehind⟩)
    obtain ⟨frame, body, docs, hopen, hdocs, hless⟩ := h.exists_frame hscalar
    refine passes_value_iff.mpr (.inr ⟨frame, body, hopen, ?_⟩)
    have hparts (part : Document) (hmem : part ∈ docs) : Passable part :=
      ih (Nat.lt_of_lt_of_le (hless part hmem) (Nat.le_of_lt_succ hdepth))
    cases hdocs with
    | none hclose => exact .inl ⟨_, hclose, hbehind⟩
    | some hfirst hothers =>
      refine .inr ⟨Frame.item_not_close hfirst, ?_⟩
      obtain ⟨inner, henters, hdoc⟩ := hfirst
      have htail := hothers.passes
        (fun part hmem => hparts part (List.mem_cons_of_mem _ hmem)) hbehind
      exact ⟨inner, henters, hparts _ List.mem_cons_self _ _ _ _ hdoc htail⟩

theorem passable (doc : Document) : Passable doc := passable_of_depth_lt (Nat.lt_succ_self _)

theorem finds_skipValue_of_spells {text rest : List Char} {doc : Document}
    (h : Spells text doc rest) : Continued.Finds (skipValue text) () rest :=
  passable doc text rest [] rest h (passes_afterValue_nil_iff.mpr rfl)

/-! ## What is passed over is spelled -/

theorem Spells.length_le {text rest : List Char} {doc : Document} (h : Spells text doc rest) :
    rest.length ≤ text.length :=
  (finds_skipValue_of_spells h).choose

theorem Token.Frame.Enters.length_le {frame : Frame} {text inner : List Char}
    (h : frame.Enters text inner) : inner.length ≤ text.length := by
  cases frame with
  | array => exact Nat.le_of_eq (congrArg List.length h)
  | object => exact Nat.le_of_lt h.choose

/-- Passing over starts with a document, whatever frames are open; so it is for texts shorter than
`bound`. -/
def StartsBelow (bound : Nat) : Prop :=
  ∀ text frames rest, text.length < bound → Passes .value frames text rest →
    ∃ doc behind, Spells text doc behind ∧ Passes .afterValue frames behind rest

theorem StartsBelow.exists_tail {bound : Nat} (hstarts : StartsBelow bound) {frame : Frame}
    {frames : List Frame} {text rest : List Char} (hlength : text.length ≤ bound)
    (h : Passes .afterValue (frame :: frames) text rest) :
    ∃ docs behind, Tail frame.item frame.closing text docs behind ∧
      Passes .afterValue frames behind rest := by
  induction hn : text.length using Nat.strongRecOn generalizing text with
  | ind n ih =>
  rcases passes_afterValue_cons_iff.mp h with
    ⟨next, hclose, hnext⟩ | ⟨next, inner, hcomma, henters, hinner⟩
  · exact ⟨[], next, .done hclose, hnext⟩
  · have hshorter : inner.length < text.length := Nat.lt_of_le_of_lt henters.length_le
      (length_lt_of_eq_cons (length_skipSpaces_le text) hcomma)
    obtain ⟨doc, behind, hdoc, hbehind⟩ :=
      hstarts inner _ rest (Nat.lt_of_lt_of_le hshorter hlength) hinner
    have hbehindShorter : behind.length < text.length := Nat.lt_of_le_of_lt hdoc.length_le hshorter
    obtain ⟨docs, behind', hdocs, hbehind'⟩ := ih _ (hn ▸ hbehindShorter)
      (Nat.le_trans (Nat.le_of_lt hbehindShorter) hlength) hbehind rfl
    exact ⟨doc :: docs, behind', .more hcomma ⟨inner, henters, hdoc⟩ hdocs, hbehind'⟩

theorem startsBelow (bound : Nat) : StartsBelow bound := by
  -- There is no document yet to do induction on: the length of the text has to carry it.
  induction bound with
  | zero => exact fun text frames rest hlength => absurd hlength (Nat.not_lt_zero _)
  | succ bound ih =>
    intro text frames rest hlength h
    rcases passes_value_iff.mp h with ⟨behind, hscalar, hbehind⟩ |
      ⟨frame, body, hopen, ⟨next, hclose, hnext⟩ | ⟨-, inner, henters, hinner⟩⟩
    · obtain ⟨doc, hdoc, -⟩ := finds_skipScalar_iff.mp hscalar
      exact ⟨doc, behind, hdoc, hbehind⟩
    · obtain ⟨doc, hdoc⟩ := Frame.exists_spells hopen (.none hclose)
      exact ⟨doc, next, hdoc, hnext⟩
    · have hbody := length_lt_of_eq_cons (length_skipSpaces_le text) hopen
      have hshorter : inner.length < bound := Nat.lt_of_le_of_lt henters.length_le
        (Nat.lt_of_lt_of_le hbody (Nat.le_of_lt_succ hlength))
      obtain ⟨first, behind, hfirst, hbehind⟩ := ih inner _ rest hshorter hinner
      obtain ⟨others, behind', hothers, hbehind'⟩ := ih.exists_tail
        (Nat.le_trans hfirst.length_le (Nat.le_of_lt hshorter)) hbehind
      obtain ⟨doc, hdoc⟩ :=
        Frame.exists_spells hopen (.some ⟨inner, henters, hfirst⟩ hothers)
      exact ⟨doc, behind', hdoc, hbehind'⟩

/-- A value is passed over just when a document is spelled, and up to the end of that one. -/
theorem finds_skipValue_iff {text rest : List Char} :
    Continued.Finds (skipValue text) () rest ↔ ∃ doc, Spells text doc rest := by
  constructor
  · intro h
    obtain ⟨doc, behind, hdoc, hbehind⟩ :=
      startsBelow (text.length + 1) text [] rest (Nat.lt_succ_self _) h
    obtain rfl := passes_afterValue_nil_iff.mp hbehind
    exact ⟨doc, hdoc⟩
  · rintro ⟨doc, hdoc⟩
    exact finds_skipValue_of_spells hdoc

end Abac.Json
