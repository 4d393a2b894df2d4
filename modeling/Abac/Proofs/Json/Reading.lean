import Abac.Proofs.Json.Document

/-!
The reader of JSON values takes the documents that the grammar spells, when they denote a value and
do not nest too deep (`readsWithin_value`, `parse?_eq_some_iff`). A string is read where it could be
passed over, provided that its escapes denote text (`finds_quoted_iff`).
-/
namespace Abac.Json

open Token Parsed

/-! ## Strings -/

theorem isHex_of_hex4? {a b c d : Char} {n : Nat} (h : hex4? a b c d = some n) :
    [a, b, c, d].all Digits.isHex = true := by
  simp only [hex4?, Option.bind_eq_bind, Option.bind_eq_some_iff] at h
  obtain ⟨_, ha, _, hb, _, hc, _, hd, -⟩ := h
  simp [Digits.isHex, ha, hb, hc, hd]

theorem finds_skipString_of_escapedCode {text rest rest' : List Char} {n : Nat}
    (h : Finds (escapedCode text) n rest) (hrest : Finds (skipString rest) () rest') :
    Finds (skipString text) () rest' := by
  unfold escapedCode at h
  split at h
  · next a b c d more =>
    obtain ⟨shorter, h⟩ := h
    obtain ⟨m, hm, h⟩ := Option.map_eq_some_iff.mp h
    obtain rfl : more = rest := congrArg Parsed.rest h
    rw [skipString, if_pos (isHex_of_hex4? hm)]
    exact hrest.map _ id (fun _ => rfl) fun _ => rfl
  · exact absurd h not_finds_none

theorem finds_skipString_of_codedCharacter {text rest rest' : List Char} {c : Char}
    (h : Finds (codedCharacter text) c rest) (hrest : Finds (skipString rest) () rest') :
    Finds (skipString text) () rest' := by
  unfold codedCharacter at h
  split at h
  · exact absurd h not_finds_none
  · next high behind hbehind hhigh =>
    split at h
    · obtain ⟨shorter, h⟩ := h
      obtain ⟨p, hlow, h⟩ := Option.bind_eq_some_iff.mp h
      split at h
      · obtain rfl : p.rest = rest := congrArg Parsed.rest (Option.some.inj h)
        have hfinds := finds_skipString_of_escapedCode ⟨p.shorter, hlow⟩ hrest
        exact finds_skipString_of_escapedCode ⟨_, hhigh⟩ hfinds
      · cases h
    · split at h
      · exact absurd h not_finds_none
      · obtain ⟨-, rfl⟩ := finds_some.mp h
        exact finds_skipString_of_escapedCode ⟨_, hhigh⟩ hrest

/-- What is read as one character is passed over. -/
theorem finds_skipString_of_character {text rest rest' : List Char} {c : Char}
    (hquote : ∀ body, text ≠ '"' :: body)
    (h : Finds (character text) c rest) (hrest : Finds (skipString rest) () rest') :
    Finds (skipString text) () rest' := by
  unfold character at h
  split at h
  · exact finds_skipString_of_codedCharacter h hrest
  · next sign body hsign =>
    obtain ⟨shorter, h⟩ := h
    obtain ⟨m, hm, h⟩ := Option.map_eq_some_iff.mp h
    obtain rfl : body = rest := congrArg Parsed.rest h
    rw [skipString, if_pos (by rw [hm]; rfl)]
    · exact hrest.map _ id (fun _ => rfl) fun _ => rfl
    · rintro a b c d more rfl
      exact absurd rfl hsign
  · next sign body hescape hescape' =>
    split at h
    · exact absurd h not_finds_none
    · next hsign =>
      obtain ⟨-, rfl⟩ := finds_some.mp h
      rw [skipString, if_neg hsign]
      · exact hrest.map _ id (fun _ => rfl) fun _ => rfl
      · rintro rfl
        exact hquote body rfl
      · exact fun _ _ _ _ _ h _ => hsign (.inl h)
      · exact fun _ _ h _ => hsign (.inl h)
  · exact absurd h not_finds_none

/-- A string that can be read is passed over up to the same place. -/
theorem finds_skipString_of_stringBody {text rest : List Char} {content : List Char}
    (h : Finds (stringBody text) content rest) : Finds (skipString text) () rest := by
  induction hlength : text.length using Nat.strongRecOn generalizing text content with
  | _ length ih =>
  unfold stringBody at h
  split at h
  · obtain ⟨-, rfl⟩ := finds_some.mp h
    rw [skipString, finds_some]
    exact ⟨rfl, rfl⟩
  · next hquote =>
    split at h
    · exact absurd h not_finds_none
    · next c behind hbehind hc =>
      obtain ⟨others, hothers, -⟩ := h.exists_of_map (c :: ·) (fun _ => rfl) fun _ => rfl
      exact finds_skipString_of_character (fun body hbody => hquote body hbody) ⟨hbehind, hc⟩
        (ih _ (hlength ▸ hbehind) hothers rfl)

theorem quoted_eq_none {c : Char} (hc : c ≠ '"') (body : List Char) :
    quoted (c :: body) = none := by
  rw [quoted]
  rintro rest h
  exact hc (List.cons.inj h).1

theorem SpellsString.of_quoted {text rest : List Char} {content : String}
    (h : Finds (quoted (skipSpaces text)) content rest) :
    SpellsString text (some content) rest := by
  cases hquote : skipSpaces text with
  | nil =>
    rw [hquote] at h
    exact absurd h not_finds_none
  | cons c body =>
    rw [hquote] at h
    obtain rfl : c = '"' := by
      by_contra hc
      rw [quoted_eq_none hc] at h
      exact not_finds_none h
    have hbody : Finds (skipString body) () rest := by
      obtain ⟨chars, hchars, -⟩ := h.exists_of_map String.ofList (fun _ => rfl) fun _ => rfl
      exact finds_skipString_of_stringBody hchars
    obtain ⟨shorter, h⟩ := h
    have hspells := SpellsString.intro hquote hbody
    rw [h] at hspells
    exact hspells

/-- Characters that need no escape are read as they stand. -/
theorem finds_stringBody_plain {chars : List Char}
    (hplain : ∀ c ∈ chars, c ≠ '"' ∧ c ≠ '\\' ∧ 0x20 ≤ c.toNat) (rest : List Char) :
    Finds (stringBody (chars ++ '"' :: rest)) chars rest := by
  induction chars with
  | nil =>
    rw [List.nil_append, stringBody, finds_some]
    exact ⟨rfl, rfl⟩
  | cons c chars ih =>
    obtain ⟨⟨hquote, hescape, hcontrol⟩, hplain⟩ := List.forall_mem_cons.mp hplain
    have hfirst : character (c :: (chars ++ '"' :: rest)) = some (.first c) := by
      rw [character, if_neg (not_or.mpr ⟨hescape, by omega⟩)]
      · exact fun _ hsign _ => hescape hsign
      · exact fun _ _ hsign _ => hescape hsign
    rw [List.cons_append, stringBody, hfirst]
    · exact (ih hplain).map _ (c :: ·) (fun _ => rfl) fun _ => rfl
    · exact fun _ hsign => hquote (List.cons.inj hsign).1

/-- A string token of such characters is read. -/
theorem SpellsString.of_plain {text rest : List Char} (chars : List Char)
    (hquote : skipSpaces text = '"' :: (chars ++ '"' :: rest))
    (hplain : ∀ c ∈ chars, c ≠ '"' ∧ c ≠ '\\' ∧ 0x20 ≤ c.toNat) :
    SpellsString text (some (String.ofList chars)) rest := by
  refine .of_quoted ?_
  rw [hquote]
  exact (finds_stringBody_plain hplain rest).map _ String.ofList (fun _ => rfl) fun _ => rfl

/-- Reading a string is passing over one whose escapes denote text. -/
theorem finds_quoted_iff {text rest : List Char} {content : String} :
    Finds (quoted (skipSpaces text)) content rest ↔ SpellsString text (some content) rest := by
  refine ⟨.of_quoted, fun h => ?_⟩
  have hread : ∃ behind, Finds (quoted (skipSpaces text)) content behind := by
    generalize hcontent : some content = read at h
    obtain ⟨hquote, -⟩ := h
    obtain ⟨p, hp, rfl⟩ := Option.map_eq_some_iff.mp hcontent.symm
    rw [hquote]
    exact ⟨p.rest, p.shorter, hp⟩
  obtain ⟨behind, hbehind⟩ := hread
  obtain ⟨rfl, -⟩ := h.unique (.of_quoted hbehind)
  exact hbehind

/-! ## Lists -/

def Reader.takes {α : Type} (reader : Reader α) : Spelling α :=
  fun text value rest => Finds (reader text) value rest

theorem Reader.takes.length_lt {α : Type} {reader : Reader α} {text : List Char} {value : α}
    {rest : List Char} (h : reader.takes text value rest) : rest.length < text.length :=
  h.choose

def Loops {α : Type} (item : Reader α) (close : Char) (loop : Reader (List α)) : Prop :=
  ∀ text values rest, loop.takes text values rest ↔ ∃ first behind others,
    values = first :: others ∧ item.takes text first behind ∧
      (others = [] ∧ skipSpaces behind = close :: rest ∨
        ∃ next, skipSpaces behind = ',' :: next ∧ loop.takes next others rest)

theorem Loops.takes_iff {α : Type} {item : Reader α} {close : Char} {loop : Reader (List α)}
    (hloop : Loops item close loop) {text rest : List Char} {values : List α} :
    loop.takes text values rest ↔ ∃ first behind others, values = first :: others ∧
      item.takes text first behind ∧ Tail item.takes close behind others rest := by
  have hstep (text : List Char) (items : List α) (rest : List Char) :
      (items = [] ∧ skipSpaces text = close :: rest ∨
        ∃ next, skipSpaces text = ',' :: next ∧ loop.takes next items rest) ↔
      items = [] ∧ skipSpaces text = close :: rest ∨
        ∃ next first behind others, items = first :: others ∧ skipSpaces text = ',' :: next ∧
          item.takes next first behind ∧ (others = [] ∧ skipSpaces behind = close :: rest ∨
            ∃ next, skipSpaces behind = ',' :: next ∧ loop.takes next others rest) := by
    refine or_congr_right ⟨?_, ?_⟩
    · rintro ⟨next, hcomma, hnext⟩
      obtain ⟨first, behind, others, rfl, hfirst, hothers⟩ := (hloop _ _ _).mp hnext
      exact ⟨next, first, behind, others, rfl, hcomma, hfirst, hothers⟩
    · rintro ⟨next, first, behind, others, rfl, hcomma, hfirst, hothers⟩
      exact ⟨next, hcomma, (hloop _ _ _).mpr ⟨first, behind, others, rfl, hfirst, hothers⟩⟩
  have htail := tail_iff_of_step (fun _ _ _ h => h.length_lt) hstep
  rw [hloop]
  simp only [htail]

theorem loops_elements (item : Reader Json) : Loops item ']' (elements item) := by
  intro text values rest
  unfold Reader.takes
  conv => lhs; unfold elements
  split
  · next hfirst => simp [hfirst]
  · next first behind hbehind hfirst =>
    simp only [hfirst, finds_some]
    split
    · next hcomma =>
      refine Iff.trans (finds_map _ (first :: ·) (fun _ => rfl) fun _ => rfl) ?_
      simp [hcomma, and_comm]
    · next last hclose =>
      rw [finds_some]
      change [first] = values ∧ last = rest ↔ _
      simp [hclose, eq_comm]
    · next hcomma hclose =>
      replace hcomma : ∀ next, ¬skipSpaces behind = ',' :: next := hcomma
      replace hclose : ∀ next, ¬skipSpaces behind = ']' :: next := hclose
      simp [hcomma, hclose]

theorem takes_member_iff {item : Reader Json} {text rest : List Char} {pair : String × Json} :
    Reader.takes (member item) text pair rest ↔ Named item.takes text pair rest := by
  constructor
  · rintro ⟨shorter, h⟩
    obtain ⟨⟨key, behind, hbehind⟩, hkey, h⟩ := Option.bind_eq_some_iff.mp h
    dsimp only at h
    split at h
    · next hcolon =>
      obtain ⟨p, hp, h⟩ := Option.map_eq_some_iff.mp h
      cases h
      exact .intro (.of_quoted ⟨hbehind, hkey⟩) hcolon ⟨_, hp⟩
    · cases h
  · obtain ⟨key, value⟩ := pair
    rintro ⟨hname, hcolon, hvalue⟩
    obtain ⟨shorter, hkey⟩ := finds_quoted_iff.mpr hname
    unfold Reader.takes member
    rw [hkey]
    dsimp only [Option.bind_eq_bind, Option.bind_some]
    split
    · next hcolon' =>
      obtain ⟨-, rfl⟩ := List.cons.inj (hcolon.symm.trans hcolon')
      exact Finds.map hvalue _ (key, ·) (fun _ => rfl) fun _ => rfl
    · next hother => exact absurd hcolon (hother _)

theorem loops_members (item : Reader Json) : Loops (member item) '}' (members item) := by
  intro text pairs rest
  unfold Reader.takes
  conv => lhs; unfold members
  split
  · next hfirst => simp [hfirst]
  · next first behind hbehind hfirst =>
    simp only [hfirst, finds_some]
    split
    · next hcomma =>
      refine Iff.trans (finds_map _ (first :: ·) (fun _ => rfl) fun _ => rfl) ?_
      simp [hcomma, and_comm]
    · next last hclose =>
      rw [finds_some]
      change [first] = pairs ∧ last = rest ↔ _
      simp [hclose, eq_comm]
    · next hcomma hclose =>
      replace hcomma : ∀ next, ¬skipSpaces behind = ',' :: next := hcomma
      replace hclose : ∀ next, ¬skipSpaces behind = '}' :: next := hclose
      simp [hcomma, hclose]

/-! ## Values -/

def partReader : (levels : Nat) → Option (Reader Json)
  | 0 => none
  | levels + 1 => some (value levels)

theorem readsWithin_value_here {levels : Nat} {text rest : List Char} {v : Json} :
    (value levels).takes text v rest ↔
      Finds (valueHere (partReader levels) (skipSpaces text)) v rest := by
  cases levels <;> exact finds_map_of_eq _ (fun _ => rfl) fun _ => rfl

theorem valueHere_of_kindOf_number {c : Char} (h : kindOf c = some .number)
    (item : Option (Reader Json)) (body : List Char) :
    valueHere item (c :: body) = (numeral (c :: body)).map fun p => p.map .number := by
  rw [valueHere]
  all_goals
    rintro rest hsign
    obtain ⟨rfl, -⟩ := List.cons.inj hsign
    cases h

theorem finds_numeral_iff {text rest : List Char} {n : Number} :
    Finds (numeral text) n rest ↔
      ∃ parts, Finds (numberParts text) parts rest ∧ parts.number? = some n := by
  rw [numeral]
  cases numberParts text with
  | none => simp
  | some p =>
    rw [Option.bind_some]
    cases hn : p.value.number? with
    | none => simp [hn]
    | some m => simp [hn, and_comm]

def ReadsWithin (levels : Nat) (reader : Reader Json) : Prop :=
  ∀ text v rest, reader.takes text v rest ↔ ∃ doc, Spells text doc rest ∧ doc.DenotesWithin levels v

theorem ReadsWithin.finds_arrayBody_iff {levels : Nat} {item : Reader Json}
    (hitem : ReadsWithin levels item) {body rest : List Char} {v : Json} :
    Finds (arrayBody item body) v rest ↔ ∃ docs, Listed Spells ']' body docs rest ∧
      (Document.array docs).DenotesWithin (levels + 1) v := by
  have hbody : Finds (arrayBody item body) v rest ↔
      ∃ values, Listed item.takes ']' body values rest ∧ v = .array values := by
    unfold arrayBody
    split
    · next hclose =>
      have hopen (text first behind rest) (h : item.takes text first behind) :
          skipSpaces text ≠ ']' :: rest := by
        obtain ⟨doc, hdoc, -⟩ := (hitem _ _ _).mp h
        exact hdoc.not_bracket rest
      simp only [listed_iff_of_close hclose hopen, finds_some]
      constructor
      · rintro ⟨rfl, rfl⟩
        exact ⟨[], ⟨rfl, rfl⟩, rfl⟩
      · rintro ⟨values, ⟨rfl, rfl⟩, rfl⟩
        exact ⟨rfl, rfl⟩
    · next hclose =>
      refine Iff.trans (finds_map _ Json.array (fun _ => rfl) fun _ => rfl) ?_
      simp only [listed_iff_of_not_close hclose]
      exact exists_congr fun values => and_congr_left' (loops_elements item).takes_iff
  rw [hbody]
  simp only [listed_exists_iff hitem, Document.denotesWithin_array_iff]
  constructor
  · rintro ⟨values, ⟨docs, hdocs, hdenotes⟩, rfl⟩
    exact ⟨docs, hdocs, values, hdenotes, rfl⟩
  · rintro ⟨docs, hdocs, values, hdenotes, rfl⟩
    exact ⟨values, ⟨docs, hdocs, hdenotes⟩, rfl⟩

theorem ReadsWithin.finds_objectBody_iff {levels : Nat} {item : Reader Json}
    (hitem : ReadsWithin levels item) {body rest : List Char} {v : Json} :
    Finds (objectBody item body) v rest ↔ ∃ members, Listed (Entry Spells) '}' body members rest ∧
      (Document.object members).DenotesWithin (levels + 1) v := by
  have hmember (text pair rest) : Reader.takes (member item) text pair rest ↔
      ∃ member, Entry Spells text member rest ∧ Document.MemberWithin levels member pair :=
    takes_member_iff.trans (named_exists_iff hitem text pair rest)
  have hbody : Finds (objectBody item body) v rest ↔
      ∃ pairs, Listed (Reader.takes (member item)) '}' body pairs rest ∧ v = .ofPairs pairs := by
    unfold objectBody
    split
    · next hclose =>
      have hopen (text first behind rest) (h : Reader.takes (member item) text first behind) :
          skipSpaces text ≠ '}' :: rest :=
        (takes_member_iff.mp h).not_brace rest
      simp only [listed_iff_of_close hclose hopen, finds_some]
      constructor
      · rintro ⟨rfl, rfl⟩
        exact ⟨[], ⟨rfl, rfl⟩, rfl⟩
      · rintro ⟨pairs, ⟨rfl, rfl⟩, rfl⟩
        exact ⟨rfl, rfl⟩
    · next hclose =>
      refine Iff.trans (finds_map _ Json.ofPairs (fun _ => rfl) fun _ => rfl) ?_
      simp only [listed_iff_of_not_close hclose]
      exact exists_congr fun pairs => and_congr_left' (loops_members item).takes_iff
  rw [hbody]
  simp only [listed_exists_iff hmember, Document.denotesWithin_object_iff]
  constructor
  · rintro ⟨pairs, ⟨members, hmembers, hdenotes⟩, rfl⟩
    exact ⟨members, hmembers, pairs, hdenotes, rfl⟩
  · rintro ⟨members, hmembers, pairs, hdenotes, rfl⟩
    exact ⟨pairs, ⟨members, hmembers, hdenotes⟩, rfl⟩

/-- A document that is read starts with its sign, and its parts are read from behind that. -/
theorem readsWithin_of_below {levels : Nat}
    (hbelow : ∀ below, levels = below + 1 → ReadsWithin below (value below)) :
    ReadsWithin levels (value levels) := by
  intro text v rest
  rw [readsWithin_value_here]
  constructor
  · intro h
    generalize hsign : skipSpaces text = here at h
    unfold valueHere at h
    split at h
    · obtain ⟨⟨⟩, hword, rfl⟩ := h.exists_of_map (fun _ => .null) (fun _ => rfl) fun _ => rfl
      exact ⟨.null, .null hsign hword, Nat.zero_le _, rfl⟩
    · obtain ⟨⟨⟩, hword, rfl⟩ := h.exists_of_map (fun _ => .bool true) (fun _ => rfl) fun _ => rfl
      exact ⟨.bool true, .true hsign hword, Nat.zero_le _, rfl⟩
    · obtain ⟨⟨⟩, hword, rfl⟩ := h.exists_of_map (fun _ => .bool false) (fun _ => rfl) fun _ => rfl
      exact ⟨.bool false, .false hsign hword, Nat.zero_le _, rfl⟩
    · obtain ⟨content, hcontent, rfl⟩ := h.exists_of_map .string (fun _ => rfl) fun _ => rfl
      rw [← hsign] at hcontent
      exact ⟨.string (some content), .string (.of_quoted hcontent), Nat.zero_le _, rfl⟩
    · cases levels with
      | zero => exact absurd h not_finds_none
      | succ below =>
        have hbody := h.of_map (fun _ => rfl) fun _ => rfl
        obtain ⟨docs, hdocs, hdenotes⟩ := (hbelow below rfl).finds_arrayBody_iff.mp hbody
        exact ⟨.array docs, .array hsign hdocs, hdenotes⟩
    · cases levels with
      | zero => exact absurd h not_finds_none
      | succ below =>
        have hbody := h.of_map (fun _ => rfl) fun _ => rfl
        obtain ⟨members, hmembers, hdenotes⟩ := (hbelow below rfl).finds_objectBody_iff.mp hbody
        exact ⟨.object members, .object hsign hmembers, hdenotes⟩
    · obtain ⟨n, hn, rfl⟩ := h.exists_of_map .number (fun _ => rfl) fun _ => rfl
      obtain ⟨parts, hparts, hnumber⟩ := finds_numeral_iff.mp hn
      rw [← hsign] at hparts
      exact ⟨.number parts, .number hparts, Nat.zero_le _, by rw [Document.toJson?, hnumber]; rfl⟩
  · rintro ⟨doc, hdoc, hdenotes⟩
    cases hdoc with
    | null hsign hword =>
      obtain rfl := Option.some.inj hdenotes.2
      rw [hsign, valueHere]
      exact hword.map _ (fun _ => Json.null) (fun _ => rfl) fun _ => rfl
    | true hsign hword =>
      obtain rfl := Option.some.inj hdenotes.2
      rw [hsign, valueHere]
      exact hword.map _ (fun _ => Json.bool true) (fun _ => rfl) fun _ => rfl
    | false hsign hword =>
      obtain rfl := Option.some.inj hdenotes.2
      rw [hsign, valueHere]
      exact hword.map _ (fun _ => Json.bool false) (fun _ => rfl) fun _ => rfl
    | number hparts =>
      obtain ⟨n, hn, rfl⟩ := Option.map_eq_some_iff.mp hdenotes.2
      have hnumeral := finds_numeral_iff.mpr ⟨_, hparts, hn⟩
      cases hsign : skipSpaces text with
      | nil =>
        rw [hsign] at hnumeral
        exact absurd hnumeral.choose (Nat.not_lt_zero _)
      | cons c body =>
        rw [hsign] at hparts hnumeral
        rw [valueHere_of_kindOf_number (kindOf_of_numberParts hparts)]
        exact hnumeral.map _ Json.number (fun _ => rfl) fun _ => rfl
    | string hcontent =>
      obtain ⟨content, rfl, rfl⟩ := Option.map_eq_some_iff.mp hdenotes.2
      have hread := finds_quoted_iff.mpr hcontent
      obtain ⟨body, hquote⟩ := hcontent.exists_quote
      rw [hquote] at hread
      rw [hquote, valueHere]
      exact hread.map _ Json.string (fun _ => rfl) fun _ => rfl
    | array hsign hitems =>
      cases levels with
      | zero => exact absurd hdenotes Document.not_denotesWithin_zero_array
      | succ below =>
        have hbody := (hbelow below rfl).finds_arrayBody_iff.mpr ⟨_, hitems, hdenotes⟩
        rw [hsign, valueHere]
        exact hbody.map _ id (fun _ => rfl) fun _ => rfl
    | object hsign hmembers =>
      cases levels with
      | zero => exact absurd hdenotes Document.not_denotesWithin_zero_object
      | succ below =>
        have hbody := (hbelow below rfl).finds_objectBody_iff.mpr ⟨_, hmembers, hdenotes⟩
        rw [hsign, valueHere]
        exact hbody.map _ id (fun _ => rfl) fun _ => rfl

/-- The reader of values takes what is spelled, denotes a value and nests not too deep. -/
theorem readsWithin_value (levels : Nat) : ReadsWithin levels (value levels) := by
  induction levels with
  | zero => exact readsWithin_of_below fun _ hlevels => absurd hlevels.symm (Nat.succ_ne_zero _)
  | succ levels ih =>
    refine readsWithin_of_below fun below hlevels => ?_
    obtain rfl := Nat.succ.inj hlevels
    exact ih

/-- A text is read as a value just when it is a document that denotes this value and nests at most
`nestingLimit` deep. -/
theorem parse?_eq_some_iff {text : String} {v : Json} :
    parse? text = some v ↔
      ∃ doc : Document, doc.OfText text ∧ doc.DenotesWithin nestingLimit v := by
  have hparse : parse? text = some v ↔
      ∃ rest, (value nestingLimit).takes text.toList v rest ∧ skipSpaces rest = [] := by
    unfold parse? Reader.takes
    cases value nestingLimit text.toList with
    | none => simp
    | some p => simp [and_comm]
  rw [hparse]
  constructor
  · rintro ⟨rest, hvalue, hend⟩
    obtain ⟨doc, hspells, hdenotes⟩ := (readsWithin_value _ _ _ _).mp hvalue
    exact ⟨doc, ⟨rest, hspells, hend⟩, hdenotes⟩
  · rintro ⟨doc, ⟨rest, hspells, hend⟩, hdenotes⟩
    exact ⟨rest, (readsWithin_value _ _ _ _).mpr ⟨doc, hspells, hdenotes⟩, hend⟩

end Abac.Json
