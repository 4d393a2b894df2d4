import Abac.Json.Skip
import Abac.Proofs.Dict
import Abac.Proofs.Parsing
import Mathlib.Data.List.DropRight
import Mathlib.Data.List.Forall2

/-!
What JSON text spells, before anything is made of it. A document keeps all members of an object, in
the order of the text and with repeated names, and it may be too deep, have numbers of any size and
strings that denote no text; `Document.toJson?` is the value that it denotes, if it denotes one.
`Spells` is the grammar. A text spells one document at most (`Spells.unique`).
-/
namespace Abac.Json

open Token

/-- A JSON text taken apart. The content of a string is `none` if its escapes denote no text. -/
inductive Document where
  | null
  | bool (b : Bool)
  | number (parts : NumberParts)
  | string (content : Option String)
  | array (items : List Document)
  | object (members : List (Option String × Document))

namespace Document

mutual

def depth : Document → Nat
  | .array items => depthOfItems items + 1
  | .object members => depthOfMembers members + 1
  | _ => 0

def depthOfItems : List Document → Nat
  | [] => 0
  | item :: rest => max item.depth (depthOfItems rest)

def depthOfMembers : List (Option String × Document) → Nat
  | [] => 0
  | (_, value) :: rest => max value.depth (depthOfMembers rest)

end

mutual

/-- The value that a document denotes. It has one if every number fits and every string denotes
text; of several members with one name the last counts. -/
def toJson? : Document → Option Json
  | .null => some .null
  | .bool b => some (.bool b)
  | .number parts => parts.number?.map .number
  | .string content => content.map .string
  | .array items => (itemsToJson? items).map .array
  | .object members => (membersToJson? members).map .ofPairs

def itemsToJson? : List Document → Option (List Json)
  | [] => some []
  | item :: rest => do return (← item.toJson?) :: (← itemsToJson? rest)

def membersToJson? : List (Option String × Document) → Option (List (String × Json))
  | [] => some []
  | (name, value) :: rest => do return (← name, ← value.toJson?) :: (← membersToJson? rest)

end

def names : Document → List String
  | .object members => members.filterMap (·.1)
  | _ => []

theorem depth_array_le_iff {items : List Document} {levels : Nat} :
    (Document.array items).depth ≤ levels + 1 ↔ ∀ item ∈ items, item.depth ≤ levels := by
  rw [depth, Nat.add_le_add_iff_right]
  induction items with
  | nil => simp [depthOfItems]
  | cons item rest ih => rw [depthOfItems, Nat.max_le, ih, List.forall_mem_cons]

theorem depth_object_le_iff {members : List (Option String × Document)} {levels : Nat} :
    (Document.object members).depth ≤ levels + 1 ↔
      ∀ member ∈ members, member.2.depth ≤ levels := by
  rw [depth, Nat.add_le_add_iff_right]
  induction members with
  | nil => simp [depthOfMembers]
  | cons member rest ih =>
    obtain ⟨name, value⟩ := member
    rw [depthOfMembers, Nat.max_le, ih, List.forall_mem_cons]

theorem depth_lt_of_mem_items {item : Document} {items : List Document} (h : item ∈ items) :
    item.depth < (Document.array items).depth :=
  Nat.lt_succ_of_le (depth_array_le_iff.mp (Nat.le_refl _) item h)

theorem depth_lt_of_mem_members {member : Option String × Document}
    {members : List (Option String × Document)} (h : member ∈ members) :
    member.2.depth < (Document.object members).depth :=
  Nat.lt_succ_of_le (depth_object_le_iff.mp (Nat.le_refl _) member h)

def DenotesWithin (levels : Nat) (doc : Document) (value : Json) : Prop :=
  doc.depth ≤ levels ∧ doc.toJson? = some value

def MemberWithin (levels : Nat) (member : Option String × Document) (pair : String × Json) : Prop :=
  member.1 = some pair.1 ∧ member.2.DenotesWithin levels pair.2

theorem itemsToJson?_eq_some_iff {items : List Document} {values : List Json} :
    itemsToJson? items = some values ↔
      List.Forall₂ (fun item value => item.toJson? = some value) items values := by
  induction items generalizing values with
  | nil => simp [itemsToJson?, eq_comm]
  | cons item rest ih =>
    rw [itemsToJson?, List.forall₂_cons_left_iff]
    simp only [← ih, Option.bind_eq_bind, Option.bind_eq_some_iff, Option.pure_def,
      Option.some.injEq]
    constructor
    · rintro ⟨first, hfirst, others, hothers, rfl⟩
      exact ⟨first, others, hfirst, hothers, rfl⟩
    · rintro ⟨first, others, hfirst, hothers, rfl⟩
      exact ⟨first, hfirst, others, hothers, rfl⟩

theorem membersToJson?_eq_some_iff {members : List (Option String × Document)}
    {pairs : List (String × Json)} :
    membersToJson? members = some pairs ↔
      List.Forall₂ (fun member pair => member.1 = some pair.1 ∧ member.2.toJson? = some pair.2)
        members pairs := by
  induction members generalizing pairs with
  | nil => simp [membersToJson?, eq_comm]
  | cons member rest ih =>
    obtain ⟨name, value⟩ := member
    rw [membersToJson?, List.forall₂_cons_left_iff]
    simp only [← ih, Option.bind_eq_bind, Option.bind_eq_some_iff, Option.pure_def,
      Option.some.injEq]
    constructor
    · rintro ⟨key, hkey, json, hjson, others, hothers, rfl⟩
      exact ⟨(key, json), others, ⟨hkey, hjson⟩, hothers, rfl⟩
    · rintro ⟨⟨key, json⟩, others, ⟨hkey, hjson⟩, hothers, rfl⟩
      exact ⟨key, hkey, json, hjson, others, hothers, rfl⟩

theorem denotesWithin_array_iff {levels : Nat} {items : List Document} {value : Json} :
    (Document.array items).DenotesWithin (levels + 1) value ↔
      ∃ values, List.Forall₂ (DenotesWithin levels) items values ∧ value = .array values := by
  unfold DenotesWithin
  simp only [depth_array_le_iff, toJson?, Option.map_eq_some_iff, itemsToJson?_eq_some_iff,
    List.forall₂_and_left]
  constructor
  · rintro ⟨hdepth, values, hvalues, rfl⟩
    exact ⟨values, ⟨hdepth, hvalues⟩, rfl⟩
  · rintro ⟨values, ⟨hdepth, hvalues⟩, rfl⟩
    exact ⟨hdepth, values, hvalues, rfl⟩

theorem denotesWithin_object_iff {levels : Nat} {members : List (Option String × Document)}
    {value : Json} :
    (Document.object members).DenotesWithin (levels + 1) value ↔
      ∃ pairs, List.Forall₂ (MemberWithin levels) members pairs ∧ value = .ofPairs pairs := by
  have hmember : MemberWithin levels = fun member pair => member.2.depth ≤ levels ∧
      member.1 = some pair.1 ∧ member.2.toJson? = some pair.2 := by
    funext member pair
    exact propext and_left_comm
  rw [hmember, DenotesWithin]
  simp only [depth_object_le_iff, toJson?, Option.map_eq_some_iff, membersToJson?_eq_some_iff,
    List.forall₂_and_left]
  constructor
  · rintro ⟨hdepth, pairs, hpairs, rfl⟩
    exact ⟨pairs, ⟨hdepth, hpairs⟩, rfl⟩
  · rintro ⟨pairs, ⟨hdepth, hpairs⟩, rfl⟩
    exact ⟨hdepth, pairs, hpairs, rfl⟩

/-- The value of an object has a field just when a member names it. -/
theorem field?_eq_none_iff {doc : Document} {value : Json} (h : doc.toJson? = some value)
    (name : String) : value.field? name = none ↔ name ∉ doc.names := by
  cases doc with
  | object members =>
    obtain ⟨pairs, hpairs, rfl⟩ := Option.map_eq_some_iff.mp h
    have hnames : members.filterMap (·.1) = pairs.map (·.1) := by
      clear h
      replace hpairs := membersToJson?_eq_some_iff.mp hpairs
      induction hpairs with
      | nil => rfl
      | cons hmember _ ih => rw [List.filterMap_cons_some hmember.1, ih, List.map_cons]
    change (Dict.ofList pairs).get? name = none ↔ name ∉ members.filterMap (·.1)
    rw [Dict.get?_ofList, List.lookup_eq_none_iff, hnames, List.mem_map]
    simp only [List.mem_reverse, bne_iff_ne]
    constructor
    · rintro h ⟨pair, hpair, rfl⟩
      exact h pair hpair rfl
    · exact fun h pair hpair hname => h ⟨pair, hpair, hname.symm⟩
  | null | bool b =>
    obtain rfl := Option.some.inj h
    simp [Json.field?, names]
  | number parts | string content | array items =>
    obtain ⟨_, -, rfl⟩ := Option.map_eq_some_iff.mp h
    simp [Json.field?, names]

theorem not_denotesWithin_zero_array {items : List Document} {value : Json} :
    ¬(Document.array items).DenotesWithin 0 value :=
  fun h => absurd h.1 (Nat.not_succ_le_zero _)

theorem not_denotesWithin_zero_object {members : List (Option String × Document)} {value : Json} :
    ¬(Document.object members).DenotesWithin 0 value :=
  fun h => absurd h.1 (Nat.not_succ_le_zero _)

end Document

/-! ## Grammar -/

/-- A kind of thing in texts: what it is that stands from a text on, and what stands behind it. -/
abbrev Spelling (α : Type) : Type := List Char → α → List Char → Prop

section Lists

variable {α β : Type} {item : Spelling α} {close : Char} {text rest : List Char}

/-- What may stand behind an item of a list: more items, each behind a comma, and the closing
sign. -/
inductive Tail (item : Spelling α) (close : Char) : Spelling (List α)
  | done {text rest : List Char} (hclose : skipSpaces text = close :: rest) :
      Tail item close text [] rest
  | more {text next behind rest : List Char} {first : α} {others : List α}
      (hcomma : skipSpaces text = ',' :: next) (hfirst : item next first behind)
      (hothers : Tail item close behind others rest) : Tail item close text (first :: others) rest

inductive Listed (item : Spelling α) (close : Char) : Spelling (List α)
  | none {text rest : List Char} (hclose : skipSpaces text = close :: rest) :
      Listed item close text [] rest
  | some {text behind rest : List Char} {first : α} {others : List α}
      (hfirst : item text first behind) (hothers : Tail item close behind others rest) :
      Listed item close text (first :: others) rest

inductive SpellsString : Spelling (Option String)
  | intro {text body rest : List Char} (hquote : skipSpaces text = '"' :: body)
      (hbody : Parsed.Finds (skipString body) () rest) :
      SpellsString text ((quoted ('"' :: body)).map (·.value)) rest

inductive Entry (value : Spelling α) : Spelling (Option String × α)
  | intro {text behind next rest : List Char} {name : Option String} {content : α}
      (hname : SpellsString text name behind) (hcolon : skipSpaces behind = ':' :: next)
      (hvalue : value next content rest) : Entry value text (name, content) rest

theorem Tail.unique {rest' : List Char} {items items' : List α}
    (h : Tail item close text items rest) (h' : Tail item close text items' rest')
    (hclose : close ≠ ',') (hitem : ∀ first ∈ items, ∀ text rest first' rest',
      item text first rest → item text first' rest' → rest' = rest ∧ first = first') :
    rest' = rest ∧ items = items' := by
  induction h generalizing items' with
  | done hend =>
    cases h' with
    | done hend' => exact ⟨(List.cons.inj (hend'.symm.trans hend)).2, rfl⟩
    | more hcomma' => exact absurd (List.cons.inj (hend.symm.trans hcomma')).1 hclose
  | more hcomma hfirst _ ih =>
    cases h' with
    | done hend' => exact absurd (List.cons.inj (hend'.symm.trans hcomma)).1 hclose
    | more hcomma' hfirst' hothers' =>
      obtain ⟨-, rfl⟩ := List.cons.inj (hcomma.symm.trans hcomma')
      obtain ⟨rfl, rfl⟩ := hitem _ List.mem_cons_self _ _ _ _ hfirst hfirst'
      obtain ⟨hrest, rfl⟩ :=
        ih hothers' fun first hmem => hitem first (List.mem_cons_of_mem _ hmem)
      exact ⟨hrest, rfl⟩

theorem Listed.unique {rest' : List Char} {items items' : List α}
    (h : Listed item close text items rest) (h' : Listed item close text items' rest')
    (hclose : close ≠ ',')
    (hopen : ∀ text first behind rest, item text first behind → skipSpaces text ≠ close :: rest)
    (hitem : ∀ first ∈ items, ∀ text rest first' rest', item text first rest →
      item text first' rest' → rest' = rest ∧ first = first') :
    rest' = rest ∧ items = items' := by
  cases h with
  | none hend =>
    cases h' with
    | none hend' => exact ⟨(List.cons.inj (hend'.symm.trans hend)).2, rfl⟩
    | some hfirst' => exact absurd hend (hopen _ _ _ _ hfirst')
  | some hfirst hothers =>
    cases h' with
    | none hend' => exact absurd hend' (hopen _ _ _ _ hfirst)
    | some hfirst' hothers' =>
      obtain ⟨rfl, rfl⟩ := hitem _ List.mem_cons_self _ _ _ _ hfirst hfirst'
      obtain ⟨hrest, rfl⟩ := hothers.unique hothers' hclose fun first hmem =>
        hitem first (List.mem_cons_of_mem _ hmem)
      exact ⟨hrest, rfl⟩

/-- Where the closing sign stands, no item starts. -/
theorem listed_iff_of_close {items : List α} {rest' : List Char}
    (hclose : skipSpaces text = close :: rest')
    (hopen : ∀ text first behind rest, item text first behind → skipSpaces text ≠ close :: rest) :
    Listed item close text items rest ↔ items = [] ∧ rest' = rest := by
  constructor
  · rintro (hclose' | ⟨hfirst, -⟩)
    · exact ⟨rfl, (List.cons.inj (hclose.symm.trans hclose')).2⟩
    · exact absurd hclose (hopen _ _ _ _ hfirst)
  · rintro ⟨rfl, rfl⟩
    exact .none hclose

theorem listed_iff_of_not_close {items : List α}
    (hclose : ∀ next, skipSpaces text ≠ close :: next) :
    Listed item close text items rest ↔ ∃ first behind others, items = first :: others ∧
      item text first behind ∧ Tail item close behind others rest := by
  constructor
  · rintro (hclose' | ⟨hfirst, hothers⟩)
    · exact absurd hclose' (hclose _)
    · exact ⟨_, _, _, rfl, hfirst, hothers⟩
  · rintro ⟨first, behind, others, rfl, hfirst, hothers⟩
    exact .some hfirst hothers

/-- A loop over items, each of which shortens the text, takes what may stand behind an item. -/
theorem tail_iff_of_step {loop : Spelling (List α)}
    (hshorter : ∀ text first behind, item text first behind → behind.length < text.length)
    (hstep : ∀ text items rest, loop text items rest ↔
      items = [] ∧ skipSpaces text = close :: rest ∨
      ∃ next first behind others, items = first :: others ∧ skipSpaces text = ',' :: next ∧
        item next first behind ∧ loop behind others rest)
    (text : List Char) (items : List α) (rest : List Char) :
    loop text items rest ↔ Tail item close text items rest := by
  constructor
  · intro h
    induction hlength : text.length using Nat.strongRecOn generalizing text items with
    | ind length ih =>
    rcases (hstep _ _ _).mp h with
      ⟨rfl, hclose⟩ | ⟨next, first, behind, others, rfl, hcomma, hfirst, hothers⟩
    · exact .done hclose
    · have hbehind : behind.length < length := hlength ▸ Nat.lt_trans (hshorter _ _ _ hfirst)
        (length_lt_of_eq_cons (length_skipSpaces_le text) hcomma)
      exact .more hcomma hfirst (ih _ hbehind _ _ hothers rfl)
  · intro h
    induction h with
    | done hclose => exact (hstep _ _ _).mpr (.inl ⟨rfl, hclose⟩)
    | more hcomma hfirst _ ih =>
      exact (hstep _ _ _).mpr (.inr ⟨_, _, _, _, rfl, hcomma, hfirst, ih⟩)

section Changed

variable {other : Spelling β} {Q : β → α → Prop}
  (hitem : ∀ text first rest, item text first rest ↔ ∃ w, other text w rest ∧ Q w first)

include hitem

/-- If items are made of what another kind of item spells, lists of them are made of lists. -/
theorem tail_exists_iff {items : List α} : Tail item close text items rest ↔
    ∃ others, Tail other close text others rest ∧ List.Forall₂ Q others items := by
  constructor
  · intro h
    induction h with
    | done hclose => exact ⟨[], .done hclose, .nil⟩
    | more hcomma hfirst _ ih =>
      obtain ⟨w, hw, hQ⟩ := (hitem _ _ _).mp hfirst
      obtain ⟨others, hothers, hQs⟩ := ih
      exact ⟨w :: others, .more hcomma hw hothers, .cons hQ hQs⟩
  · rintro ⟨others, h, hQs⟩
    induction h generalizing items with
    | done hclose =>
      cases hQs
      exact .done hclose
    | more hcomma hfirst _ ih =>
      obtain ⟨first, firsts, hQ, hrest, rfl⟩ := List.forall₂_cons_left_iff.mp hQs
      exact .more hcomma ((hitem _ _ _).mpr ⟨_, hfirst, hQ⟩) (ih hrest)

theorem listed_exists_iff {items : List α} : Listed item close text items rest ↔
    ∃ others, Listed other close text others rest ∧ List.Forall₂ Q others items := by
  constructor
  · rintro (hclose | ⟨hfirst, hothers⟩)
    · exact ⟨[], .none hclose, .nil⟩
    · obtain ⟨w, hw, hQ⟩ := (hitem _ _ _).mp hfirst
      obtain ⟨others, hothers, hQs⟩ := (tail_exists_iff hitem).mp hothers
      exact ⟨w :: others, .some hw hothers, .cons hQ hQs⟩
  · rintro ⟨others, hclose | ⟨hfirst, hothers⟩, hQs⟩
    · cases hQs
      exact .none hclose
    · obtain ⟨first, firsts, hQ, hrest, rfl⟩ := List.forall₂_cons_left_iff.mp hQs
      exact .some ((hitem _ _ _).mpr ⟨_, hfirst, hQ⟩)
        ((tail_exists_iff hitem).mpr ⟨_, hothers, hrest⟩)

theorem entry_exists_iff {name : Option String} {content : α} :
    Entry item text (name, content) rest ↔
      ∃ w, Entry other text (name, w) rest ∧ Q w content := by
  constructor
  · rintro ⟨hname, hcolon, hcontent⟩
    obtain ⟨w, hw, hQ⟩ := (hitem _ _ _).mp hcontent
    exact ⟨w, .intro hname hcolon hw, hQ⟩
  · rintro ⟨w, ⟨hname, hcolon, hw⟩, hQ⟩
    exact .intro hname hcolon ((hitem _ _ _).mpr ⟨w, hw, hQ⟩)

end Changed

theorem SpellsString.exists_quote {name : Option String} (h : SpellsString text name rest) :
    ∃ body, skipSpaces text = '"' :: body := by
  obtain ⟨hquote, -⟩ := h
  exact ⟨_, hquote⟩

theorem SpellsString.unique {rest' : List Char} {name name' : Option String}
    (h : SpellsString text name rest) (h' : SpellsString text name' rest') :
    rest' = rest ∧ name = name' := by
  obtain ⟨hquote, shorter, hbody⟩ := h
  obtain ⟨hquote', shorter', hbody'⟩ := h'
  obtain ⟨-, rfl⟩ := List.cons.inj (hquote.symm.trans hquote')
  rw [hbody] at hbody'
  cases hbody'
  exact ⟨rfl, rfl⟩

theorem Entry.unique {rest' : List Char} {entry entry' : Option String × α}
    (h : Entry item text entry rest) (h' : Entry item text entry' rest')
    (hvalue : ∀ text rest content rest', item text entry.2 rest → item text content rest' →
      rest' = rest ∧ entry.2 = content) :
    rest' = rest ∧ entry = entry' := by
  obtain ⟨hname, hcolon, hcontent⟩ := h
  obtain ⟨hname', hcolon', hcontent'⟩ := h'
  obtain ⟨rfl, rfl⟩ := hname.unique hname'
  obtain ⟨-, rfl⟩ := List.cons.inj (hcolon.symm.trans hcolon')
  obtain ⟨hrest, rfl⟩ := hvalue _ _ _ _ hcontent hcontent'
  exact ⟨hrest, rfl⟩

theorem Entry.not_brace {entry : Option String × α} (h : Entry item text entry rest)
    (body : List Char) : skipSpaces text ≠ '}' :: body := by
  obtain ⟨⟨hquote, -⟩, -, -⟩ := h
  intro hclose
  exact absurd (List.cons.inj (hquote.symm.trans hclose)).1 (by decide)

end Lists

def Named {α : Type} (value : Spelling α) : Spelling (String × α) :=
  fun text pair rest => Entry value text (some pair.1, pair.2) rest

theorem named_exists_iff {α β : Type} {item : Spelling α} {other : Spelling β} {Q : β → α → Prop}
    (hitem : ∀ text first rest, item text first rest ↔ ∃ w, other text w rest ∧ Q w first)
    (text : List Char) (pair : String × α) (rest : List Char) : Named item text pair rest ↔
      ∃ member, Entry other text member rest ∧ member.1 = some pair.1 ∧ Q member.2 pair.2 := by
  rw [Named, entry_exists_iff hitem]
  constructor
  · rintro ⟨w, hentry, hQ⟩
    exact ⟨_, hentry, rfl, hQ⟩
  · rintro ⟨⟨name, w⟩, hentry, rfl, hQ⟩
    exact ⟨w, hentry, hQ⟩

/-- The grammar: from a text on stands a document, blanks before it, and a rest behind it. Nesting
and the size of numbers are not limited, and escapes may name any surrogate. -/
inductive Spells : Spelling Document
  | null {text body rest : List Char} (hsign : skipSpaces text = 'n' :: body)
      (hword : Parsed.Finds (word "ull".toList body) () rest) : Spells text .null rest
  | true {text body rest : List Char} (hsign : skipSpaces text = 't' :: body)
      (hword : Parsed.Finds (word "rue".toList body) () rest) : Spells text (.bool true) rest
  | false {text body rest : List Char} (hsign : skipSpaces text = 'f' :: body)
      (hword : Parsed.Finds (word "alse".toList body) () rest) : Spells text (.bool false) rest
  | number {text rest : List Char} {parts : NumberParts}
      (hparts : Parsed.Finds (numberParts (skipSpaces text)) parts rest) :
      Spells text (.number parts) rest
  | string {text rest : List Char} {content : Option String}
      (hcontent : SpellsString text content rest) : Spells text (.string content) rest
  | array {text body rest : List Char} {items : List Document}
      (hsign : skipSpaces text = '[' :: body) (hitems : Listed Spells ']' body items rest) :
      Spells text (.array items) rest
  | object {text body rest : List Char} {members : List (Option String × Document)}
      (hsign : skipSpaces text = '{' :: body)
      (hmembers : Listed (Entry Spells) '}' body members rest) : Spells text (.object members) rest

/-- Blanks in front play no part. -/
theorem Spells.of_skipSpaces_eq {text text' rest : List Char} {doc : Document}
    (h : Spells text doc rest) (heq : skipSpaces text = skipSpaces text') :
    Spells text' doc rest := by
  cases h with
  | null hsign hword => exact .null (heq ▸ hsign) hword
  | true hsign hword => exact .true (heq ▸ hsign) hword
  | false hsign hword => exact .false (heq ▸ hsign) hword
  | number hparts => exact .number (heq ▸ hparts)
  | string hcontent =>
    obtain ⟨hquote, hbody⟩ := hcontent
    exact .string (.intro (heq ▸ hquote) hbody)
  | array hsign hitems => exact .array (heq ▸ hsign) hitems
  | object hsign hmembers => exact .object (heq ▸ hsign) hmembers

theorem spells_skipSpaces_iff {text rest : List Char} {doc : Document} :
    Spells (skipSpaces text) doc rest ↔ Spells text doc rest := by
  have hsame : skipSpaces (skipSpaces text) = skipSpaces text :=
    List.dropWhile_idempotent _ text
  exact ⟨fun h => h.of_skipSpaces_eq hsame, fun h => h.of_skipSpaces_eq hsame.symm⟩

def Document.OfText (doc : Document) (text : String) : Prop :=
  ∃ rest, Spells text.toList doc rest ∧ skipSpaces rest = []

theorem spells_string_iff {text rest : List Char} {content : Option String} :
    Spells text (.string content) rest ↔ SpellsString text content rest :=
  ⟨fun | .string hcontent => hcontent, .string⟩

theorem spells_array_iff {text rest : List Char} {items : List Document} :
    Spells text (.array items) rest ↔
      ∃ body, skipSpaces text = '[' :: body ∧ Listed Spells ']' body items rest :=
  ⟨fun | .array hsign hitems => ⟨_, hsign, hitems⟩, fun ⟨_, hsign, hitems⟩ => .array hsign hitems⟩

theorem spells_object_iff {text rest : List Char} {members : List (Option String × Document)} :
    Spells text (.object members) rest ↔
      ∃ body, skipSpaces text = '{' :: body ∧ Listed (Entry Spells) '}' body members rest :=
  ⟨fun | .object hsign hmembers => ⟨_, hsign, hmembers⟩,
    fun ⟨_, hsign, hmembers⟩ => .object hsign hmembers⟩

/-! ## Uniqueness -/

inductive Document.Kind where
  | null | bool (b : Bool) | number | string | array | object

def Document.kind : Document → Kind
  | .null => .null
  | .bool b => .bool b
  | .number _ => .number
  | .string _ => .string
  | .array _ => .array
  | .object _ => .object

def kindOf : Char → Option Document.Kind
  | 'n' => some .null
  | 't' => some (.bool true)
  | 'f' => some (.bool false)
  | '"' => some .string
  | '[' => some .array
  | '{' => some .object
  | c => if c = '-' ∨ Digits.isDecimal c = true then some .number else none

theorem numberParts_eq_none {c : Char} (hminus : c ≠ '-') (hdigit : Digits.isDecimal c = false)
    (body : List Char) : numberParts (c :: body) = none := by
  have hzero : c ≠ '0' := by
    rintro rfl
    cases hdigit
  have hwhole : wholeDigits (c :: body) = none := by
    rw [wholeDigits, takeRun?, hdigit]
    · rfl
    · rintro rest h
      exact absurd (List.cons.inj h).1 hzero
  rw [numberParts, unsignedParts, hwhole]
  · rfl
  · rintro rest h
    exact absurd (List.cons.inj h).1 hminus

theorem kindOf_of_numberParts {c : Char} {body rest : List Char} {parts : NumberParts}
    (h : Parsed.Finds (numberParts (c :: body)) parts rest) : kindOf c = some .number := by
  have hc : c = '-' ∨ Digits.isDecimal c = true := by
    by_contra hc
    rw [not_or, Bool.not_eq_true] at hc
    rw [numberParts_eq_none hc.1 hc.2] at h
    exact Parsed.not_finds_none h
  unfold kindOf
  split
  case h_7 => exact if_pos hc
  all_goals exact absurd hc (by decide)

namespace Spells

variable {text rest : List Char} {doc : Document}

/-- The first character tells the kind. -/
theorem exists_sign (h : Spells text doc rest) :
    ∃ c body, skipSpaces text = c :: body ∧ kindOf c = some doc.kind := by
  cases h with
  | number hparts =>
    cases hsign : skipSpaces text with
    | nil =>
      rw [hsign] at hparts
      exact absurd hparts.choose (Nat.not_lt_zero _)
    | cons c body =>
      rw [hsign] at hparts
      exact ⟨c, body, rfl, kindOf_of_numberParts hparts⟩
  | string hcontent =>
    obtain ⟨hquote, -⟩ := hcontent
    exact ⟨_, _, hquote, rfl⟩
  | null hsign | true hsign | false hsign | array hsign | object hsign =>
    exact ⟨_, _, hsign, rfl⟩

theorem kindOf_eq (h : Spells text doc rest) {c : Char} {body : List Char}
    (hsign : skipSpaces text = c :: body) : kindOf c = some doc.kind := by
  obtain ⟨c', body', hsign', hkind⟩ := h.exists_sign
  obtain ⟨rfl, -⟩ := List.cons.inj (hsign.symm.trans hsign')
  exact hkind

theorem head?_ne_bracket (h : Spells text doc rest) : (skipSpaces text).head? ≠ some ']' := by
  obtain ⟨c, body, hsign, hkind⟩ := h.exists_sign
  rw [hsign]
  rintro hc
  obtain rfl := Option.some.inj hc
  cases hkind

theorem not_bracket (h : Spells text doc rest) (body : List Char) :
    skipSpaces text ≠ ']' :: body := by
  intro hclose
  cases h.kindOf_eq hclose

theorem unique_of_depth_lt {levels : Nat} {rest' : List Char} {doc' : Document}
    (hdepth : doc.depth < levels) (h : Spells text doc rest) (h' : Spells text doc' rest') :
    rest' = rest ∧ doc = doc' := by
  -- Parts stand inside lists, so the induction is on a bound of the depth, not on the grammar.
  induction levels generalizing text rest rest' doc doc' with
  | zero => exact absurd hdepth (Nat.not_lt_zero _)
  | succ levels ih =>
    have hkind : doc.kind = doc'.kind := by
      obtain ⟨c, body, hsign, hkind⟩ := h.exists_sign
      exact Option.some.inj (hkind.symm.trans (h'.kindOf_eq hsign))
    cases h with
    | null hsign hword =>
      cases h' with
      | null hsign' hword' =>
        obtain ⟨-, rfl⟩ := List.cons.inj (hsign.symm.trans hsign')
        exact ⟨(hword.unique hword').1, rfl⟩
      | _ => cases hkind
    | true hsign hword =>
      cases h' with
      | true hsign' hword' =>
        obtain ⟨-, rfl⟩ := List.cons.inj (hsign.symm.trans hsign')
        exact ⟨(hword.unique hword').1, rfl⟩
      | _ => cases hkind
    | false hsign hword =>
      cases h' with
      | false hsign' hword' =>
        obtain ⟨-, rfl⟩ := List.cons.inj (hsign.symm.trans hsign')
        exact ⟨(hword.unique hword').1, rfl⟩
      | _ => cases hkind
    | number hparts =>
      cases h' with
      | number hparts' =>
        obtain ⟨hrest, rfl⟩ := hparts.unique hparts'
        exact ⟨hrest, rfl⟩
      | _ => cases hkind
    | string hcontent =>
      cases h' with
      | string hcontent' =>
        obtain ⟨hrest, rfl⟩ := hcontent.unique hcontent'
        exact ⟨hrest, rfl⟩
      | _ => cases hkind
    | array hsign hitems =>
      cases h' with
      | array hsign' hitems' =>
        obtain ⟨-, rfl⟩ := List.cons.inj (hsign.symm.trans hsign')
        obtain ⟨hrest, rfl⟩ := hitems.unique hitems' (by decide)
          (fun _ _ _ rest hfirst => hfirst.not_bracket rest)
          (fun item hmem _ _ _ _ hitem hitem' => ih (Nat.lt_of_lt_of_le
            (Document.depth_lt_of_mem_items hmem) (Nat.le_of_lt_succ hdepth)) hitem hitem')
        exact ⟨hrest, rfl⟩
      | _ => cases hkind
    | object hsign hmembers =>
      cases h' with
      | object hsign' hmembers' =>
        obtain ⟨-, rfl⟩ := List.cons.inj (hsign.symm.trans hsign')
        obtain ⟨hrest, rfl⟩ := hmembers.unique hmembers' (by decide)
          (fun _ _ _ rest hfirst => hfirst.not_brace rest)
          (fun member hmem _ _ _ _ hmember hmember' => hmember.unique hmember'
            fun _ _ _ _ hvalue hvalue' => ih (Nat.lt_of_lt_of_le
              (Document.depth_lt_of_mem_members hmem) (Nat.le_of_lt_succ hdepth)) hvalue hvalue')
        exact ⟨hrest, rfl⟩
      | _ => cases hkind

/-- A text spells one document at most, and that one ends at one place. -/
theorem unique {rest' : List Char} {doc' : Document} (h : Spells text doc rest)
    (h' : Spells text doc' rest') : rest' = rest ∧ doc = doc' :=
  h.unique_of_depth_lt (Nat.lt_succ_self _) h'

end Spells

theorem Document.OfText.unique {doc doc' : Document} {text : String} (h : doc.OfText text)
    (h' : doc'.OfText text) : doc = doc' := by
  obtain ⟨rest, hspells, -⟩ := h
  obtain ⟨rest', hspells', -⟩ := h'
  exact (hspells.unique hspells').2

end Abac.Json
