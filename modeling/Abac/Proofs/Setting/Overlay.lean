import Abac.Proofs.Dict
import Abac.Setting.Place

/-!
What is in force after settings were set over one another. A setting is at the end of a way of keys,
on which there are tables only (`Setting.Clear`). An entry of a source that keeps to this, and does
not reach into the setting, replaces it as a whole or leaves it as it is (`Setting.Suits.decides`).
So what a whole source holds at the end of the way, taken alone, goes before what was there
(`Setting.SourceSuits.sets`), and of several sources the last that holds something there decides
(`Setting.at?_foldl_layer`).
-/
namespace Abac.Setting

variable {key : String} {keys : List String} {current value : Setting} {steps : List Step}

def at? : List String → Setting → Option Setting
  | [], value => some value
  | key :: keys, value => (value.fields.get? key).bind (at? keys)

/-- A way of keys leads through tables only, as far as there is anything on it. -/
def Clear : List String → Setting → Prop
  | [], _ => True
  | key :: keys, value =>
    ∃ fields, value = .table fields ∧ ∀ inner, fields.get? key = some inner → Clear keys inner

theorem clear_cons_table {fields : Dict Setting} :
    Clear (key :: keys) (.table fields) ↔
      ∀ inner, fields.get? key = some inner → Clear keys inner := by
  constructor
  · rintro ⟨_, h, hclear⟩
    cases h
    exact hclear
  · exact fun h => ⟨fields, rfl, h⟩

instance decidableClear : (keys : List String) → (value : Setting) → Decidable (Clear keys value)
  | [], _ => .isTrue trivial
  | key :: keys, .table fields =>
    match hinner : fields.get? key with
    | none => .isTrue (clear_cons_table.mpr (hinner ▸ nofun))
    | some inner =>
      have := decidableClear keys inner
      decidable_of_iff (Clear keys inner) (by rw [clear_cons_table, hinner]; simp)
  | _ :: _, .absent | _ :: _, .flag _ | _ :: _, .integer _ | _ :: _, .decimal _ | _ :: _, .text _
  | _ :: _, .list _ => .isFalse nofun

theorem clear_empty : Clear keys (.table ∅) := by
  cases keys with
  | nil => trivial
  | cons key keys => exact clear_cons_table.mpr nofun

theorem at?_empty (h : keys ≠ []) : at? keys (.table ∅) = none := by
  cases keys with
  | nil => exact absurd rfl h
  | cons key keys => rfl

theorem at?_cons_table (key : String) (keys : List String) (fields : Dict Setting) :
    at? (key :: keys) (.table fields) = (fields.get? key).bind (at? keys) := rfl

/-! ## One value over another -/

def IsTable (value : Setting) : Prop := ∃ fields, value = .table fields

instance : (value : Setting) → Decidable value.IsTable
  | .table fields => .isTrue ⟨fields, rfl⟩
  | .absent | .flag _ | .integer _ | .decimal _ | .text _ | .list _ => .isFalse nofun

theorem Clear.isTable (h : Clear (key :: keys) value) : value.IsTable :=
  h.imp fun _ h => h.1

theorem overlay_table (current : Setting) (incoming : Dict Setting) :
    current.overlay (.table incoming) = .table (overlayFields current.fields incoming) := by
  rw [overlay]

theorem overlay_of_not_isTable (h : ¬value.IsTable) : current.overlay value = value := by
  cases value with
  | table incoming => exact absurd ⟨incoming, rfl⟩ h
  | _ => rw [overlay]; exact nofun

/-- Only a table makes a table. -/
theorem isTable_of_overlay (h : (current.overlay value).IsTable) : value.IsTable := by
  by_cases hvalue : value.IsTable
  · exact hvalue
  · rwa [overlay_of_not_isTable hvalue] at h

theorem get?_overlayFields {low : Option String} (current : Dict Setting)
    (incoming : Entries Setting low) (key : String) :
    (overlayFields current incoming).get? key =
      match incoming.get? key with
      | none => current.get? key
      | some value => some (((current.get? key).getD .absent).overlay value) := by
  induction incoming generalizing current with
  | nil => rw [overlayFields]; rfl
  | cons k above value rest ih =>
    rw [overlayFields, ih, Entries.get?]
    by_cases heq : key = k
    · subst heq
      rw [if_pos rfl, Entries.get?_eq_none_of_le (not_above_self key), Dict.get?_insert_self]
    · rw [if_neg heq, Dict.get?_insert_of_ne _ _ heq]

/-! ## A value at a place -/

/-- What a change makes of a table: the way stays clear, and what the change holds at its end, when
it is made of nothing, goes before what was there. -/
def Decides (keys : List String) (change : Setting → Setting) : Prop :=
  ∀ current, Clear keys current → Clear keys (change current) ∧
    at? keys (change current) = (at? keys (change .absent)).or (at? keys current)

section Tables

variable {result alone current : Dict Setting} {change : Setting → Setting}

/-- A change under the next key of the way decides if the change of what is there does. -/
theorem Decides.under (hresult : result.get? key = some (change ((current.get? key).getD .absent)))
    (halone : alone.get? key = some (change .absent)) (hclear : Clear keys (change .absent))
    (hchange : Decides keys change) (hcurrent : Clear (key :: keys) (.table current)) :
    Clear (key :: keys) (.table result) ∧
      at? (key :: keys) (.table result) =
        (at? (key :: keys) (.table alone)).or (at? (key :: keys) (.table current)) := by
  rw [clear_cons_table] at hcurrent
  simp only [clear_cons_table, at?_cons_table, hresult, halone, Option.bind_some,
    Option.some.injEq, forall_eq']
  cases hinner : current.get? key with
  | none => exact ⟨hclear, Option.or_none.symm⟩
  | some inner => exact hchange inner (hcurrent inner hinner)

/-- A change beside the way leaves what is at its end. -/
theorem at?_beside (hresult : result.get? key = current.get? key)
    (halone : alone.get? key = none) (hcurrent : Clear (key :: keys) (.table current)) :
    Clear (key :: keys) (.table result) ∧
      at? (key :: keys) (.table result) =
        (at? (key :: keys) (.table alone)).or (at? (key :: keys) (.table current)) := by
  rw [clear_cons_table] at hcurrent
  simp only [clear_cons_table, at?_cons_table, hresult, halone]
  exact ⟨hcurrent, rfl⟩

end Tables

/-- What is at the end of a way if nothing but a value at a place is there. -/
def placed (keys : List String) (steps : List Step) (value : Setting) : Option Setting :=
  at? keys (modifyAt (·.overlay value) steps .absent)

/-- A value for a place suits a way if it stands at the end of it as a whole, or beside it: with
nothing else there, only tables are on the way and none is at its end, and the place does not go on
behind the end. -/
structure Suits (keys : List String) (steps : List Step) (value : Setting) : Prop where
  clear : Clear keys (modifyAt (·.overlay value) steps .absent)
  leaf : ∀ found, placed keys steps value = some found → ¬found.IsTable
  notBehind : keys.map .key <+: steps → steps = keys.map .key

instance : Decidable (Suits keys steps value) :=
  decidable_of_iff (Clear keys (modifyAt (·.overlay value) steps .absent) ∧
      (∀ found ∈ placed keys steps value, ¬found.IsTable) ∧
      (keys.map .key <+: steps → steps = keys.map .key))
    ⟨fun ⟨hclear, hleaf, hbehind⟩ => ⟨hclear, hleaf, hbehind⟩,
      fun h => ⟨h.clear, h.leaf, h.notBehind⟩⟩

theorem modifyAt_key (change : Setting → Setting) (name : String) (steps : List Step)
    (fields : Dict Setting) :
    modifyAt change (.key name :: steps) (.table fields) =
      .table (fields.insert name (modifyAt change steps ((fields.get? name).getD .absent))) := by
  rw [modifyAt]
  rfl

theorem modifyAt_key_absent (change : Setting → Setting) (name : String) (steps : List Step) :
    modifyAt change (.key name :: steps) .absent =
      .table (Dict.insert ∅ name (modifyAt change steps .absent)) := by
  rw [modifyAt]
  rfl

/-- What a suitable value makes of nothing is suitable under the next key. -/
theorem Suits.under {steps' : List Step} {value' : Setting} {alone : Dict Setting}
    (h : Suits (key :: keys) steps value)
    (hplaced : modifyAt (·.overlay value) steps .absent = .table alone)
    (halone : alone.get? key = some (modifyAt (·.overlay value') steps' .absent))
    (hnotBehind : keys.map .key <+: steps' → steps' = keys.map .key) :
    Suits keys steps' value' := by
  have hclear := h.clear
  have hleaf := h.leaf
  rw [hplaced, clear_cons_table] at hclear
  rw [placed, hplaced, at?_cons_table, halone] at hleaf
  exact ⟨hclear _ halone, hleaf, hnotBehind⟩

/-- Setting a suitable value at a place decides what is at the end of the way. The induction is on
the way, along which the place goes step by step and then the value table by table. -/
theorem Suits.decides (h : Suits keys steps value) :
    Decides keys (modifyAt (·.overlay value) steps) := by
  induction keys generalizing steps value with
  | nil =>
    intro current _
    cases steps with
    | cons step rest => exact nomatch h.notBehind List.nil_prefix
    | nil =>
      have hvalue : ¬value.IsTable := by
        rintro ⟨incoming, rfl⟩
        exact h.leaf _ rfl ⟨_, by rw [modifyAt, overlay_table]⟩
      simp only [modifyAt, overlay_of_not_isTable hvalue]
      exact ⟨trivial, rfl⟩
  | cons key keys ih =>
    intro current hcurrent
    obtain ⟨fields, rfl⟩ := hcurrent.isTable
    cases steps with
    | nil =>
      have hplaced := h.clear.isTable
      rw [modifyAt] at hplaced
      obtain ⟨incoming, rfl⟩ := isTable_of_overlay hplaced
      have hresult := get?_overlayFields fields incoming key
      have halone := get?_overlayFields ∅ incoming key
      rw [modifyAt, modifyAt, overlay_table, overlay_table]
      cases hincoming : incoming.get? key with
      | none =>
        rw [hincoming] at hresult halone
        exact at?_beside hresult halone hcurrent
      | some inner =>
        have hset (v : Setting) : v.overlay inner = modifyAt (·.overlay inner) [] v := by
          rw [modifyAt]
        simp only [hincoming] at hresult halone
        rw [hset] at hresult halone
        have hinner : Suits keys [] inner :=
          h.under (by rw [modifyAt, overlay_table]; rfl) halone fun hprefix =>
            (List.prefix_nil.mp hprefix).symm
        exact (ih hinner).under hresult halone hinner.clear hcurrent
    | cons step steps =>
      cases step with
      | position n =>
        have hplaced := h.clear.isTable
        rw [modifyAt] at hplaced
        exact nomatch hplaced
      | key name =>
        rw [modifyAt_key, modifyAt_key_absent]
        by_cases hname : name = key
        · subst hname
          have hinner : Suits keys steps value :=
            h.under (modifyAt_key_absent _ _ _) (Dict.get?_insert_self _ _ _) fun hprefix =>
              (List.cons.inj (h.notBehind ((List.prefix_cons_inj _).mpr hprefix))).2
          exact (ih hinner).under (Dict.get?_insert_self _ _ _) (Dict.get?_insert_self _ _ _)
            hinner.clear hcurrent
        · exact at?_beside (Dict.get?_insert_of_ne _ _ (Ne.symm hname))
            (Dict.get?_insert_of_ne _ _ (Ne.symm hname)) hcurrent

theorem placed_under (key : String) :
    placed (key :: keys) (.key key :: steps) value = placed keys steps value := by
  rw [placed, modifyAt_key_absent, at?_cons_table, Dict.get?_insert_self]
  rfl

theorem Suits.behind (h : Suits keys steps value) (key : String) :
    Suits (key :: keys) (.key key :: steps) value where
  clear := by
    rw [modifyAt_key_absent, clear_cons_table, Dict.get?_insert_self]
    rintro _ ⟨⟩
    exact h.clear
  leaf found hfound := h.leaf found ((placed_under key).symm.trans hfound)
  notBehind hprefix :=
    congrArg (Step.key key :: ·) (h.notBehind ((List.prefix_cons_inj _).mp hprefix))

theorem placed_beside {name : String} (hne : name ≠ key) :
    placed (key :: keys) (.key name :: steps) value = none := by
  rw [placed, modifyAt_key_absent, at?_cons_table, Dict.get?_insert_of_ne _ _ hne.symm]
  rfl

theorem suits_beside {name : String} (hne : name ≠ key) :
    Suits (key :: keys) (.key name :: steps) value where
  clear := by
    rw [modifyAt_key_absent, clear_cons_table, Dict.get?_insert_of_ne _ _ hne.symm]
    exact nofun
  leaf found hfound := nomatch (placed_beside hne).symm.trans hfound
  notBehind hprefix := absurd (Step.key.inj (List.cons_prefix_cons.mp hprefix).1).symm hne

/-- A value that is no table, placed by keys only, suits every way that neither leads over it nor
ends before it, and it stands at the end of its own way and of no other. -/
theorem suits_names {names : List String} (hvalue : ¬value.IsTable)
    (hover : names <+: keys → names = keys) (hbefore : keys <+: names → names = keys) :
    Suits keys (names.map .key) value ∧
      placed keys (names.map .key) value = if names = keys then some value else none := by
  induction keys generalizing names with
  | nil =>
    obtain rfl := hbefore List.nil_prefix
    have hplaced : modifyAt (·.overlay value) [] .absent = value := by
      rw [modifyAt, overlay_of_not_isTable hvalue]
    refine ⟨⟨trivial, fun found hfound => ?_, fun _ => rfl⟩, congrArg some hplaced⟩
    rw [List.map_nil, placed, hplaced] at hfound
    exact Option.some.inj hfound ▸ hvalue
  | cons key keys ih =>
    cases names with
    | nil => exact nomatch hover List.nil_prefix
    | cons name names =>
      by_cases hname : name = key
      · subst hname
        obtain ⟨hinner, hplaced⟩ := ih
          (fun h => (List.cons.inj (hover ((List.prefix_cons_inj name).mpr h))).2)
          (fun h => (List.cons.inj (hbefore ((List.prefix_cons_inj name).mpr h))).2)
        rw [List.map_cons, placed_under, hplaced]
        simpa using hinner.behind name
      · rw [List.map_cons, placed_beside hname, if_neg fun h => hname (List.cons.inj h).1]
        exact ⟨suits_beside hname, rfl⟩

/-! ## Sources -/

def Place.way (place : Place) : List Step := .key place.root :: place.steps

def SourceSuits (keys : List String) (entries : List (String × Setting)) : Prop :=
  ∀ entry ∈ entries, Suits keys (Place.ofKey entry.1).way entry.2

instance (keys : List String) (entries : List (String × Setting)) :
    Decidable (SourceSuits keys entries) :=
  inferInstanceAs (Decidable (∀ entry ∈ entries, Suits keys (Place.ofKey entry.1).way entry.2))

/-- What a source holds at the end of a way when it is the only one. -/
def supply (keys : List String) (entries : List (String × Setting)) : Option Setting :=
  at? keys (.table (layer ∅ entries))

/-- A change of all settings leaves a way clear, and what it sets at the end of it goes before what
was there. -/
def Sets (keys : List String) (change : Dict Setting → Dict Setting) (found : Option Setting) :
    Prop :=
  ∀ root, Clear keys (.table root) → Clear keys (.table (change root)) ∧
    at? keys (.table (change root)) = found.or (at? keys (.table root))

section Sources

variable {entries : List (String × Setting)} {place : Place}

theorem Suits.sets (h : Suits keys place.way value) :
    Sets keys (assign · place value) (placed keys place.way value) := by
  intro root hroot
  have hassign : .table (assign root place value) =
      modifyAt (·.overlay value) place.way (.table root) := by
    rw [Place.way, modifyAt_key, assign]
  rw [hassign]
  exact h.decides _ hroot

/-- Of changes one after the other, the last that sets something decides. -/
theorem sets_foldl {α : Type} {change : Dict Setting → α → Dict Setting}
    {found : α → Option Setting} {items : List α}
    (h : ∀ item ∈ items, Sets keys (change · item) (found item)) :
    Sets keys (items.foldl change ·) (items.reverse.findSome? found) := by
  induction items with
  | nil => exact fun root hroot => ⟨hroot, rfl⟩
  | cons item items ih =>
    intro root hroot
    rw [List.forall_mem_cons] at h
    obtain ⟨hclear, hitem⟩ := h.1 root hroot
    obtain ⟨hclear, hitems⟩ := ih h.2 _ hclear
    refine ⟨hclear, hitems.trans ?_⟩
    rw [hitem, List.reverse_cons, List.findSome?_append, List.findSome?_singleton, Option.or_assoc]

theorem SourceSuits.sets_entries (h : SourceSuits keys entries) :
    Sets keys (layer · entries) (entries.reverse.findSome? fun entry =>
      placed keys (Place.ofKey entry.1).way entry.2) :=
  sets_foldl fun entry hentry => (h entry hentry).sets

/-- A source supplies what the last of its entries says that says something. -/
theorem SourceSuits.supply_eq (hkeys : keys ≠ []) (h : SourceSuits keys entries) :
    supply keys entries = entries.reverse.findSome? fun entry =>
      placed keys (Place.ofKey entry.1).way entry.2 := by
  rw [supply, (h.sets_entries ∅ clear_empty).2, at?_empty hkeys, Option.or_none]

/-- A source sets what it supplies. -/
theorem SourceSuits.sets (hkeys : keys ≠ []) (h : SourceSuits keys entries) :
    Sets keys (layer · entries) (supply keys entries) := by
  rw [h.supply_eq hkeys]
  exact h.sets_entries

/-- Of several sources, the last that supplies something decides. -/
theorem at?_foldl_layer {sources : List (List (String × Setting))} (hkeys : keys ≠ [])
    (h : ∀ source ∈ sources, SourceSuits keys source) :
    Clear keys (.table (sources.foldl layer ∅)) ∧
      at? keys (.table (sources.foldl layer ∅)) = sources.reverse.findSome? (supply keys) := by
  obtain ⟨hclear, hat⟩ := sets_foldl (fun source hsource => (h source hsource).sets hkeys) ∅
    clear_empty
  rw [at?_empty hkeys, Option.or_none] at hat
  exact ⟨hclear, hat⟩

end Sources

end Abac.Setting
