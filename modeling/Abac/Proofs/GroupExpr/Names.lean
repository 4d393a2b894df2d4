import Abac.Proofs.GroupExpr.Grammar
import Mathlib.Data.List.Basic

/-!
The names in a group expression. The names of a tree are the words at its leaves, each once, in the
order of their first occurrences (`GroupExpr.firstOccurrences_names`), so what comes first among the
words comes first among the names (`GroupExpr.find?_names`). If the tree is that of a text, these
words are the tokens of the text that are neither connectives nor parentheses
(`GroupExpr.occurrences_of_derives`).
-/
namespace Abac.GroupExpr

/-- A list of names has every word of a row of words, and nothing else, in the order in which the
words occur for the first time. -/
structure FirstOccurrences (words names : List String) : Prop where
  mem_iff : ∀ name, name ∈ names ↔ name ∈ words
  ordered : names.Pairwise fun a b => words.idxOf a < words.idxOf b

namespace FirstOccurrences

variable {words names : List String}

theorem nil : FirstOccurrences [] [] := ⟨fun _ => Iff.rfl, .nil⟩

theorem nodup (h : FirstOccurrences words names) : names.Nodup := by
  refine h.ordered.imp ?_
  rintro a _ hlt rfl
  exact Nat.lt_irrefl _ hlt

/-- One more word is added if it is new. -/
theorem concat (h : FirstOccurrences words names) (word : String) :
    FirstOccurrences (words ++ [word])
      (if names.contains word then names else names ++ [word]) := by
  have hindex : ∀ name ∈ names, (words ++ [word]).idxOf name = words.idxOf name :=
    fun name hname => List.idxOf_append_of_mem ((h.mem_iff name).mp hname)
  have hordered : names.Pairwise fun a b =>
      (words ++ [word]).idxOf a < (words ++ [word]).idxOf b := by
    refine h.ordered.imp_of_mem fun ha hb hlt => ?_
    rwa [hindex _ ha, hindex _ hb]
  by_cases hword : word ∈ names
  · rw [if_pos (List.contains_iff_mem.mpr hword)]
    refine ⟨fun name => ?_, hordered⟩
    rw [List.mem_append, List.mem_singleton, h.mem_iff]
    exact (or_iff_left_of_imp fun hname => hname ▸ (h.mem_iff word).mp hword).symm
  · rw [if_neg (mt List.contains_iff_mem.mp hword)]
    refine ⟨fun name => ?_, List.pairwise_append.mpr ⟨hordered, List.pairwise_singleton _ _, ?_⟩⟩
    · rw [List.mem_append, List.mem_append, h.mem_iff]
    · intro name hname other hother
      obtain rfl := List.mem_singleton.mp hother
      -- The word stands behind all words before it.
      have hnew : other ∉ words := mt (h.mem_iff other).mpr hword
      have hlt : words.idxOf name < words.length :=
        List.idxOf_lt_length_iff.mpr ((h.mem_iff name).mp hname)
      rw [hindex name hname, List.idxOf_append_of_notMem hnew]
      omega

theorem addNew (h : FirstOccurrences words names) (rest : List String) :
    FirstOccurrences (words ++ rest) (GroupExpr.addNew names rest) := by
  induction rest generalizing words names with
  | nil => rwa [List.append_nil]
  | cons word rest ih =>
    have hrest := ih (h.concat word)
    rwa [List.append_assoc, List.singleton_append] at hrest

end FirstOccurrences

theorem firstOccurrences_names (e : GroupExpr) : FirstOccurrences e.occurrences e.names :=
  FirstOccurrences.nil.addNew e.occurrences

theorem mem_names_iff {e : GroupExpr} {name : String} : name ∈ e.names ↔ name ∈ e.occurrences :=
  e.firstOccurrences_names.mem_iff name

theorem find?_addNew (p : String → Bool) (seen rest : List String) :
    (addNew seen rest).find? p = (seen.find? p).or (rest.find? p) := by
  induction rest generalizing seen with
  | nil => exact Option.or_none.symm
  | cons word rest ih =>
    rw [addNew, ih]
    by_cases hword : word ∈ seen
    · rw [if_pos (List.contains_iff_mem.mpr hword), List.find?_cons]
      cases hp : p word with
      | false => rfl
      | true =>
        obtain ⟨found, hfound⟩ := Option.isSome_iff_exists.mp
          (List.find?_isSome.mpr ⟨word, hword, hp⟩)
        rw [hfound, Option.some_or, Option.some_or]
    · rw [if_neg (mt List.contains_iff_mem.mp hword), List.find?_append, Option.or_assoc,
        ← List.find?_append, List.singleton_append]

/-- The first name with a property is the first word with it. -/
theorem find?_names (e : GroupExpr) (p : String → Bool) :
    e.names.find? p = e.occurrences.find? p :=
  find?_addNew p [] e.occurrences

def TokenKind.name? : TokenKind → Option String
  | .name word => some word
  | _ => none

/-- The words at the leaves of a tree are those among its tokens, in the same order. -/
theorem occurrences_of_derives {phrase : Phrase} {depth : Nat} {kinds : List TokenKind}
    {e : GroupExpr} (h : Derives phrase depth kinds e) :
    e.occurrences = kinds.filterMap TokenKind.name? := by
  induction h with
  | alone _ ih => exact ih
  | or _ _ ihl ihr =>
    rw [occurrences, ihl, ihr, List.filterMap_append, List.filterMap_cons_none rfl]
  | single _ ih => exact ih
  | and _ _ ihl ihr =>
    rw [occurrences, ihl, ihr, List.filterMap_append, List.filterMap_cons_none rfl]
  | name _ => rfl
  | not _ _ ih => rw [occurrences, ih, List.filterMap_cons_none rfl]
  | parentheses _ _ ih =>
    rw [ih, List.filterMap_cons_none rfl, List.filterMap_append, List.filterMap_cons_none rfl,
      List.filterMap_nil, List.append_nil]

end Abac.GroupExpr
