import Abac.Files
import Mathlib.Data.List.Sort

/-!
File names and the names in a directory. A name has the bytes of one text at most
(`FileName.text?_eq_some_iff`). A name that ends in an extension is its stem, a dot and the
extension (`FileName.splitExtension_eq_iff`), and the names in a directory are listed in increasing
order, each of them once (`Files.list?_eq_some_iff`).
-/
namespace Abac

namespace FileName

variable {name : FileName}

/-! ## Names and texts -/

theorem toByteArray_ofText (text : String) : (ofText text).toByteArray = text.toByteArray := by
  apply ByteArray.ext
  rw [List.data_toByteArray, ofText, Array.toArray_toList]
  rfl

/-- A name is a text just when it has its bytes. -/
theorem text?_eq_some_iff {text : String} : name.text? = some text ↔ name = ofText text := by
  unfold text? String.fromUTF8?
  constructor
  · intro h
    split at h
    · obtain rfl := Option.some.inj h
      rw [ofText, String.toUTF8_eq_toByteArray]
      exact List.data_toByteArray ▸ rfl
    · cases h
  · rintro rfl
    rw [toByteArray_ofText, dif_pos text.isValidUTF8]
    rfl

theorem text?_ofText (text : String) : (ofText text).text? = some text := text?_eq_some_iff.mpr rfl

/-! ## Extensions -/

/-- The bytes behind the last dot of a name, and those in front of it. -/
theorem takeWhile_reverse_append (before : FileName) {after : FileName} (hafter : dot ∉ after) :
    (before ++ dot :: after).reverse.takeWhile (· ≠ dot) = after.reverse ∧
      (before ++ dot :: after).reverse.dropWhile (· ≠ dot) = dot :: before.reverse := by
  have hrun : ∀ byte ∈ after.reverse, decide (byte ≠ dot) = true := by
    intro byte hbyte
    refine decide_eq_true ?_
    rintro rfl
    exact hafter (List.mem_reverse.mp hbyte)
  have hreverse : (before ++ dot :: after).reverse = after.reverse ++ dot :: before.reverse := by
    simp
  rw [hreverse, List.takeWhile_append_of_pos hrun, List.dropWhile_append_of_pos hrun]
  simp

/-- A name has an extension if it has a dot, other than in front, and is not the name for the
directory above. -/
theorem splitExtension_eq_iff {stem extension : FileName} :
    name.splitExtension = (stem, some extension) ↔
      name = stem ++ dot :: extension ∧ stem ≠ [] ∧ dot ∉ extension ∧ name ≠ [dot, dot] := by
  rw [splitExtension]
  have hreverse := List.takeWhile_append_dropWhile (p := fun c => decide (c ≠ dot))
    (l := name.reverse)
  have hrun := List.all_takeWhile (p := fun c => decide (c ≠ dot)) (l := name.reverse)
  have hhead := List.head?_dropWhile_not (fun c => decide (c ≠ dot)) name.reverse
  constructor
  · generalize name.reverse.takeWhile (· ≠ dot) = after at hreverse hrun ⊢
    intro h
    split at h
    · cases h
    · next c before hdrop =>
      split at h
      · cases h
      · next hsplit =>
        obtain ⟨hbefore, hname⟩ := not_or.mp hsplit
        obtain ⟨rfl, hextension⟩ := Prod.mk.inj h
        obtain rfl := Option.some.inj hextension
        rw [hdrop] at hreverse hhead
        have hdot : c = dot := by simpa using hhead
        have hbytes : name = before.reverse ++ dot :: after.reverse := by
          rw [← List.reverse_reverse name, ← hreverse, hdot]
          simp
        refine ⟨hbytes, fun hempty => hbefore (List.reverse_eq_nil_iff.mp hempty), ?_, hname⟩
        rw [List.mem_reverse]
        intro hmem
        simpa using List.all_eq_true.mp hrun _ hmem
  · rintro ⟨hsplit, hstem, hextension, hname⟩
    obtain ⟨htake, hdrop⟩ := takeWhile_reverse_append stem hextension
    rw [← hsplit] at htake hdrop
    have hnonempty : stem.reverse ≠ [] := fun h => hstem (List.reverse_eq_nil_iff.mp h)
    simp only [htake, hdrop]
    rw [if_neg (not_or.mpr ⟨hnonempty, hname⟩), List.reverse_reverse, List.reverse_reverse]

example : splitExtension (ofText "a.b.json") = (ofText "a.b", some (ofText "json")) := by decide

/-! ## Names in order -/

theorem mem_insertInto {other : FileName} {names : List FileName} :
    other ∈ name.insertInto names ↔ other = name ∨ other ∈ names := by
  induction names with
  | nil => simp [insertInto]
  | cons first rest ih =>
    rw [insertInto]
    split
    · rw [List.mem_cons]
    · split
      · next heq => rw [List.mem_cons, heq, ← or_assoc, or_self]
      · rw [List.mem_cons, ih, List.mem_cons, or_left_comm]

/-- A name that is added to names in increasing order keeps them so. -/
theorem pairwise_insertInto {names : List FileName} (h : names.Pairwise (· < ·)) :
    (name.insertInto names).Pairwise (· < ·) := by
  induction names with
  | nil => exact List.pairwise_singleton _ _
  | cons first rest ih =>
    obtain ⟨hfirst, hrest⟩ := List.pairwise_cons.mp h
    rw [insertInto]
    split
    · next hlt =>
      refine List.pairwise_cons.mpr ⟨fun other hother => ?_, h⟩
      rcases List.mem_cons.mp hother with rfl | hother
      · exact hlt
      · exact List.lt_trans hlt (hfirst other hother)
    · next hlt =>
      split
      · exact h
      · next hne =>
        have hbehind : first < name :=
          ((Std.lt_trichotomy name first).resolve_left hlt).resolve_left hne
        refine List.pairwise_cons.mpr ⟨fun other hother => ?_, ih hrest⟩
        rcases mem_insertInto.mp hother with rfl | hother
        · exact hbehind
        · exact hfirst other hother

theorem mem_foldr_insertInto {other : FileName} {names : List FileName} :
    other ∈ names.foldr insertInto [] ↔ other ∈ names := by
  induction names with
  | nil => rfl
  | cons first rest ih => rw [List.foldr_cons, mem_insertInto, ih, List.mem_cons]

theorem pairwise_foldr_insertInto (names : List FileName) :
    (names.foldr insertInto []).Pairwise (· < ·) := by
  induction names with
  | nil => exact .nil
  | cons first rest ih => exact pairwise_insertInto ih

end FileName

namespace Path

theorem name?_append_down (path : Path) (name : FileName) :
    Path.name? (path ++ [.down name]) = some name := by
  rw [name?, List.reverse_append]
  rfl

theorem stem?_append_down (path : Path) (name : FileName) :
    Path.stem? (path ++ [.down name]) = some name.splitExtension.1 := by
  rw [stem?, name?_append_down, Option.map_some]

end Path

namespace Files

theorem nameIn?_eq_some_iff {directory place : Place} {name : FileName} :
    nameIn? directory place = some name ↔ place = directory ++ [name] := by
  rw [nameIn?]
  constructor
  · intro h
    split at h
    · next hdirectory => rw [← hdirectory, List.dropLast_append_getLast? name h]
    · cases h
  · rintro rfl
    rw [if_pos List.dropLast_concat, List.getLast?_concat]

/-- The names of all that lies in a directory are listed in increasing order, each of them once. -/
theorem list?_eq_some_iff {files : Files} {directory : Path} {names : List FileName} :
    files.list? directory = some names ↔
      ∃ place, files.place? directory = some place ∧ files.entry? place = some .directory ∧
        names.Pairwise (· < ·) ∧
        ∀ name, name ∈ names ↔ ∃ entry, (place ++ [name], entry) ∈ files.entries := by
  have hmem (place : Place) (name : FileName) :
      name ∈ (files.entries.filterMap fun entry => nameIn? place entry.1).foldr
        FileName.insertInto [] ↔ ∃ entry, (place ++ [name], entry) ∈ files.entries := by
    simp only [FileName.mem_foldr_insertInto, List.mem_filterMap, nameIn?_eq_some_iff]
    constructor
    · rintro ⟨⟨inside, entry⟩, hentry, hinside⟩
      obtain rfl : inside = place ++ [name] := hinside
      exact ⟨entry, hentry⟩
    · rintro ⟨entry, hentry⟩
      exact ⟨_, hentry, rfl⟩
  rw [list?]
  cases hplace : files.place? directory with
  | none => simp
  | some place =>
    simp only [isDirectory, decide_eq_true_eq, Option.some.injEq, exists_eq_left']
    split
    · next hdirectory =>
      rw [Option.some_inj]
      constructor
      · rintro rfl
        exact ⟨hdirectory, FileName.pairwise_foldr_insertInto _, hmem place⟩
      · rintro ⟨-, hsorted, hnames⟩
        exact (FileName.pairwise_foldr_insertInto _).eq_of_mem_iff hsorted fun name =>
          (hmem place name).trans (hnames name).symm
    · next hdirectory => simp [hdirectory]

end Files

end Abac
