import Abac.Proofs.Files
import Abac.Setting.Source

/-!
What is relied on of a library that finds and reads files of settings (`Setting.Library.Lawful`). It
is little: which further formats it knows, which of several files it prefers and in which order it
goes through the entries of a source are left open. A library that tries its formats in turn is
lawful in any order of the formats, if the one for the extension of TOML is TOML
(`Setting.Library.lawful_ofFormats`).
-/
namespace Abac

theorem Files.isFile_of_read? {files : Files} {path : Path} {content : String}
    (h : files.read? path = some content) : files.isFile path = true := by
  unfold read? at h
  unfold isFile
  split at h
  · rfl
  · cases h

namespace Setting.Library

/-- A library is lawful if it reads a file that is there under a path with the extension of TOML as
one in TOML, if a path has no settings where there is no file, with a further extension or without
one, and if all entries of a source are set. -/
structure Lawful (library : Library) : Prop where
  file {files : Files} {path content : String}
    (hextension : (Path.ofText path).extension? = some (.ofText "toml"))
    (hread : files.read? (.ofText path) = some content) :
    library.source? files path = library.toml? content
  missing {files : Files} {path : String} (hfile : files.isFile (.ofText path) = false)
    (hfurther : ∀ extension ∈ library.extensions,
      files.isFile (.ofText (path ++ "." ++ extension)) = false) :
    library.source? files path = some ∅
  order (source : Dict Setting) : (library.order source).Perm source.toList

theorem lawful_ofFormats {formats : List Format}
    (h : (formats.find? fun format => "toml" ∈ format.extensions) = some .toml) :
    (ofFormats formats).Lawful where
  file {files path content} hextension hread := by
    have hfind : find? formats files path = some (.toml, .ofText path) := by
      rw [find?, if_pos (Files.isFile_of_read? hread), hextension, Option.bind_some,
        FileName.text?_ofText, Option.bind_some, h]
      rfl
    simp only [ofFormats, hfind, hread]
  missing {files path} hfile hfurther := by
    have hfind : find? formats files path = none := by
      rw [find?, if_neg (Bool.eq_false_iff.mp hfile), List.find?_eq_none]
      intro found hfound
      obtain ⟨format, hformat, hfound⟩ := List.mem_flatMap.mp hfound
      obtain ⟨extension, hextension, rfl⟩ := List.mem_map.mp hfound
      exact Bool.eq_false_iff.mp
        (hfurther extension (List.mem_flatMap.mpr ⟨format, hformat, hextension⟩))
    simp only [ofFormats, hfind]
  order _ := .refl _

theorem lawful_standard : standard.Lawful := lawful_ofFormats rfl

/-- The settings that a name gives: those in its TOML file, if it is there; none, if there is no
file, with a further extension or without one; and else those that the library finds. -/
inductive Gives (library : Library) (files : Files) (name : String) : Dict Setting → Prop
  | written {content : String} {settings : Dict Setting}
      (hextension : (Path.ofText (name ++ ".toml")).extension? = some (.ofText "toml"))
      (hread : files.read? (.ofText (name ++ ".toml")) = some content)
      (hcontent : library.toml? content = some settings) : Gives library files name settings
  | missing (hfile : files.isFile (.ofText (name ++ ".toml")) = false)
      (hfurther : ∀ extension ∈ library.extensions,
        files.isFile (.ofText (name ++ ".toml" ++ "." ++ extension)) = false) :
      Gives library files name ∅
  | found {settings : Dict Setting}
      (hsource : library.source? files (name ++ ".toml") = some settings) :
      Gives library files name settings

theorem Lawful.source?_of_gives {library : Library} (h : library.Lawful) {files : Files}
    {name : String} {settings : Dict Setting} (hgives : library.Gives files name settings) :
    library.source? files (name ++ ".toml") = some settings := by
  cases hgives with
  | written hextension hread hcontent => rw [h.file hextension hread, hcontent]
  | missing hfile hfurther => exact h.missing hfile hfurther
  | found hsource => exact hsource

end Setting.Library

end Abac
