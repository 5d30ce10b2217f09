/-
# Names in paths

What a path says is where it starts, at the root, at a dot or at neither, and
which names lead on from there; empty components and dots say nothing
(`Path.names`).  The file name is the last of the names, unless that leads back
(`fileName?_eq`).  A name that is joined to a directory comes after the names of
the directory, and the path starts where the directory does (`isChild_join`), so
the name is the file name of the path (`IsChild.fileName?_eq`).
-/

import ScopeTrack.File.Path
import ScopeTrack.Proofs.Text.SingleLine
import Mathlib.Data.List.TakeWhile

namespace ScopeTrack
namespace Path

/-- The names in a path, those that lead back among them. -/
def names (path : String) : List (List Char) :=
  (path.toList.splitOn '/').filter fun component => !isVoid component

/-- A text that can be the name of an entry of a directory. -/
structure IsName (name : List Char) : Prop where
  slash : '/' ∉ name
  meant : isVoid name = false
  forward : name ≠ ['.', '.']

/-- The path is that of a direct child of the directory: it starts where the
directory does, and has one more name. -/
structure IsChild (directory path : String) (name : List Char) : Prop where
  isName : IsName name
  start : (anchor path.toList).1 = (anchor directory.toList).1
  names : names path = Path.names directory ++ [name]

/-! ## The file name -/

/-- The start of a path holds no name. -/
theorem names_eq (path : String) :
    names path =
      ((anchor path.toList).2.splitOn '/').filter fun component => !isVoid component := by
  have hslash (rest : List Char) : ('/' :: rest).splitOn '/' = [] :: rest.splitOn '/' :=
    List.splitOn_append_cons_self [] rest
  have hdot (rest : List Char) : ('.' :: '/' :: rest).splitOn '/' = ['.'] :: rest.splitOn '/' :=
    List.splitOn_append_cons_self ['.'] rest
  unfold names anchor
  split
  · next rest h => rw [h, hslash]; rfl
  · next h => rw [h]; rfl
  · next rest h => rw [h, hdot, hslash]; rfl
  · rfl

/-- The last component that means something is the last name. -/
theorem head?_reversedComponents (path : String) :
    (reversedComponents (anchor path.toList).2).head? = (names path).getLast? := by
  rw [names_eq, List.getLast?_filter, List.find?_eq_head?_dropWhile_not]
  simp only [Bool.not_not]
  rfl

/-- **The file name is the last name**, unless that leads back. -/
theorem fileName?_eq (path : String) :
    fileName? path = (names path).getLast?.filter fun name => name ≠ ['.', '.'] := by
  rw [← head?_reversedComponents]
  unfold fileName?
  cases reversedComponents (anchor path.toList).2 with
  | nil => rfl
  | cons last outer => by_cases h : last = ['.', '.'] <;> simp [h, Option.filter]

/-- The file name is the last name of a path, which does not lead back. -/
theorem getLast?_of_fileName? {path : String} {name : List Char}
    (h : fileName? path = some name) :
    (names path).getLast? = some name ∧ name ≠ ['.', '.'] := by
  rw [fileName?_eq, Option.filter_eq_some_iff] at h
  exact ⟨h.1, by simpa using h.2⟩

/-- A file name can be the name of an entry. -/
theorem isName_of_fileName? {path : String} {name : List Char}
    (h : fileName? path = some name) : IsName name := by
  obtain ⟨hlast, hforward⟩ := getLast?_of_fileName? h
  obtain ⟨hmem, hmeant⟩ := List.mem_filter.1 (List.mem_of_getLast? hlast)
  exact ⟨Text.not_mem_of_mem_splitOn '/' _ name hmem, by simpa using hmeant, hforward⟩

/-- The name of a child is its file name. -/
theorem IsChild.fileName?_eq {directory path : String} {name : List Char}
    (h : IsChild directory path name) : fileName? path = some name := by
  rw [Path.fileName?_eq, h.names, List.getLast?_concat]
  exact Option.filter_eq_some_iff.2 ⟨rfl, by simpa using h.isName.forward⟩

/-! ## Joining a name to a directory -/

theorem names_of_isName {name : String} (h : IsName name.toList) :
    names name = [name.toList] := by
  rw [names, List.splitOn_eq_singleton h.slash]
  simp [h.meant]

theorem names_slash (directory : String) : names (directory ++ "/") = names directory := by
  have hempty : (directory ++ "/").toList = directory.toList ++ '/' :: [] := String.toList_append
  rw [names, hempty, List.splitOn_append_cons_self, List.filter_append]
  exact List.append_nil _

/-- A name behind a slash comes last. -/
theorem names_append {directory name : String} (h : IsName name.toList) :
    names (directory ++ "/" ++ name) = names directory ++ [name.toList] := by
  have hslash : (directory ++ "/" ++ name).toList = directory.toList ++ '/' :: name.toList := by
    simp
  rw [names, hslash, List.splitOn_append_cons_self, List.filter_append, ← names_of_isName h]
  rfl

/-- A directory that is written with a slash at its end. -/
theorem exists_of_getLast? {directory : String} (h : directory.toList.getLast? = some '/') :
    ∃ outer, directory = outer ++ "/" := by
  obtain ⟨outer, houter⟩ := List.getLast?_eq_some_iff.1 h
  refine ⟨String.ofList outer, ?_⟩
  rw [← String.toList_inj, houter]
  simp

/-- **A joined name comes last.**  -/
theorem names_join (directory : String) {name : String} (h : IsName name.toList) :
    names (join directory name) = names directory ++ [name.toList] := by
  unfold join
  split
  · next hempty =>
    obtain rfl : directory = "" := by
      rw [← String.toList_inj]
      exact List.getLast?_eq_none_iff.1 hempty
    rw [names_of_isName h]
    rfl
  · next hslash =>
    obtain ⟨outer, rfl⟩ := exists_of_getLast? hslash
    rw [names_append h, names_slash]
  · exact names_append h

/-- Names start nowhere in particular. -/
theorem anchor_of_isName {name : List Char} (h : IsName name) : (anchor name).1 = [] := by
  unfold anchor
  split
  · exact absurd List.mem_cons_self h.slash
  · exact absurd h.meant (by decide)
  · exact absurd (List.mem_cons_of_mem _ List.mem_cons_self) h.slash
  · rfl

/-- Where a path starts is not changed by what is put behind it, a dot apart. -/
theorem anchor_append {path rest : List Char} (hpath : path ≠ []) (hdot : path ≠ ['.']) :
    (anchor (path ++ rest)).1 = (anchor path).1 := by
  -- Whether a path is absolute, or starts with a dot, is seen from two characters.
  match path, hpath, hdot with
  | [c], _, hdot =>
    by_cases hslash : c = '/'
    · subst hslash
      rfl
    · have hc : c ≠ '.' := fun h => hdot (by rw [h])
      simp [anchor, hslash, hc]
  | c :: c' :: cs, _, _ =>
    by_cases hslash : c = '/'
    · subst hslash
      rfl
    · by_cases hc : c = '.'
      · subst hc
        by_cases hc' : c' = '/'
        · subst hc'
          rfl
        · simp [anchor, hc']
      · simp [anchor, hslash, hc]

/-- Joining a name leaves the path absolute or relative as it was. -/
theorem anchor_join (directory : String) {name : String} (h : IsName name.toList) :
    (anchor (join directory name).toList).1 = (anchor directory.toList).1 := by
  by_cases hempty : directory.toList = []
  · rw [join, hempty]
    exact anchor_of_isName h
  · by_cases hdot : directory.toList = ['.']
    · rw [join, hdot]
      simp [hdot, anchor]
    · obtain ⟨lead, hlead⟩ : ∃ lead, (join directory name).toList = directory.toList ++ lead := by
        unfold join
        split <;> simp_all
      rw [hlead, anchor_append hempty hdot]

/-- **A joined name is that of a child of the directory.**  -/
theorem isChild_join (directory : String) {name : String} (h : IsName name.toList) :
    IsChild directory (join directory name) name.toList :=
  ⟨h, anchor_join directory h, names_join directory h⟩

end Path
end ScopeTrack
