/-
# From the name of an input to the names of its artifacts

An input `updated_K.E` has the key `K`: the extension goes from the last dot on,
and the mark is taken off once, so that `K` may hold dots and marks of its own
(`fileKey_join`).  A key is a piece of a file name, so it holds no slash
(`slash_not_mem_fileKey`), and the artifacts are entries of the very directory
that they are joined to.

No artifact has the file name of its input.  The stem of an artifact's name is the
key of the input with something in front, and it does not begin with the mark;
an input of that name would have a key that is longer than itself.
-/

import ScopeTrack.Proofs.File.Artifact
import ScopeTrack.Proofs.File.Path

namespace ScopeTrack

/-! ## Stems and keys -/

/-- The stem of a name ends before the last dot. -/
theorem Path.stem_append {base extension : List Char} (hbase : base ≠ [])
    (hdot : '.' ∉ extension) : stem (base ++ '.' :: extension) = base := by
  have hreverse : (base ++ '.' :: extension).reverse =
      extension.reverse ++ '.' :: base.reverse := by simp
  have hdrop : (base ++ '.' :: extension).reverse.dropWhile (· != '.') = '.' :: base.reverse := by
    rw [hreverse, List.dropWhile_append_of_pos]
    · rfl
    · intro c hc
      have hne : c ≠ '.' := by
        rintro rfl
        exact hdot (List.mem_reverse.1 hc)
      simpa using hne
  unfold stem
  rw [hdrop]
  cases hb : base.reverse with
  | nil => exact absurd (List.reverse_eq_nil_iff.1 hb) hbase
  | cons c cs =>
    rw [← List.reverse_reverse base, hb]
    rfl

/-- The stem has no characters that the name does not have. -/
theorem Path.stem_subset (name : List Char) : stem name ⊆ name := by
  have hsuffix := List.dropWhile_suffix (l := name.reverse) (· != '.')
  unfold stem
  split
  · exact List.Subset.refl _
  · exact List.Subset.refl _
  · next last before hdrop =>
    intro c hc
    rw [hdrop] at hsuffix
    exact List.mem_reverse.1 (hsuffix.subset (List.mem_cons_of_mem _ (List.mem_reverse.1 hc)))

/-- The mark is taken off once, where something else is left. -/
theorem unmarked_mark {key : List Char} (hkey : key ≠ []) :
    unmarked (inputMark.toList ++ key) = key := by
  obtain ⟨c, cs, rfl⟩ := List.exists_cons_of_ne_nil hkey
  rfl

theorem unmarked_of_not_mark {stem : List Char} (h : inputMark.toList.isPrefixOf stem = false) :
    unmarked stem = stem := by
  rw [unmarked, h]

theorem unmarked_subset (stem : List Char) : unmarked stem ⊆ stem := by
  unfold unmarked
  split
  · next hdrop =>
    rw [← hdrop]
    exact List.drop_subset _ _
  · exact List.Subset.refl _

/-- The key of an input depends on its file name alone. -/
theorem fileKey_of_fileName? {input : String} {name : List Char}
    (h : Path.fileName? input = some name) :
    fileKey input = String.ofList (unmarked (Path.stem name)) := by
  rw [fileKey, h]
  rfl

/-- A key holds no slash. -/
theorem slash_not_mem_fileKey (input : String) : '/' ∉ (fileKey input).toList := by
  cases hname : Path.fileName? input with
  | none =>
    rw [fileKey, hname]
    decide
  | some name =>
    rw [fileKey_of_fileName? hname, String.toList_ofList]
    intro hslash
    exact (Path.isName_of_fileName? hname).slash
      (Path.stem_subset name (unmarked_subset _ hslash))

/-- The key of an input that is named as the convention has it. -/
theorem fileKey_join (directory : String) {key extension : String} (hkey : key ≠ "")
    (hslash : '/' ∉ key.toList) (hdot : '.' ∉ extension.toList)
    (hslash' : '/' ∉ extension.toList) :
    fileKey (Path.join directory (inputMark ++ key ++ "." ++ extension)) = key := by
  have hlist : (inputMark ++ key ++ "." ++ extension).toList =
      (inputMark.toList ++ key.toList) ++ '.' :: extension.toList := by simp
  have hname : Path.IsName (inputMark ++ key ++ "." ++ extension).toList := by
    refine ⟨?_, ?_, ?_⟩
    · rw [hlist]
      simp [hslash, hslash', inputMark]
    · rw [hlist]
      rfl
    · rw [hlist]
      simp [inputMark]
  have hne : key.toList ≠ [] := fun h => hkey (String.toList_inj.1 h)
  rw [fileKey_of_fileName? (Path.isChild_join directory hname).fileName?_eq, hlist,
    Path.stem_append (by simp [hne]) hdot, unmarked_mark hne, String.ofList_toList]

/-! ## Artifacts -/

namespace ArtifactPaths

/-- The names of artifacts can be names of entries. -/
theorem isName_of_mem_names {key name : String} (hkey : '/' ∉ key.toList)
    (h : name ∈ names key) : Path.IsName name.toList := by
  simp only [names, List.mem_cons, List.not_mem_nil, or_false] at h
  rcases h with rfl | rfl | rfl <;> exact ⟨by simp [hkey], by simp [Path.isVoid], by simp⟩

/-- An artifact's name has the key of the input in it, with something in front. -/
theorem exists_of_mem_names {key name : String} (h : name ∈ names key) :
    ∃ lead extension : List Char, lead ≠ [] ∧ '.' ∉ extension ∧
      (∀ rest, inputMark.toList.isPrefixOf (lead ++ rest) = false) ∧
      name.toList = (lead ++ key.toList) ++ '.' :: extension := by
  simp only [names, List.mem_cons, List.not_mem_nil, or_false] at h
  rcases h with rfl | rfl | rfl
  · exact ⟨"state_manager_".toList, "json".toList, by decide, by decide, fun _ => rfl, by simp⟩
  · exact ⟨"scope_list_".toList, "json".toList, by decide, by decide, fun _ => rfl, by simp⟩
  · exact ⟨"final_".toList, "js".toList, by decide, by decide, fun _ => rfl, by simp⟩

/-- **No artifact has the file name of its input.**  -/
theorem ne_fileName? {input name : String} (h : name ∈ names (fileKey input)) :
    Path.fileName? input ≠ some name.toList := by
  intro hname
  obtain ⟨lead, extension, hlead, hdot, hmark, hlist⟩ := exists_of_mem_names h
  have hkey : fileKey input = String.ofList (lead ++ (fileKey input).toList) := by
    rw [hlist] at hname
    conv_lhs => rw [fileKey_of_fileName? hname, Path.stem_append (by simp [hlead]) hdot,
      unmarked_of_not_mark (hmark _)]
  -- The key would be longer than itself.
  have hlength := congrArg (fun key => key.toList.length) hkey
  have hpositive := List.length_pos_iff.2 hlead
  simp only [String.toList_ofList, List.length_append] at hlength
  omega

/-- The artifacts of an input are children of the directory, under their names. -/
theorem isChild_of_mem_names (input directory : String) {name : String}
    (h : name ∈ names (fileKey input)) :
    Path.IsChild directory (Path.join directory name) name.toList :=
  Path.isChild_join directory (isName_of_mem_names (slash_not_mem_fileKey input) h)

/-- The file names of the artifacts are their names. -/
theorem map_fileName? (input directory : String) :
    (forInput input directory).toList.map Path.fileName? =
      (names (fileKey input)).map fun name => some name.toList := by
  rw [toList_forInput, List.map_map]
  exact List.map_congr_left fun name h => (isChild_of_mem_names input directory h).fileName?_eq

/-- **Artifacts stand beside each other and beside their input.**  The key of an
input holds no slash, so its artifacts are direct children of the directory they
are put in; no two of them have the same file name, and none has that of the
input.  A name as the convention has it gives its key back, whatever the key:
the mark is taken off once. -/
theorem forInput_apart (input directory : String) :
    '/' ∉ (fileKey input).toList ∧
      (∀ path ∈ (forInput input directory).toList, ∃ name, Path.IsChild directory path name) ∧
      ((forInput input directory).toList.map Path.fileName?).Nodup ∧
      Path.fileName? input ∉ (forInput input directory).toList.map Path.fileName? ∧
      ∀ place key extension : String, key ≠ "" → '/' ∉ key.toList →
        '.' ∉ extension.toList → '/' ∉ extension.toList →
          fileKey (Path.join place (inputMark ++ key ++ "." ++ extension)) = key := by
  refine ⟨slash_not_mem_fileKey input, ?_, ?_, ?_, ?_⟩
  · intro path hpath
    rw [toList_forInput, List.mem_map] at hpath
    obtain ⟨name, hname, rfl⟩ := hpath
    exact ⟨_, isChild_of_mem_names input directory hname⟩
  · rw [map_fileName?]
    exact (nodup_names _).map fun name other h => String.toList_inj.1 (Option.some.inj h)
  · rw [map_fileName?, List.mem_map]
    rintro ⟨name, hname, hinput⟩
    exact ne_fileName? hname hinput.symm
  · intro place key extension hkey hslash hdot hslash'
    exact fileKey_join place hkey hslash hdot hslash'

/-- A marked name that is marked again and holds dots: one mark is taken off, and
the dots stay.  The artifacts are not lost in the dots around the name. -/
theorem forInput_apart_markedTwice :
    fileKey "src/../updated_updated_a.b.js/." = "updated_a.b" ∧
      (forInput "src/../updated_updated_a.b.js/." "out/").toList =
        ["out/state_manager_updated_a.b.json", "out/scope_list_updated_a.b.json",
          "out/final_updated_a.b.js"] ∧
      Path.fileName? "src/../updated_updated_a.b.js/." ∉
        (forInput "src/../updated_updated_a.b.js/." "out/").toList.map Path.fileName? ∧
      "updated_a.b" ≠ "" ∧ '/' ∉ "updated_a.b".toList ∧ '.' ∉ "js".toList ∧ '/' ∉ "js".toList ∧
      fileKey (Path.join "src/.." "updated_updated_a.b.js") = "updated_a.b" := by
  obtain ⟨-, -, -, hinput, hconvention⟩ :=
    forInput_apart "src/../updated_updated_a.b.js/." "out/"
  refine ⟨by decide +kernel, by decide +kernel, hinput, by decide, by decide, by decide, by decide,
    ?_⟩
  exact hconvention "src/.." "updated_a.b" "js" (by decide) (by decide) (by decide) (by decide)

end ArtifactPaths
end ScopeTrack
