/-
# Names of artifacts

The names of the three artifacts of an input tell each other apart by how they
begin, and give back the key of the input (`key_of_mem_names`).  In one directory
a name makes one path (`Path.join_injective`).  So the artifacts of an input never
share a path with each other (`nodup_toList`), and in one directory those of two
inputs share a path just if the inputs have the same key (`shared_path_iff`).
-/

import ScopeTrack.File.Artifact
import Mathlib.Data.List.Nodup

namespace ScopeTrack

/-- Joining a name to a directory puts something in front of the name that depends on
the directory alone: the directory itself, with a slash where it lacks one, or nothing
if it is empty. -/
theorem Path.exists_join_eq (directory : String) :
    ∃ lead, ∀ name, join directory name = lead ++ name := by
  unfold join
  split
  · exact ⟨"", fun name => String.empty_append.symm⟩
  · exact ⟨directory, fun name => rfl⟩
  · exact ⟨directory ++ "/", fun name => rfl⟩

/-- Different names in one directory have different paths, as the same is put in front
of both. -/
theorem Path.join_injective (directory : String) : Function.Injective (join directory) := by
  obtain ⟨lead, hlead⟩ := exists_join_eq directory
  intro name other h
  rw [hlead, hlead] at h
  exact (String.append_right_inj lead).mp h

namespace ArtifactPaths

/-- The names of the artifacts of an input with a key. -/
def names (key : String) : List String :=
  ["state_manager_" ++ key ++ ".json", "scope_list_" ++ key ++ ".json", "final_" ++ key ++ ".js"]

theorem toList_forInput (input directory : String) :
    (forInput input directory).toList = (names (fileKey input)).map (Path.join directory) :=
  rfl

/-- The three artifacts of an input have different names: the first letters tell them
apart, whatever the key is. -/
theorem nodup_names (key : String) : (names key).Nodup := by
  simp [names, ← String.toList_inj]

/-- A name of an artifact has one key. -/
theorem key_of_mem_names {name key other : String} (h : name ∈ names key)
    (hother : name ∈ names other) : key = other := by
  simp only [names, List.mem_cons, List.not_mem_nil, or_false] at h hother
  rw [← String.toList_inj]
  rcases h with rfl | rfl | rfl <;> rcases hother with h | h | h <;>
    simpa using congrArg String.toList h

/-- **The three artifacts of an input have different paths**, so that none of them is
written over another. -/
theorem nodup_toList (input directory : String) : (forInput input directory).toList.Nodup :=
  List.Nodup.map (Path.join_injective directory) (nodup_names _)

/-- **Inputs share artifacts by their keys**, where the artifacts go to the same
directory. -/
theorem shared_path_iff (input other directory : String) :
    (∃ path ∈ (forInput input directory).toList, path ∈ (forInput other directory).toList) ↔
      fileKey input = fileKey other := by
  constructor
  · rintro ⟨path, hinput, hother⟩
    rw [toList_forInput, List.mem_map] at hinput hother
    obtain ⟨name, hname, rfl⟩ := hinput
    obtain ⟨name', hname', hpath⟩ := hother
    rw [Path.join_injective directory hpath] at hname'
    exact key_of_mem_names hname hname'
  · intro hkey
    rw [toList_forInput, toList_forInput, hkey]
    exact ⟨_, List.mem_cons_self, List.mem_cons_self⟩

end ArtifactPaths
end ScopeTrack
