/-
# Directory trees as file systems

On a disk everything but the root stands in a directory (`Disk.WellFormed`).  A
path is followed through directories alone, so where it leads does not change as
long as the directories stay (`walk_congr`).  It leads where its names say
(`walk_eq`), and where that is no directory, the last of its names is the name of
what is there (`exists_of_walk`): dots lead to directories only.

So writing a file keeps a disk well formed (`WellFormed.insert`), and a disk is a
file system (`Disk.fileSystem`), one without links (`Disk.noLinks`).
-/

import ScopeTrack.File.Disk
import ScopeTrack.Proofs.File.System

namespace ScopeTrack
namespace Disk

/-- What stands on a disk stands in a directory, the root apart. -/
def WellFormed (d : Disk) : Prop :=
  ∀ name outer, d.find? (name :: outer) ≠ none → d.find? outer = some .directory

instance (entry : Option Entry) : Decidable (entry = some .directory) :=
  match entry with
  | none => .isFalse nofun
  | some (.file _) => .isFalse nofun
  | some .directory => .isTrue rfl

/-- It is enough to look at the entries of a disk. -/
theorem wellFormed_of_entries {d : Disk}
    (h : ∀ entry ∈ d.entries, entry.1 ≠ [] → d.find? entry.1.tail = some .directory) :
    d.WellFormed := by
  intro name outer hfind
  obtain ⟨entry, hentry⟩ := Option.ne_none_iff_exists'.1 hfind
  obtain ⟨before, after, hentries, -⟩ := List.lookup_eq_some_iff.1 hentry
  refine h (name :: outer, entry) ?_ (List.cons_ne_nil _ _)
  rw [hentries]
  exact List.mem_append_right _ List.mem_cons_self

/-- The directory around a directory. -/
theorem WellFormed.tail {d : Disk} (wellFormed : d.WellFormed) {place : Place}
    (h : d.find? place = some .directory) : d.find? place.tail = some .directory := by
  cases place with
  | nil => exact h
  | cons name outer => exact wellFormed name outer (by rw [h]; exact Option.some_ne_none _)

/-! ## Names -/

/-- The names that a disk follows are those that the path has as a text. -/
theorem names_eq (path : String) : names path = (Path.names path).map String.ofList := by
  rw [names, components, List.filter_map, Path.names]
  congr 1
  apply List.filter_congr
  intro component _
  have hempty : String.ofList component = "" ↔ component = [] := by
    rw [← String.toList_inj, String.toList_ofList, String.toList_empty]
  have hdot : String.ofList component = "." ↔ component = ['.'] := by
    rw [← String.toList_inj, String.toList_ofList]
    rfl
  simp only [Function.comp_apply, Path.isVoid, ne_eq, hempty, hdot]
  simp

/-- The file name is the last name, unless that leads back. -/
theorem fileName?_eq_some_iff {path name : String} :
    Path.fileName? path = some name.toList ↔ (names path).getLast? = some name ∧ name ≠ ".." := by
  have hback : name.toList = ['.', '.'] ↔ name = ".." := by
    rw [← String.toList_inj]
    rfl
  rw [Path.fileName?_eq, Option.filter_eq_some_iff, names_eq, List.getLast?_map,
    Option.map_eq_some_iff]
  simp only [ne_eq, decide_not, Bool.not_eq_true', decide_eq_false_iff_not, hback]
  refine and_congr_left fun _ => ⟨fun h => ⟨_, h, String.ofList_toList⟩, ?_⟩
  rintro ⟨component, h, rfl⟩
  rw [h, String.toList_ofList]

/-! ## Following a path -/

/-- One step along a path: it leads through a directory. -/
theorem walk_cons_eq_ok {d : Disk} {place last : Place} {name : String} {rest : List String}
    (h : d.walk place (name :: rest) = .ok last) :
    d.find? place = some .directory ∧
      ((name = "" ∨ name = ".") ∧ d.walk place rest = .ok last ∨
        ¬(name = "" ∨ name = ".") ∧ d.walk (follow place name) rest = .ok last) := by
  rw [walk] at h
  split at h
  · cases h
  · cases h
  · next hdirectory =>
    refine ⟨hdirectory, ?_⟩
    split at h
    · next hvoid => exact .inl ⟨hvoid, h⟩
    · next hvoid =>
      refine .inr ⟨hvoid, ?_⟩
      unfold follow
      split at h
      · next hback => rwa [if_pos hback]
      · next hback =>
        rw [if_neg hback]
        split at h
        · cases h
        · exact h

/-- **A path leads where its names say.**  -/
theorem walk_eq {d : Disk} {place last : Place} {rest : List String}
    (h : d.walk place rest = .ok last) :
    last = (rest.filter fun name => name ≠ "" ∧ name ≠ ".").foldl follow place := by
  induction rest generalizing place with
  | nil => exact (Except.ok.inj h).symm
  | cons name rest ih =>
    obtain ⟨-, ⟨hvoid, h⟩ | ⟨hvoid, h⟩⟩ := walk_cons_eq_ok h
    · rw [ih h, List.filter_cons_of_neg]
      simpa [imp_iff_not_or] using hvoid
    · rw [ih h, List.filter_cons_of_pos]
      · rfl
      · simpa using hvoid

/-- **What is found at the end of a path is a directory, or it has the last of the
names** and stands in a directory. -/
theorem exists_of_walk {d : Disk} (wellFormed : d.WellFormed) {place last : Place}
    {rest : List String} (hrest : rest ≠ []) (h : d.walk place rest = .ok last) :
    d.find? last = some .directory ∨
      ∃ name outer, last = name :: outer ∧ d.find? outer = some .directory ∧
        (rest.filter fun name => name ≠ "" ∧ name ≠ ".").getLast? = some name ∧ name ≠ ".." := by
  induction rest generalizing place with
  | nil => exact absurd rfl hrest
  | cons name rest ih =>
    obtain ⟨hdirectory, hwalk⟩ := walk_cons_eq_ok h
    -- The last component decides, unless those behind it mean nothing.
    by_cases hend : rest = []
    · subst hend
      rcases hwalk with ⟨-, h⟩ | ⟨hvoid, h⟩
      · exact .inl (Except.ok.inj h ▸ hdirectory)
      · obtain rfl : follow place name = last := Except.ok.inj h
        by_cases hback : name = ".."
        · rw [follow, if_pos hback]
          exact .inl (wellFormed.tail hdirectory)
        · rw [follow, if_neg hback]
          refine .inr ⟨name, place, rfl, hdirectory, ?_, hback⟩
          rw [List.filter_cons_of_pos (by simpa using hvoid)]
          rfl
    · obtain ⟨next, hnext⟩ : ∃ next, d.walk next rest = .ok last := by
        rcases hwalk with ⟨-, h⟩ | ⟨-, h⟩ <;> exact ⟨_, h⟩
      refine (ih hend hnext).imp_right ?_
      rintro ⟨found, outer, hlast, houter, hfound, hback⟩
      refine ⟨found, outer, hlast, houter, ?_, hback⟩
      rw [List.filter_cons]
      split
      · rw [List.getLast?_cons, hfound]
        rfl
      · exact hfound

/-- Where paths lead depends on the directories alone. -/
theorem walk_congr {d other : Disk} {place last : Place} {rest : List String}
    (same : ∀ place, d.find? place = some .directory → other.find? place = some .directory)
    (h : d.walk place rest = .ok last) : other.walk place rest = .ok last := by
  induction rest generalizing place with
  | nil => exact h
  | cons name rest ih =>
    rw [walk, same place (walk_cons_eq_ok h).1]
    rw [walk, (walk_cons_eq_ok h).1] at h
    simp only at h ⊢
    split_ifs at h ⊢ <;> exact ih h

theorem components_ne_nil (path : String) : components path ≠ [] := by
  simp [components, List.splitOn_ne_nil]

/-- A path is followed from the root or from the working directory. -/
theorem exists_walk_of_resolve {d : Disk} {path : String} {last : Place}
    (h : d.resolve path = .ok last) : ∃ start, d.walk start (components path) = .ok last := by
  unfold resolve at h
  split_ifs at h
  · exact ⟨_, h⟩
  · exact ⟨_, h⟩

/-- Where a path leads, if it does. -/
def place? (d : Disk) (path : String) : Option Place :=
  (d.resolve path).toOption

theorem place?_eq_some_iff {d : Disk} {path : String} {place : Place} :
    d.place? path = some place ↔ d.resolve path = .ok place := by
  unfold place?
  cases d.resolve path <;> simp [Except.toOption]

/-- Where a path leads depends on the working directory and on the directories of the
disk, not on the files. -/
theorem resolve_congr {d other : Disk} {path : String} {last : Place}
    (working : other.working = d.working)
    (same : ∀ place, d.find? place = some .directory → other.find? place = some .directory)
    (h : d.resolve path = .ok last) : other.resolve path = .ok last := by
  unfold resolve at h ⊢
  rw [working]
  split_ifs at h ⊢ <;> exact walk_congr same h

/-- **A path with a file name leads to an entry of that name.**  -/
theorem headD_of_resolve {d : Disk} {path : String} {last : Place} {name : List Char}
    (h : d.resolve path = .ok last) (hname : Path.fileName? path = some name) :
    (last.headD "").toList = name := by
  obtain ⟨start, hwalk⟩ := exists_walk_of_resolve h
  obtain ⟨text, rfl⟩ : ∃ text : String, text.toList = name := ⟨_, String.toList_ofList⟩
  obtain ⟨hlast, hback⟩ := fileName?_eq_some_iff.1 hname
  obtain ⟨outer, houter⟩ := List.getLast?_eq_some_iff.1 hlast
  rw [walk_eq hwalk, ← names, houter, List.foldl_append, List.foldl_cons, List.foldl_nil, follow,
    if_neg hback]
  rfl

/-- A path that leads to no directory has a file name, that of what is there. -/
theorem exists_of_resolve {d : Disk} (wellFormed : d.WellFormed) {path : String} {last : Place}
    (h : d.resolve path = .ok last) (hlast : d.find? last ≠ some .directory) :
    ∃ name outer, last = name :: outer ∧ d.find? outer = some .directory ∧
      Path.fileName? path = some name.toList := by
  obtain ⟨start, hwalk⟩ := exists_walk_of_resolve h
  obtain ⟨name, outer, rfl, houter, hname⟩ :=
    (exists_of_walk wellFormed (components_ne_nil path) hwalk).resolve_left hlast
  exact ⟨name, outer, rfl, houter, fileName?_eq_some_iff.2 hname⟩

/-! ## Reading and writing -/

/-- What is read is what stands where the path leads. -/
theorem read_of_resolve {d : Disk} {path : String} {place : Place}
    (h : d.resolve path = .ok place) :
    d.read path =
      match d.find? place with
      | some (.file bytes) => .ok bytes
      | some .directory => .error .isDirectory
      | none => .error .notFound := by
  rw [read, h]
  rfl

/-- What can be read is a file where the path leads. -/
theorem exists_of_read {d : Disk} {path : String} {bytes : ByteArray}
    (h : d.read path = .ok bytes) :
    ∃ place, d.resolve path = .ok place ∧ d.find? place = some (.file bytes) := by
  cases hresolve : d.resolve path with
  | error fault =>
    rw [read, hresolve] at h
    cases h
  | ok place =>
    rw [read_of_resolve hresolve] at h
    refine ⟨place, rfl, ?_⟩
    split at h
    · next found hfound => rw [hfound, Except.ok.inj h]
    · cases h
    · cases h

/-- A write puts a file where the path leads, unless there is a directory. -/
theorem write_eq_of_resolve {d : Disk} {path : String} {place : Place} (bytes : ByteArray)
    (h : d.resolve path = .ok place) :
    d.write path bytes =
      if d.find? place = some .directory then .error .isDirectory
      else .ok (d.insert place (.file bytes)) := by
  rw [write, h]
  simp only [bind, Except.bind]
  cases d.find? place with
  | none => rfl
  | some entry => cases entry <;> rfl

/-- **What a write does**: it puts a file where the path leads, unless a directory
stands there, and does nothing else. -/
theorem exists_of_write {d later : Disk} {path : String} {bytes : ByteArray}
    (h : d.write path bytes = .ok later) :
    ∃ place, d.resolve path = .ok place ∧ d.find? place ≠ some .directory ∧
      later = d.insert place (.file bytes) := by
  cases hresolve : d.resolve path with
  | error fault =>
    rw [write, hresolve] at h
    cases h
  | ok place =>
    rw [write_eq_of_resolve bytes hresolve] at h
    by_cases hdirectory : d.find? place = some .directory
    · rw [if_pos hdirectory] at h
      cases h
    · rw [if_neg hdirectory] at h
      exact ⟨place, rfl, hdirectory, (Except.ok.inj h).symm⟩

/-- Running a write is writing, and a write that fails leaves the disk. -/
theorem run_write (path : String) (bytes : ByteArray) (d : Disk) :
    (files.write path bytes).run d =
      match d.write path bytes with
      | .ok later => (.ok (), later)
      | .error fault => (.error fault, d) := by
  change (match d.write path bytes with
    | .ok later => (do set later; return .ok () : StateM Disk (Except FileFault Unit))
    | .error fault => pure (.error fault)) d = _
  cases d.write path bytes <;> rfl

/-- What a write does when it is run and succeeds. -/
theorem exists_of_run_write {d later : Disk} {path : String} {bytes : ByteArray}
    (h : (files.write path bytes).run d = (.ok (), later)) :
    ∃ place, d.resolve path = .ok place ∧ d.find? place ≠ some .directory ∧
      later = d.insert place (.file bytes) := by
  rw [run_write] at h
  split at h
  · next written hwrite =>
    obtain rfl := (Prod.ext_iff.1 h).2
    exact exists_of_write hwrite
  · cases (Prod.ext_iff.1 h).1

section

variable {d : Disk} {place : Place} {bytes : ByteArray}

/-- A file takes the place of no directory. -/
theorem directory_insert_iff (hplace : d.find? place ≠ some .directory) (other : Place) :
    (d.insert place (.file bytes)).find? other = some .directory ↔
      d.find? other = some .directory := by
  rw [find?_insert]
  split
  · next h =>
    subst h
    simp [hplace]
  · rfl

/-- Writing a file does not change where paths lead. -/
theorem place?_insert (hplace : d.find? place ≠ some .directory) (path : String) :
    (d.insert place (.file bytes)).place? path = d.place? path := by
  apply Option.ext
  intro last
  rw [place?_eq_some_iff, place?_eq_some_iff]
  constructor
  · exact resolve_congr rfl fun other => (directory_insert_iff hplace other).1
  · exact resolve_congr rfl fun other => (directory_insert_iff hplace other).2

/-- **Writing a file keeps a disk well formed.**  -/
theorem WellFormed.insert (wellFormed : d.WellFormed) {name : String} {outer : Place}
    (houter : d.find? outer = some .directory)
    (hplace : d.find? (name :: outer) ≠ some .directory) :
    (d.insert (name :: outer) (.file bytes)).WellFormed := by
  intro other around hother
  rw [directory_insert_iff hplace]
  rw [find?_insert] at hother
  split at hother
  · next h =>
    obtain ⟨-, rfl⟩ := List.cons.inj h
    exact houter
  · exact wellFormed other around hother

end

/-- **A disk is a file system.**  Its places are the lists of names that lead to them
from the root. -/
def fileSystem : FileSystem Disk where
  files := files
  Place := Place
  Entry := Option Entry
  Sound := WellFormed
  place? := place?
  entry := find?
  read_state _ _ := rfl
  read_eq := by
    intro d later path place hplace hlater hentry
    change later.read path = d.read path
    rw [read_of_resolve (place?_eq_some_iff.1 hplace),
      read_of_resolve (place?_eq_some_iff.1 hlater), hentry]
  read_place := by
    intro d path bytes wellFormed hread
    obtain ⟨place, hplace, hfile⟩ := exists_of_read hread
    obtain ⟨name, outer, rfl, -, hname⟩ := exists_of_resolve wellFormed hplace (by simp [hfile])
    exact ⟨name :: outer, name.toList, place?_eq_some_iff.2 hplace, hname⟩
  write_failed := by
    intro d later path bytes fault h
    rw [run_write] at h
    split at h
    · cases (Prod.ext_iff.1 h).1
    · exact (Prod.ext_iff.1 h).2.symm
  write_sound := by
    intro d later path bytes wellFormed h
    obtain ⟨place, hplace, hdirectory, rfl⟩ := exists_of_run_write h
    obtain ⟨name, outer, rfl, houter, -⟩ := exists_of_resolve wellFormed hplace hdirectory
    exact wellFormed.insert houter hdirectory
  write_place? := by
    intro d later path bytes _ h
    obtain ⟨place, -, hdirectory, rfl⟩ := exists_of_run_write h
    exact place?_insert hdirectory
  write_entry := by
    intro d later path bytes _ h
    obtain ⟨place, hplace, -, rfl⟩ := exists_of_run_write h
    refine ⟨place, place?_eq_some_iff.2 hplace, fun other hother => ?_⟩
    rw [find?_insert, if_neg hother]
  write_read := by
    intro d later path bytes _ h
    obtain ⟨place, hplace, hdirectory, rfl⟩ := exists_of_run_write h
    have hlater : (d.insert place (.file bytes)).place? path = some place := by
      rw [place?_insert hdirectory, place?_eq_some_iff.2 hplace]
    change (d.insert place (.file bytes)).read path = .ok bytes
    rw [read_of_resolve (place?_eq_some_iff.1 hlater), find?_insert, if_pos rfl]

/-- **A disk has no links**: a place is reached by one name, the last of those that lead
to it. -/
theorem noLinks (d : Disk) : fileSystem.NoLinks d := by
  intro path other place name name' hpath hother hname hname'
  rw [← headD_of_resolve (place?_eq_some_iff.1 hpath) hname,
    ← headD_of_resolve (place?_eq_some_iff.1 hother) hname']

end Disk
end ScopeTrack
