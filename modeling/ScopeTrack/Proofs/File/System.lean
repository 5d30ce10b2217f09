/-
# File systems

A path leads to a place or nowhere, and what stands at the place is all that
reading and writing the path have to do with (`FileSystem`).  Many paths may lead
to one place.  Reading and writing may fail for whatever reason; a write that fails
leaves everything as it was.

Where there are links, even paths with different file names may lead to the same
place, and a write through one of them is seen through the other.  Nothing in a file
system forbids that; `NoLinks` says of a state that it does not happen, and whatever
rests on it says so.

`Reached` says how far the writing of some files has come.  One more file that is
written keeps it (`Reached.write`), as long as the files have different names, so
the writing of a list ends with a first part of the list written (`run_writeAll`);
without links the rest is untouched (`Reached.untouched`).

Links can be laid over any file system (`linked`), so a state without links is a real
restriction.
-/

import ScopeTrack.File.Task
import ScopeTrack.Proofs.File.Path

namespace ScopeTrack

/-- A file system with states `σ`. -/
structure FileSystem (σ : Type) where
  files : Files (StateM σ)
  Place : Type
  Entry : Type
  /-- The states that can come about. -/
  Sound : σ → Prop
  /-- Where a path leads. -/
  place? : σ → String → Option Place
  /-- What stands at a place. -/
  entry : σ → Place → Entry
  /-- Reading changes nothing. -/
  read_state : ∀ (path : String) (s : σ), ((files.read path).run s).2 = s
  /-- What is read depends on what stands where the path leads. -/
  read_eq : ∀ {s later : σ} {path : String} {place : Place},
    place? s path = some place → place? later path = some place →
    entry later place = entry s place →
    ((files.read path).run later).1 = ((files.read path).run s).1
  /-- A file is read through a path that leads to a place and has a file name; the
  root, and a path that goes up at its end, lead to directories. -/
  read_place : ∀ {s : σ} {path : String} {bytes : ByteArray}, Sound s →
    ((files.read path).run s).1 = .ok bytes →
    ∃ place name, place? s path = some place ∧ Path.fileName? path = some name
  /-- A write that fails changes nothing. -/
  write_failed : ∀ {s later : σ} {path : String} {bytes : ByteArray} {fault : FileFault},
    (files.write path bytes).run s = (.error fault, later) → later = s
  write_sound : ∀ {s later : σ} {path : String} {bytes : ByteArray}, Sound s →
    (files.write path bytes).run s = (.ok (), later) → Sound later
  /-- A write does not change where paths lead. -/
  write_place? : ∀ {s later : σ} {path : String} {bytes : ByteArray}, Sound s →
    (files.write path bytes).run s = (.ok (), later) →
    ∀ other, place? later other = place? s other
  /-- A write changes what stands where the path leads, and nothing else. -/
  write_entry : ∀ {s later : σ} {path : String} {bytes : ByteArray}, Sound s →
    (files.write path bytes).run s = (.ok (), later) →
    ∃ place, place? s path = some place ∧
      ∀ other, other ≠ place → entry later other = entry s other
  /-- What has been written is read. -/
  write_read : ∀ {s later : σ} {path : String} {bytes : ByteArray}, Sound s →
    (files.write path bytes).run s = (.ok (), later) →
    ((files.read path).run later).1 = .ok bytes

namespace FileSystem

variable {σ : Type}

/-- The answer to reading a path. -/
def read (system : FileSystem σ) (s : σ) (path : String) : Except FileFault ByteArray :=
  ((system.files.read path).run s).1

/-- The files are there, with their texts. -/
def Holds (system : FileSystem σ) (s : σ) (texts : List (String × String)) : Prop :=
  ∀ file ∈ texts, system.read s file.1 = .ok file.2.toUTF8

/-- What has changed stands where one of the paths leads. -/
def ChangedOnly (system : FileSystem σ) (s later : σ) (paths : List String) : Prop :=
  ∀ place, system.entry later place ≠ system.entry s place →
    ∃ path ∈ paths, system.place? s path = some place

/-- What stands where the path leads has not changed. -/
def Untouched (system : FileSystem σ) (s later : σ) (path : String) : Prop :=
  ∀ place, system.place? s path = some place → system.entry later place = system.entry s place

/-- **There are no links**: paths with file names that lead to the same place have the
same file name.  A symbolic link breaks this, because its own name leads to a place
of another name, and so does a hard link, which gives a second name to a place. -/
def NoLinks (system : FileSystem σ) (s : σ) : Prop :=
  ∀ path other place name name', system.place? s path = some place →
    system.place? s other = some place → Path.fileName? path = some name →
    Path.fileName? other = some name' → name = name'

/-- How far the writing of files has come since a state: nothing has changed but where
the paths of some files lead.  These are written, and without links they stay as they
are written when others are written after them. -/
structure Reached (system : FileSystem σ) (s later : σ) (written : List (String × String)) :
    Prop where
  sound : system.Sound later
  place? : ∀ path, system.place? later path = system.place? s path
  changed : system.ChangedOnly s later (written.map Prod.fst)
  holds : system.NoLinks s → system.Holds later written

namespace Reached

variable {system : FileSystem σ} {s later next : σ} {written : List (String × String)}

/-- At first nothing is written. -/
theorem refl (sound : system.Sound s) : system.Reached s s [] where
  sound := sound
  place? _ := rfl
  changed _ h := absurd rfl h
  holds _ _ h := absurd h List.not_mem_nil

/-- **Another file is written.**  Only the place where its path leads changes.  Without
links the files that were written before stand at other places, as they have other
names, so they keep their texts. -/
theorem write (reached : system.Reached s later written) {path text : String}
    (hwrite : (system.files.write path text.toUTF8).run later = (.ok (), next))
    (apart : ∀ file ∈ written, Path.fileName? file.1 ≠ Path.fileName? path) :
    system.Reached s next (written ++ [(path, text)]) := by
  have hsound := system.write_sound reached.sound hwrite
  have hleads := system.write_place? reached.sound hwrite
  have hread := system.write_read reached.sound hwrite
  obtain ⟨place, hplace, hframe⟩ := system.write_entry reached.sound hwrite
  refine ⟨hsound, fun other => (hleads other).trans (reached.place? other), ?_, ?_⟩
  · intro other hother
    rw [List.map_append]
    by_cases h : other = place
    · subst h
      exact ⟨path, List.mem_append_right _ List.mem_cons_self,
        (reached.place? path).symm.trans hplace⟩
    · rw [hframe other h] at hother
      obtain ⟨earlier, hearlier, hlead⟩ := reached.changed other hother
      exact ⟨earlier, List.mem_append_left _ hearlier, hlead⟩
  · intro noLinks file hfile
    rcases List.mem_append.1 hfile with hfile | hfile
    · have hheld := reached.holds noLinks file hfile
      obtain ⟨held, name, hlead, hname⟩ := system.read_place reached.sound hheld
      -- The file has another name, so it stands at another place.
      have hne : held ≠ place := by
        rintro rfl
        obtain ⟨-, name', -, hname'⟩ := system.read_place hsound hread
        rw [reached.place?] at hlead hplace
        obtain rfl := noLinks file.1 path held name name' hlead hplace hname hname'
        exact apart file hfile (hname.trans hname'.symm)
      exact (system.read_eq hlead ((hleads file.1).trans hlead) (hframe held hne)).trans hheld
    · rw [List.mem_singleton.1 hfile]
      exact hread

/-- Without links, paths with other names than the written files are untouched. -/
theorem untouched (reached : system.Reached s later written) (noLinks : system.NoLinks s)
    {path : String} {name : List Char} (hname : Path.fileName? path = some name)
    (apart : ∀ file ∈ written, Path.fileName? file.1 ≠ some name) :
    system.Untouched s later path := by
  intro place hplace
  by_contra hchanged
  obtain ⟨other, hother, hlead⟩ := reached.changed place hchanged
  obtain ⟨file, hfile, rfl⟩ := List.mem_map.1 hother
  obtain ⟨-, name', -, hname'⟩ := system.read_place reached.sound (reached.holds noLinks file hfile)
  obtain rfl := noLinks path file.1 place name name' hplace hlead hname hname'
  exact apart file hfile hname'

end Reached

/-! ## Writing one file after the other -/

/-- How writing ends: with nothing left to write, or at a file that cannot be
written. -/
inductive Ends (system : FileSystem σ) (paths : ArtifactPaths) (later : σ) :
    List (String × String) → Except Error ArtifactPaths → Prop where
  | done : Ends system paths later [] (.ok paths)
  | failed {path text : String} {unwritten : List (String × String)} {fault : FileFault}
      (h : (system.files.write path text.toUTF8).run later = (.error fault, later)) :
      Ends system paths later ((path, text) :: unwritten) (.error (.unwritable path fault))

variable (system : FileSystem σ)

/-- Writing a text is writing its bytes, and a fault becomes an error that names the
path. -/
theorem run_writeText (path text : String) (s : σ) :
    (system.files.writeText path text).run s =
      match (system.files.write path text.toUTF8).run s with
      | (.ok (), later) => (.ok (), later)
      | (.error fault, later) => (.error (.unwritable path fault), later) := by
  unfold Files.writeText
  rw [StateT.run_bind]
  rcases (system.files.write path text.toUTF8).run s with ⟨_ | _, later⟩ <;> rfl

/-- One file after the other, up to the first that cannot be written. -/
theorem run_writeAll_cons (paths : ArtifactPaths) (path text : String)
    (pending : List (String × String)) (s : σ) :
    (Task.writeAll system.files paths ((path, text) :: pending)).run s =
      match (system.files.write path text.toUTF8).run s with
      | (.ok (), later) => (Task.writeAll system.files paths pending).run later
      | (.error fault, later) => (.error (.unwritable path fault), later) := by
  rw [Task.writeAll, StateT.run_bind, run_writeText]
  rcases (system.files.write path text.toUTF8).run s with ⟨_ | _, later⟩ <;> rfl

/-- **Files are written up to the first failure.**  -/
theorem run_writeAll (paths : ArtifactPaths) {s current : σ}
    {written pending : List (String × String)} (reached : system.Reached s current written)
    (apart : (written ++ pending).Pairwise fun file other =>
      Path.fileName? file.1 ≠ Path.fileName? other.1) :
    ∃ more rest later result, pending = more ++ rest ∧
      (Task.writeAll system.files paths pending).run current = (result, later) ∧
      system.Reached s later (written ++ more) ∧ system.Ends paths later rest result := by
  induction pending generalizing current written with
  | nil => exact ⟨[], [], current, .ok paths, rfl, rfl, by simpa using reached, .done⟩
  | cons file pending ih =>
    obtain ⟨path, text⟩ := file
    rw [run_writeAll_cons]
    rcases hwrite : (system.files.write path text.toUTF8).run current with ⟨fault | ⟨⟩, next⟩
    · obtain rfl := system.write_failed hwrite
      exact ⟨[], (path, text) :: pending, next, _, rfl, rfl, by simpa using reached,
        .failed hwrite⟩
    · have hother : ∀ file ∈ written, Path.fileName? file.1 ≠ Path.fileName? path :=
        fun file hfile =>
          (List.pairwise_append.1 apart).2.2 file hfile (path, text) List.mem_cons_self
      obtain ⟨more, rest, later, result, hpending, hrun, hreached, hends⟩ :=
        ih (reached.write hwrite hother) (by rwa [List.append_assoc])
      refine ⟨(path, text) :: more, rest, later, result, by rw [hpending]; rfl, hrun, ?_, hends⟩
      simpa using hreached

/-! ## Links -/

/-- A file system with links in it: a path is followed to the path that it stands for.
Only what has a file name can be a link. -/
def linked (target : String → String)
    (named : ∀ path name, Path.fileName? (target path) = some name →
      ∃ own, Path.fileName? path = some own) : FileSystem σ where
  files := ⟨fun path => system.files.read (target path),
    fun path => system.files.write (target path)⟩
  Place := system.Place
  Entry := system.Entry
  Sound := system.Sound
  place? s path := system.place? s (target path)
  entry := system.entry
  read_state path := system.read_state (target path)
  read_eq := system.read_eq
  read_place := by
    intro s path bytes sound hread
    obtain ⟨place, name, hplace, hname⟩ := system.read_place sound hread
    obtain ⟨own, hown⟩ := named path name hname
    exact ⟨place, own, hplace, hown⟩
  write_failed := system.write_failed
  write_sound := system.write_sound
  write_place? sound hwrite other := system.write_place? sound hwrite (target other)
  write_entry := system.write_entry
  write_read := system.write_read

end FileSystem
end ScopeTrack
