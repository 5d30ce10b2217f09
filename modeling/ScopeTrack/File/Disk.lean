/-
# Directory trees

A disk is a set of files and directories with a working directory.  A path is
followed component by component: each component but the last must lead to a
directory, a dot stays in place, and two dots lead to the directory around.

| what is found | reading | writing |
| --- | --- | --- |
| a file | its bytes | replaces its bytes |
| a directory | `isDirectory` | `isDirectory` |
| nothing, in a directory | `notFound` | a new file |
| nothing, in no directory | `notFound` | `notFound` |
| something inside a file | `notDirectory` | `notDirectory` |

A name has at most 255 bytes, and a path at most 4095.  A path that is too long
is refused before it is followed, a name when it is reached.
-/

import ScopeTrack.File.Access

namespace ScopeTrack

/-- What can stand at a place of a disk. -/
inductive Entry where
  | file (bytes : ByteArray)
  | directory

/-- A place of a disk: the names that lead to it from the root, the last first. -/
abbrev Place := List String

/-- Files and directories, and the directory where relative paths start. -/
structure Disk where
  entries : List (Place × Entry)
  working : Place

namespace Disk

/-- What stands at a place. -/
def find? (d : Disk) (place : Place) : Option Entry :=
  d.entries.lookup place

/-- Puts an entry at a place, instead of the one that is there. -/
def put (place : Place) (entry : Entry) : List (Place × Entry) → List (Place × Entry)
  | [] => [(place, entry)]
  | (other, old) :: entries =>
    if other = place then (place, entry) :: entries else (other, old) :: put place entry entries

/-- The disk with an entry put at a place. -/
def insert (d : Disk) (place : Place) (entry : Entry) : Disk :=
  { d with entries := put place entry d.entries }

theorem lookup_cons_eq (place other : Place) (entry : Entry) (entries : List (Place × Entry)) :
    ((place, entry) :: entries).lookup other =
      if other = place then some entry else entries.lookup other := by
  by_cases h : other = place
  · simp [h]
  · simp [List.lookup_cons, beq_false_of_ne h, h]

/-- An entry that is put at a place is found there, and the other places are as before.
It takes the place of the entry that is there, or comes last. -/
theorem lookup_put (place other : Place) (entry : Entry) (entries : List (Place × Entry)) :
    (put place entry entries).lookup other =
      if other = place then some entry else entries.lookup other := by
  induction entries with
  | nil => exact lookup_cons_eq place other entry []
  | cons head tail ih =>
    obtain ⟨p, e⟩ := head
    by_cases h : p = place
    · subst h
      by_cases hp : other = p <;> simp [put, lookup_cons_eq, hp]
    · by_cases hp : other = p
      · subst hp
        simp [put, h]
      · simp [put, lookup_cons_eq, h, hp, ih]

/-- **A disk with an entry put at a place** has it there, and everything else as before. -/
theorem find?_insert (d : Disk) (place other : Place) (entry : Entry) :
    (d.insert place entry).find? other = if other = place then some entry else d.find? other :=
  lookup_put place other entry d.entries

/-- The longest name of a file, in bytes. -/
def longestName : Nat := 255

/-- The longest path, in bytes. -/
def longestPath : Nat := 4095

/-- The place that components lead to from a place. -/
def walk (d : Disk) (place : Place) : List String → Except FileFault Place
  | [] => .ok place
  | name :: names =>
    match d.find? place with
    | none => .error .notFound
    | some (.file _) => .error .notDirectory
    | some .directory =>
      if name = "" ∨ name = "." then d.walk place names
      else if name = ".." then d.walk place.tail names
      else if longestName < name.utf8ByteSize then .error .nameTooLong
      else d.walk (name :: place) names

/-- The components of a path, those that mean nothing among them. -/
def components (path : String) : List String :=
  (path.toList.splitOn '/').map String.ofList

/-- The place that a path leads to. -/
def resolve (d : Disk) (path : String) : Except FileFault Place :=
  if path = "" then .error .notFound
  else if path.toList.contains '\x00' then .error .nulInPath
  else if longestPath < path.utf8ByteSize then .error .nameTooLong
  else if path.toList.head? = some '/' then d.walk [] (components path)
  else d.walk d.working (components path)

/-- The bytes of the file at a path. -/
def read (d : Disk) (path : String) : Except FileFault ByteArray := do
  match d.find? (← d.resolve path) with
  | some (.file bytes) => return bytes
  | some .directory => throw .isDirectory
  | none => throw .notFound

/-- The disk with the file at a path written. -/
def write (d : Disk) (path : String) (bytes : ByteArray) : Except FileFault Disk := do
  let place ← d.resolve path
  match d.find? place with
  | some .directory => throw .isDirectory
  | _ => return d.insert place (.file bytes)

/-- Access to the files of a disk. -/
def files : Files (StateM Disk) where
  read path := return (← get).read path
  write path bytes := do
    match (← get).write path bytes with
    | .ok d => set d; return .ok ()
    | .error fault => return .error fault

/-- The disk with a directory at a place, and directories around it. -/
def makeDirectory (d : Disk) : Place → Disk
  | [] => d.insert [] .directory
  | name :: outer => (d.makeDirectory outer).insert (name :: outer) .directory

/-- The names of a path that mean something. -/
def names (path : String) : List String :=
  (components path).filter fun name => name ≠ "" ∧ name ≠ "."

/-- The place that a name leads to from a place. -/
def follow (place : Place) (name : String) : Place :=
  if name = ".." then place.tail else name :: place

/-- The place of a path below the working directory. -/
def below (d : Disk) (path : String) : Place :=
  (names path).foldl follow d.working

/-- The disk that has nothing but a working directory. -/
def empty (working : Place) : Disk :=
  makeDirectory ⟨[], working⟩ working

/-- The disk with a directory wherever the names lead on their way from a place,
also where two dots lead back from it. -/
def makeAlong (d : Disk) (place : Place) : List String → Disk
  | [] => d
  | name :: names => (d.makeDirectory (follow place name)).makeAlong (follow place name) names

/-- The disk with a directory below the working directory, and those on the way
to it. -/
def addDirectory (d : Disk) (path : String) : Disk :=
  d.makeAlong d.working (names path)

/-- The disk with a file below the working directory, and the directories on the
way to it. -/
def addFile (d : Disk) (path : String) (bytes : ByteArray) : Disk :=
  (d.makeAlong d.working (names path).dropLast).insert (d.below path) (.file bytes)

end Disk
end ScopeTrack
