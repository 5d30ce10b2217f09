/-
# The tracking table

The table maps keys `SCOPE:VARIABLE` to the last value that is known, in the
order in which the keys were first registered.  A registered key starts out as
null, and registering it again changes nothing.
-/

import ScopeTrack.Json.Reader
import ScopeTrack.Json.Writer
import ScopeTrack.Scope.Frame
import ScopeTrack.Tree.Target

namespace ScopeTrack

/-- Keys and their values in the order of registration. -/
structure Table where
  entries : List (String × Json) := []
deriving Repr, Inhabited

namespace Table

/-- The key of a variable in a scope. -/
def key (scope name : String) : String :=
  scope ++ ":" ++ name

/-- The table without keys. -/
def empty : Table := {}

/-- The keys in order. -/
def keys (t : Table) : List String :=
  t.entries.map Prod.fst

/-- The number of keys. -/
def size (t : Table) : Nat :=
  t.entries.length

/-- Whether a key is registered. -/
def contains (t : Table) (key : String) : Bool :=
  key ∈ t.keys

/-- Registers a key with the value null, unless it is there; tells whether it
was new. -/
def register (t : Table) (key : String) : Bool × Table :=
  if t.contains key then (false, t) else (true, ⟨t.entries ++ [(key, .null)]⟩)

/-- Registers keys in order; gives those that were new. -/
def registerAll (t : Table) : List String → List String × Table
  | [] => ([], t)
  | key :: keys =>
    match t.register key with
    | (false, t) => t.registerAll keys
    | (true, t) =>
      let (added, t) := t.registerAll keys
      (key :: added, t)

/-- Registers the parameters of a function under its scope. -/
def registerParameters (t : Table) (scope : String) (parameters : List String) :
    List String × Table :=
  t.registerAll (parameters.map (key scope))

/-- Registers the variables of a declarator and declares them in the scope. -/
def registerDeclarator (t : Table) (frame : Scope.Frame) (names : List String) :
    List String × Table × Scope.Frame :=
  let (added, t) := t.registerAll (names.map (key frame.name))
  (added, t, frame.declareAll names)

/-- Registers the variable that an assignment in a scope writes to.  It may be
declared elsewhere, so the scope does not declare it. -/
def registerAssignment (t : Table) (scope : String) (target : Target) : List String × Table :=
  t.registerAll (target.name?.toList.map (key scope))

/-- Sets the value of a key: in its place if it is there, at the end if not. -/
def set (key : String) (value : Json) : List (String × Json) → List (String × Json)
  | [] => [(key, value)]
  | (other, old) :: entries =>
    if other = key then (key, value) :: entries else (other, old) :: set key value entries

/-- The table that an object holds.  For a repeated key the first place and the
last value count; objects inside the values are sorted by name. -/
def ofJson? : Json → Option Table
  | .obj members =>
    some ⟨members.foldl (fun entries (key, value) => set key value.sorted entries) []⟩
  | _ => none

/-- The deepest nesting of a table that can be read. -/
def nestingLimit : Nat := 127

/-- The table that a JSON text holds; the text must be one object. -/
def parse? (text : String) : Option Table :=
  (Json.parse? nestingLimit text).bind ofJson?

/-- The object with the keys and values of the table. -/
def toJson (t : Table) : Json :=
  .obj t.entries

/-- The table as one line of JSON. -/
def text (t : Table) : String :=
  t.toJson.compact

/-- The keys after a registration: the new one comes last, and an old one is not
repeated. -/
theorem keys_register (t : Table) (key : String) :
    (t.register key).2.keys = if t.contains key then t.keys else t.keys ++ [key] := by
  unfold register
  split <;> simp [keys]

/-- A registration tells whether the key was new. -/
theorem register_fst (t : Table) (key : String) : (t.register key).1 = !t.contains key := by
  unfold register
  split <;> simp_all

end Table
end ScopeTrack
