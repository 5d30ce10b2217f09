/-
# Paths

Paths are texts, as the user writes them, with components divided by slashes.
Empty components and dots mean nothing, except for a slash or a dot at the very
start.

| path | parent | file name | stem |
| --- | --- | --- | --- |
| `a/b.js` | `a` | `b.js` | `b` |
| `b.js` | the empty path | `b.js` | `b` |
| `a/b.js/.` | `a` | `b.js` | `b` |
| `./.b` | `.` | `.b` | `.b` |
| `a/..` | `a` | none | none |
| `/` | none | none | none |
-/

namespace ScopeTrack
namespace Path

/-- Divides a path into a slash or dot at its start and the rest. -/
def anchor : List Char → List Char × List Char
  | '/' :: rest => (['/'], rest)
  | ['.'] => (['.'], [])
  | '.' :: '/' :: rest => (['.'], '/' :: rest)
  | rest => ([], rest)

/-- A component that means nothing. -/
def isVoid (component : List Char) : Bool :=
  component = [] || component = ['.']

/-- The components after the anchor, from the last to the first, without those
at the end that mean nothing. -/
def reversedComponents (body : List Char) : List (List Char) :=
  (body.splitOn '/').reverse.dropWhile isVoid

/-- The path without its last component; `none` for the root and for the empty
path. -/
def parent? (path : String) : Option String :=
  let (start, body) := anchor path.toList
  match reversedComponents body with
  | _ :: outer =>
    some (String.ofList (start ++ ['/'].intercalate (outer.dropWhile isVoid).reverse))
  | [] => if start = ['.'] then some "" else none

/-- The last component, if it is a name. -/
def fileName? (path : String) : Option (List Char) :=
  match reversedComponents (anchor path.toList).2 with
  | [] => none
  | last :: _ => if last = ['.', '.'] then none else some last

/-- A file name up to its last dot, unless that dot comes first. -/
def stem (name : List Char) : List Char :=
  match name.reverse.dropWhile (· != '.') with
  | [] => name
  | ['.'] => name
  | _ :: before => before.reverse

/-- A name inside a directory. -/
def join (directory name : String) : String :=
  match directory.toList.getLast? with
  | none => name
  | some '/' => directory ++ name
  | some _ => directory ++ "/" ++ name

end Path
end ScopeTrack
