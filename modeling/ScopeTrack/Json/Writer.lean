/-
# Writing JSON

The compact form has no white space; the indented form puts each item and each
member on a line of its own, two spaces deeper than what holds it.  Both keep the
order of the members; `sorted` gives the value with its members in order by name.
-/

import ScopeTrack.Json.Number
import ScopeTrack.Json.Quoted

namespace ScopeTrack
namespace Json

mutual

/-- The compact text of a value. -/
def compact : Json → String
  | .null => "null"
  | .bool true => "true"
  | .bool false => "false"
  | .num value => value.text
  | .str value => quote value
  | .arr items => "[" ++ ",".intercalate (compactItems items) ++ "]"
  | .obj members => "\x7b" ++ ",".intercalate (compactMembers members) ++ "\x7d"

/-- The compact texts of some values. -/
def compactItems : List Json → List String
  | [] => []
  | item :: items => compact item :: compactItems items

/-- The compact texts of some members. -/
def compactMembers : List (String × Json) → List String
  | [] => []
  | (name, value) :: members => (quote name ++ ":" ++ compact value) :: compactMembers members

end

/-- The line break and the spaces in front of a line of the given depth. -/
def newline (depth : Nat) : String :=
  String.ofList ('\n' :: List.replicate (2 * depth) ' ')

/-- The parts on lines of their own between two brackets, the closing one at the
given depth; the brackets alone if there are no parts. -/
def bracketed (left right : String) (depth : Nat) (parts : List String) : String :=
  if parts = [] then left ++ right
  else
    left ++ newline (depth + 1) ++ ("," ++ newline (depth + 1)).intercalate parts
      ++ newline depth ++ right

mutual

/-- The indented text of a value that stands at the given depth. -/
def prettyAt (depth : Nat) : Json → String
  | .arr items => bracketed "[" "]" depth (prettyItems (depth + 1) items)
  | .obj members => bracketed "\x7b" "\x7d" depth (prettyMembers (depth + 1) members)
  | .null => "null"
  | .bool true => "true"
  | .bool false => "false"
  | .num value => value.text
  | .str value => quote value

/-- The indented texts of some values. -/
def prettyItems (depth : Nat) : List Json → List String
  | [] => []
  | item :: items => prettyAt depth item :: prettyItems depth items

/-- The indented texts of some members. -/
def prettyMembers (depth : Nat) : List (String × Json) → List String
  | [] => []
  | (name, value) :: members =>
    (quote name ++ ": " ++ prettyAt depth value) :: prettyMembers depth members

end

/-- The indented text of a value. -/
def pretty (value : Json) : String :=
  prettyAt 0 value

/-- Sets a member in a list that is ordered by name, in place of one with the
same name. -/
def setSorted (name : String) (value : Json) : List (String × Json) → List (String × Json)
  | [] => [(name, value)]
  | (other, old) :: members =>
    if name < other then (name, value) :: (other, old) :: members
    else if name = other then (name, value) :: members
    else (other, old) :: setSorted name value members

mutual

/-- The value with the members of every object ordered by name; of members with
the same name the last one stays. -/
def sorted : Json → Json
  | .arr items => .arr (sortedItems items)
  | .obj members => .obj (sortedMembers [] members)
  | value => value

/-- The values, each sorted. -/
def sortedItems : List Json → List Json
  | [] => []
  | item :: items => sorted item :: sortedItems items

/-- The members set one after the other, each value sorted. -/
def sortedMembers (done : List (String × Json)) : List (String × Json) → List (String × Json)
  | [] => done
  | (name, value) :: members => sortedMembers (setSorted name (sorted value) done) members

end

end Json
end ScopeTrack
