/-
# Reading JSON

The tokens of a text drive a machine that keeps a stack of the arrays and
objects that are open.  A limit bounds the height of that stack, so that a text
nested too deeply is refused.
-/

import ScopeTrack.Json.Token

namespace ScopeTrack
namespace Json

/-- An array or object that is still open; what it holds so far is in reverse. -/
inductive Open where
  | array (items : List Json)
  | object (members : List (String × Json))
  /-- An object in which the value of a name is to come. -/
  | member (members : List (String × Json)) (name : String)
deriving Repr

/-- What may come next. -/
inductive Need where
  | value
  /-- The first item of an array, or its end. -/
  | itemOrEnd
  /-- The first name of an object, or its end. -/
  | nameOrEnd
  | name
  | colon
  /-- A comma, or the end of what is open. -/
  | commaOrEnd
  /-- Nothing: the value is complete. -/
  | nothing (value : Json)
deriving Repr

/-- The machine: what is open, innermost first, and what may come next. -/
structure Reader where
  opened : List Open := []
  need : Need := .value
deriving Repr

namespace Reader

/-- Puts a complete value where it belongs. -/
def put (value : Json) : List Open → Option Reader
  | [] => some ⟨[], .nothing value⟩
  | .array items :: outer => some ⟨.array (value :: items) :: outer, .commaOrEnd⟩
  | .member members name :: outer =>
    some ⟨.object ((name, value) :: members) :: outer, .commaOrEnd⟩
  | .object _ :: _ => none

/-- Reads the first token of a value. -/
def stepValue (limit : Nat) (opened : List Open) : Token → Option Reader
  | .scalar value => put value opened
  | .text value => put (.str value) opened
  | .openArray =>
    if opened.length < limit then some ⟨.array [] :: opened, .itemOrEnd⟩ else none
  | .openObject =>
    if opened.length < limit then some ⟨.object [] :: opened, .nameOrEnd⟩ else none
  | _ => none

/-- Closes the innermost array. -/
def closeArray : List Open → Option Reader
  | .array items :: outer => put (.arr items.reverse) outer
  | _ => none

/-- Closes the innermost object. -/
def closeObject : List Open → Option Reader
  | .object members :: outer => put (.obj members.reverse) outer
  | _ => none

/-- Reads a member's name. -/
def stepName (name : String) : List Open → Option Reader
  | .object members :: outer => some ⟨.member members name :: outer, .colon⟩
  | _ => none

/-- Reads one token. -/
def step (limit : Nat) (reader : Reader) (token : Token) : Option Reader :=
  match reader.need, token with
  | .value, token => stepValue limit reader.opened token
  | .itemOrEnd, .closeArray => closeArray reader.opened
  | .itemOrEnd, token => stepValue limit reader.opened token
  | .nameOrEnd, .closeObject => closeObject reader.opened
  | .nameOrEnd, .text name => stepName name reader.opened
  | .name, .text name => stepName name reader.opened
  | .colon, .colon => some ⟨reader.opened, .value⟩
  | .commaOrEnd, .closeArray => closeArray reader.opened
  | .commaOrEnd, .closeObject => closeObject reader.opened
  | .commaOrEnd, .comma =>
    match reader.opened with
    | .array _ :: _ => some ⟨reader.opened, .value⟩
    | _ => some ⟨reader.opened, .name⟩
  | _, _ => none

/-- The value, if it is complete. -/
def finish? (reader : Reader) : Option Json :=
  match reader.need with
  | .nothing value => some value
  | _ => none

end Reader

/-- The value that a text spells, with at most `limit` arrays and objects one
inside the other; `none` if the text is no JSON or is nested deeper. -/
def parse? (limit : Nat) (text : String) : Option Json := do
  let tokens ← tokens? text
  let reader ← tokens.foldlM (Reader.step limit) {}
  reader.finish?

end Json
end ScopeTrack
