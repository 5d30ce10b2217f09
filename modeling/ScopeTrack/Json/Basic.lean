/-
# JSON values

A value keeps the members of an object in the order in which they are written,
repeated names included.  Whole numbers of machine size are exact; every other
number is a binary64, kept as its bits.
-/

namespace ScopeTrack

/-- A number of a JSON text. -/
inductive Number where
  /-- A whole number from `-2 ^ 63` to `2 ^ 64 - 1`. -/
  | whole (value : Int)
  /-- Any other number, as the bits of the binary64 it is read as. -/
  | real (bits : UInt64)
deriving DecidableEq, Repr, Inhabited

/-- A JSON value. -/
inductive Json where
  | null
  | bool (value : Bool)
  | num (value : Number)
  | str (value : String)
  | arr (items : List Json)
  | obj (members : List (String × Json))
deriving Repr, Inhabited

namespace Json

/-- The member of an object with the given name. -/
def get? (name : String) : Json → Option Json
  | .obj members => members.lookup name
  | _ => none

/-- The values of all members of an object with the given name. -/
def named (name : String) : Json → List Json
  | .obj members => (members.filter fun (other, _) => other = name).map Prod.snd
  | _ => []

/-- The value of a text. -/
def text? : Json → Option String
  | .str value => some value
  | _ => none

/-- The value of a number without sign and fraction. -/
def nat? : Json → Option Nat
  | .num (.whole (.ofNat value)) => some value
  | _ => none

/-- The truth value. -/
def bool? : Json → Option Bool
  | .bool value => some value
  | _ => none

/-- The items of an array. -/
def items? : Json → Option (List Json)
  | .arr items => some items
  | _ => none

/-- The number of a count. -/
def ofNat (value : Nat) : Json :=
  .num (.whole value)

/-- The array of some texts. -/
def ofTexts (texts : List String) : Json :=
  .arr (texts.map .str)

/-- The text, or null where there is none. -/
def ofText? : Option String → Json
  | some text => .str text
  | none => .null

end Json
end ScopeTrack
