/-
# Decimal numerals

Numerals of 32-bit words: an optional plus sign and at least one decimal digit,
leading zeros allowed, with a value below `2 ^ 32`.
-/

namespace ScopeTrack
namespace Text

/-- The number that a list of decimal digits spells, after the digits spelling `start`. -/
def digitsValue (start : Nat) (cs : List Char) : Nat :=
  cs.foldl (fun n c => 10 * n + (c.toNat - '0'.toNat)) start

/-- The digits of a numeral: what follows its plus sign, if it has one. -/
def unsigned : List Char → List Char
  | '+' :: digits => digits
  | digits => digits

/-- The 32-bit word that a numeral spells; `none` if it is no numeral of one. -/
def word32? (text : List Char) : Option UInt32 :=
  let digits := unsigned text
  let value := digitsValue 0 digits
  if digits ≠ [] ∧ digits.all Char.isDigit ∧ value < UInt32.size then
    some (UInt32.ofNat value)
  else
    none

end Text
end ScopeTrack
