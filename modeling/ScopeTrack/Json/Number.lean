/-
# Numbers of a JSON text

Reading: a numeral without fraction and exponent is a whole number as long as it
has machine size.  Any other numeral is a binary64: its leading digits, as many
as fit a 64-bit word, times a power of ten, each step rounded to nearest.

Writing: a binary64 is written with the fewest digits that read back as it, of
these the nearest to it; positional while the decimal point lies close to the
digits, with an exponent otherwise.

| value | text |
| --- | --- |
| whole number `n` | the digits of `n` |
| up to 16 places before the point | `12340000.0`, `12.34` |
| up to 4 zeros after the point | `0.001234` |
| one digit elsewhere | `1e+30` |
| more digits elsewhere | `1.234e-7` |
-/

import ScopeTrack.Json.Basic
import ScopeTrack.Text.Numeral

namespace ScopeTrack
namespace Number

/-! ## Reading -/

/-- The digits of a numeral, by its parts. -/
structure Numeral where
  negative : Bool
  whole : List Char
  /-- The digits after the point, at least one. -/
  fraction : Option (List Char)
  /-- The sign and the digits of the exponent, at least one digit. -/
  exponent : Option (Bool × List Char)
deriving Repr

/-- The leading digits of a list and what follows them; at least one is needed. -/
def digits? (cs : List Char) : Option (List Char × List Char) :=
  match cs.span Char.isDigit with
  | ([], _) => none
  | found => some found

/-- The sign of an exponent and what follows it: negative after a minus. -/
def exponentSign : List Char → Bool × List Char
  | '-' :: rest => (true, rest)
  | '+' :: rest => (false, rest)
  | rest => (false, rest)

/-- The part of a numeral after the point, if there is a point. -/
def fraction? : List Char → Option (Option (List Char) × List Char)
  | '.' :: rest => (digits? rest).map fun (found, rest) => (some found, rest)
  | rest => some (none, rest)

/-- The exponent of a numeral, if there is an exponent mark. -/
def exponent? (cs : List Char) : Option (Option (Bool × List Char) × List Char) :=
  match cs with
  | [] => some (none, [])
  | mark :: rest =>
    if mark = 'e' ∨ mark = 'E' then
      let (negative, rest) := exponentSign rest
      (digits? rest).map fun (found, rest) => (some (negative, found), rest)
    else
      some (none, cs)

/-- The parts of a numeral: no plus sign, no leading zero, no lone point. -/
def Numeral.ofChars? (cs : List Char) : Option Numeral := do
  let (negative, cs) := match cs with
    | '-' :: rest => (true, rest)
    | _ => (false, cs)
  let (whole, cs) ← digits? cs
  if whole.head? = some '0' ∧ whole.length ≠ 1 then none else
  let (fraction, cs) ← fraction? cs
  let (exponent, cs) ← exponent? cs
  if cs = [] then some ⟨negative, whole, fraction, exponent⟩ else none

/-- The largest 64-bit word. -/
def maxWord : Nat := UInt64.size - 1

/-- Appends decimal digits to a number as long as it stays a 64-bit word; the
digits that no longer fit are left over. -/
def appendDigits (significand : Nat) : List Char → Nat × List Char
  | [] => (significand, [])
  | c :: cs =>
    let next := Text.digitsValue significand [c]
    if next ≤ maxWord then appendDigits next cs else (significand, c :: cs)

/-- The power of ten as a binary64. -/
def powerOfTen (n : Nat) : Float :=
  Float.ofScientific 1 false n

/-- A 64-bit word times a power of ten; `none` beyond the largest binary64.  A
division by more than the largest power of ten is done in two steps. -/
def scale? (significand : Nat) (exponent : Int) : Option Float :=
  let value := (UInt64.ofNat significand).toFloat
  match exponent with
  | .ofNat n =>
    if n ≤ 308 then
      let product := value * powerOfTen n
      if product.isInf then none else some product
    else if significand = 0 then some value
    else none
  | .negSucc m =>
    if m + 1 ≤ 308 then some (value / powerOfTen (m + 1))
    else if m + 1 ≤ 616 then some (value / powerOfTen 308 / powerOfTen (m + 1 - 308))
    else some 0.0

/-- The binary64 that a numeral is read as; `none` if it is out of range. -/
def Numeral.real? (n : Numeral) : Option Float := do
  let fraction := n.fraction.getD []
  let (significand, skipped) := appendDigits 0 n.whole
  let (significand, unused) := appendDigits significand fraction
  let shift : Int := skipped.length - (fraction.length - unused.length : Nat)
  let (negative, digits) := n.exponent.getD (false, [])
  let power := Text.digitsValue 0 digits
  let size ←
    if power < Nat.pow 2 31 then
      scale? significand (if negative then shift - power else shift + power)
    else if significand = 0 ∨ negative then some 0.0
    else none
  return if n.negative then -size else size

/-- The number that the characters spell; `none` if they spell none. -/
def ofChars? (cs : List Char) : Option Number := do
  let n ← Numeral.ofChars? cs
  let value := Text.digitsValue 0 n.whole
  let real := n.real?.map fun value => real value.toBits
  if n.fraction.isSome ∨ n.exponent.isSome then real
  else if n.negative then
    if 0 < value ∧ value ≤ Nat.pow 2 63 then some (whole (-(value : Int))) else real
  else if value ≤ maxWord then some (whole value)
  else real

/-! ## Writing -/

/-- The number of decimal digits of a number, none for zero. -/
def digitCount (n : Nat) : Nat :=
  if n = 0 then 0 else (Nat.toDigits 10 n).length

/-- A positive fraction with its rounding interval: the fractions from `low` to
`high` over `den` read as `num / den`, the ends among them if `closed`. -/
structure Interval where
  low : Nat
  num : Nat
  high : Nat
  den : Nat
  closed : Bool
deriving Repr

/-- The interval of the finite nonzero binary64 with the given bits, sign aside. -/
def Interval.ofBits (bits : Nat) : Interval :=
  let field := bits / Nat.pow 2 52 % Nat.pow 2 11
  let rest := bits % Nat.pow 2 52
  let mantissa := if field = 0 then rest else Nat.pow 2 52 + rest
  let below := if rest = 0 ∧ 1 < field then 1 else 2
  let power := max field 1
  let up := Nat.pow 2 (power - 1077)
  let down := Nat.pow 2 (1077 - power)
  ⟨(4 * mantissa - below) * up, 4 * mantissa * up, (4 * mantissa + 2) * up, down,
    mantissa % 2 = 0⟩

/-- Whether `num / den` reads as the number of the interval. -/
def Interval.contains (i : Interval) (num den : Nat) : Bool :=
  let left := i.low * den
  let right := i.high * den
  let middle := num * i.den
  if i.closed then left ≤ middle && middle ≤ right else left < middle && middle < right

/-- The exponent of the leading decimal digit. -/
def Interval.leading (i : Interval) : Int :=
  if i.den ≤ i.num then
    (digitCount (i.num / i.den) : Int) - 1
  else
    -(digitCount ((i.den + i.num - 1) / i.num - 1) : Int)

/-- The nearest decimal with `count` digits that reads as the number of the
interval, as a significand and a power of ten. -/
def Interval.decimal? (i : Interval) (count : Nat) : Option (Nat × Int) :=
  let power : Int := i.leading - count + 1
  let up := Nat.pow 10 power.toNat
  let down := Nat.pow 10 (-power).toNat
  let floor := i.num * down / (i.den * up)
  let twice := 2 * (i.num * down)
  let middle := (2 * floor + 1) * (i.den * up)
  let lower := i.contains (floor * up) down
  let upper := i.contains ((floor + 1) * up) down
  if lower && upper then
    if twice < middle ∨ (twice = middle ∧ floor % 2 = 0) then some (floor, power)
    else some (floor + 1, power)
  else if lower then some (floor, power)
  else if upper then some (floor + 1, power)
  else none

/-- The decimal with the fewest digits that reads as the number of the interval. -/
def Interval.shortest (i : Interval) : Nat × Int :=
  ((List.range 18).tail.findSome? i.decimal?).getD (0, 0)

/-- As many zeros. -/
def zeros (n : Nat) : List Char :=
  List.replicate n '0'

/-- The exponent of a decimal with its mark and always its sign. -/
def exponentText (exponent : Int) : List Char :=
  let sign := if exponent < 0 then '-' else '+'
  'e' :: sign :: Nat.toDigits 10 exponent.natAbs

/-- The text of decimal digits whose last one stands for that power of ten. -/
def layout (digits : List Char) (power : Int) : List Char :=
  let count := digits.length
  let point : Int := count + power
  if 0 ≤ power ∧ point ≤ 16 then
    digits ++ zeros power.toNat ++ ['.', '0']
  else if 0 < point ∧ point ≤ 16 then
    digits.take point.toNat ++ '.' :: digits.drop point.toNat
  else if -5 < point ∧ point ≤ 0 then
    ['0', '.'] ++ zeros (-point).toNat ++ digits
  else
    let mark := exponentText (point - 1)
    match digits with
    | [digit] => digit :: mark
    | digit :: rest => digit :: '.' :: rest ++ mark
    | [] => mark

/-- A decimal without the zeros at the end of its significand. -/
def strip : List Char → Int → List Char × Int
  | '0' :: rest, power => if rest = [] then (['0'], power) else strip rest (power + 1)
  | reversed, power => (reversed.reverse, power)

/-- The text of the finite binary64 with the given bits. -/
def realText (bits : UInt64) : String :=
  let size := bits.toNat % Nat.pow 2 63
  let sign := if Nat.pow 2 63 ≤ bits.toNat then ['-'] else []
  let body :=
    if size = 0 then ['0', '.', '0']
    else
      let (significand, power) := (Interval.ofBits size).shortest
      let (digits, power) := strip (Nat.toDigits 10 significand).reverse power
      layout digits power
  String.ofList (sign ++ body)

/-- The text of a number. -/
def text : Number → String
  | whole value => toString value
  | real bits => realText bits

end Number
end ScopeTrack
