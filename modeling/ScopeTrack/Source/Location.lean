/-
# Locations

A location is a line, counted from 1, and a column, counted from 0 in UTF-16
code units.  Its key is `LINE.COLUMN`.  A key that is read may have plus signs
and leading zeros in front of its numbers; the key that is written has neither.
Locations are ordered by line, then by column.
-/

import ScopeTrack.Text.Numeral

namespace ScopeTrack

/-- A place in a source text. -/
structure Location where
  line : UInt32
  column : UInt32
deriving DecidableEq, Repr, Inhabited

namespace Location

/-- The written form of a location. -/
def key (l : Location) : String :=
  toString l.line.toNat ++ "." ++ toString l.column.toNat

/-- The location that a key stands for: its first dot divides line from column. -/
def ofKey? (key : String) : Option Location :=
  match key.toList.span (· != '.') with
  | (line, '.' :: column) => do
    let line ← Text.word32? line
    let column ← Text.word32? column
    return ⟨line, column⟩
  | _ => none

/-- Locations are ordered by line, and on a line by column. -/
instance : LT Location where
  lt a b := a.line < b.line ∨ (a.line = b.line ∧ a.column < b.column)

/-- The same order, with equal locations. -/
instance : LE Location where
  le a b := a.line < b.line ∨ (a.line = b.line ∧ a.column ≤ b.column)

/-- Locations are compared by evaluation. -/
instance (a b : Location) : Decidable (a < b) :=
  inferInstanceAs (Decidable (a.line < b.line ∨ (a.line = b.line ∧ a.column < b.column)))

/-- Sorting compares locations by evaluation too. -/
instance (a b : Location) : Decidable (a ≤ b) :=
  inferInstanceAs (Decidable (a.line < b.line ∨ (a.line = b.line ∧ a.column ≤ b.column)))

/-- A location comes first if its line does, or its column on the same line. -/
theorem lt_def {a b : Location} :
    a < b ↔ a.line < b.line ∨ (a.line = b.line ∧ a.column < b.column) :=
  Iff.rfl

/-- The locations in ascending order. -/
def sort (locations : List Location) : List Location :=
  locations.mergeSort fun a b => a ≤ b

end Location
end ScopeTrack
