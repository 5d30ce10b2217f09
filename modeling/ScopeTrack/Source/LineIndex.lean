/-
# Locations of byte offsets

The nodes of a syntax tree carry UTF-8 byte offsets.  A line index holds the
lines of a source text and gives the location of an offset: the line that
contains it, and the UTF-16 code units of that line before it.

| offset | location |
| --- | --- |
| at a character | its line and the units before it |
| at a line feed | the end of the line it closes |
| inside the bytes of a character | the line and the bytes before the offset |
| past the end | the end of the text |

The line of an offset is the last one that starts at or before it.  Going through the
lines finds it (`find`), and so does halving among the starts of the lines (`search`):
if the offset is the start of a line it is that line, and otherwise the line in front
of the place at which the offset would stand among the starts.  `locate?` looks up an
offset in this way, with every difference and every number of 32 bits checked; it gives
the same location, and none of the checks fails.
-/

import ScopeTrack.Source.Location
import ScopeTrack.Text.Lines
import ScopeTrack.Text.Width

namespace ScopeTrack

/-- The offsets at which the lines of a text start: 0, and behind each line
feed. -/
def Text.lineStarts (text : String) : List Nat :=
  0 :: ((Text.bytes text).zipIdx.filter fun (byte, _) => byte = Text.feed).map
    fun (_, index) => index + 1

/-- The lines of a source text. -/
structure LineIndex where
  lines : List String
deriving Repr

namespace LineIndex

/-- The index of a source text. -/
def ofText (text : String) : LineIndex :=
  ⟨Text.lines text⟩

/-- The number of lines, one at least. -/
def lineCount (index : LineIndex) : Nat :=
  index.lines.length

/-- The UTF-16 code units of the characters that fill the first `offset` bytes;
`none` if the offset is inside a character or past the last one. -/
def unitsBefore? : List Char → Nat → Option Nat
  | _, 0 => some 0
  | [], _ + 1 => none
  | c :: cs, offset@(_ + 1) =>
    if c.utf8Size ≤ offset then
      (unitsBefore? cs (offset - c.utf8Size)).map (Text.units16 c + ·)
    else
      none

/-- The column of a byte offset in a line. -/
def column (line : String) (offset : Nat) : Nat :=
  (unitsBefore? line.toList offset).getD offset

/-- The line, counted from `first`, and the column of a byte offset. -/
def find (first : Nat) : List String → Nat → Nat × Nat
  | [], _ => (first, 0)
  | [line], offset => (first, column line (min offset line.utf8ByteSize))
  | line :: next :: rest, offset =>
    if offset ≤ line.utf8ByteSize then (first, column line offset)
    else find (first + 1) (next :: rest) (offset - (line.utf8ByteSize + 1))

/-- The location of a byte offset. -/
def location (index : LineIndex) (offset : Nat) : Location :=
  let (line, column) := find 1 index.lines offset
  ⟨UInt32.ofNat line, UInt32.ofNat column⟩

/-- There is a first line, even if the text is empty. -/
theorem lineCount_pos (text : String) : 0 < (ofText text).lineCount :=
  List.length_pos_iff.2 (Text.lines_ne_nil text)

/-! ## Lines found by their starts -/

/-- Searches a number between two indices of an ascending list by halving.  The answer
is an index at which it stands, or else the index at which it would stand. -/
def searchIn (xs : Array Nat) (x low high : Nat) (hhigh : high ≤ xs.size) : Except Nat Nat :=
  if h : low < high then
    let middle := low + (high - low) / 2
    have hmiddle : middle < xs.size := by omega
    if xs[middle] < x then
      searchIn xs x (middle + 1) high hhigh
    else if x < xs[middle] then
      searchIn xs x low middle (by omega)
    else
      .ok middle
  else
    .error low
termination_by high - low

/-- Searches a number in an ascending list by halving. -/
def search (xs : Array Nat) (x : Nat) : Except Nat Nat :=
  searchIn xs x 0 xs.size (Nat.le_refl _)

/-- The difference of two numbers, if it is not below 0. -/
def difference? (n m : Nat) : Option Nat :=
  if m ≤ n then some (n - m) else none

/-- The 32-bit word of a number, if it fits. -/
def word? (n : Nat) : Option UInt32 :=
  if n < UInt32.size then some (UInt32.ofNat n) else none

/-- The number of a line, from 0 on, that a search for an offset among the starts
tells; `none` if it would be before the first. -/
def lineFound? : Except Nat Nat → Option Nat
  | .ok index => some index
  | .error next => difference? next 1

/-- The UTF-16 code units between two offsets that are between characters. -/
def unitsBetween? (text : String) (start stop : Nat) : Option Nat := do
  let skipped ← unitsBefore? text.toList start
  let reached ← unitsBefore? text.toList stop
  difference? reached skipped

/-- The location of an offset, looked up among the starts of the lines; `none` if a
difference goes below 0 or a number does not fit into 32 bits. -/
def locate? (text : String) (offset : Nat) : Option Location := do
  let offset := min offset text.utf8ByteSize
  let starts := (Text.lineStarts text).toArray
  let index ← lineFound? (search starts offset)
  let start ← starts[index]?
  let width ← difference? offset start
  let line ← word? (index + 1)
  let column ← word? ((unitsBetween? text start offset).getD width)
  return ⟨line, column⟩

end LineIndex
end ScopeTrack
