/-
# Sizes of texts

The bytes of a text in UTF-8, the UTF-16 code units of characters, and texts padded
to a width that is counted in characters.
-/

namespace ScopeTrack
namespace Text

/-- The bytes of a text in UTF-8. -/
def bytes (text : String) : List UInt8 :=
  text.toUTF8.data.toList

/-- The byte of the line feed. -/
def feed : UInt8 := 10

/-- The number of UTF-16 code units that encode a character. -/
def units16 (c : Char) : Nat :=
  if c.toNat < 0x10000 then 1 else 2

/-- No character is without units. -/
theorem units16_pos (c : Char) : 0 < units16 c := by
  unfold units16; split <;> decide

/-- The text followed by as many spaces as it lacks characters of `width`. -/
def padRight (width : Nat) (text : String) : String :=
  text ++ String.ofList (List.replicate (width - text.length) ' ')

end Text
end ScopeTrack
