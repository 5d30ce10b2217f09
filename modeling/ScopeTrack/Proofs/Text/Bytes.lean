/-
# Bytes and UTF-16 code units of a text

A line feed is a single byte, and no other character has that byte in it
(`feed_mem_encodeChar_iff`): the bytes above `0x7f` make up all longer
characters.  So a text has the byte just if it has a line feed
(`feed_mem_bytes_iff`), and cutting its bytes at the byte of the line feed is
cutting its characters at the line feed.

A character has one UTF-16 code unit at least, and no more units than bytes
(`units16_le_utf8Size`).
-/

import ScopeTrack.Proofs.Text.SingleLine
import ScopeTrack.Text.Width

namespace ScopeTrack
namespace Text

/-! ## Bytes -/

/-- One character after the other: the size of a text is the sum of the sizes of its
characters. -/
theorem byteSize_cons (c : Char) (cs : List Char) :
    (String.ofList (c :: cs)).utf8ByteSize = c.utf8Size + (String.ofList cs).utf8ByteSize := by
  rw [String.ofList_cons, String.utf8ByteSize_append, String.utf8ByteSize_singleton]

/-- There are as many bytes as the size of the text says. -/
theorem length_bytes (text : String) : (bytes text).length = text.utf8ByteSize := by
  rw [bytes, Array.length_toList, String.toUTF8_eq_toByteArray]
  rfl

/-- The bytes of joined texts are their bytes one after the other, so an offset in the
first text stays where it is. -/
theorem bytes_append (a b : String) : bytes (a ++ b) = bytes a ++ bytes b := by
  simp [bytes]

/-- The bytes of a text are those of its characters in order. -/
theorem bytes_ofList (cs : List Char) :
    bytes (String.ofList cs) = cs.flatMap String.utf8EncodeChar := by
  simp [bytes, List.utf8Encode]

theorem bytes_feed : bytes "\n" = [feed] :=
  bytes_ofList ['\n']

/-- **No other character has the byte of the line feed in it.**  Characters of one byte
are that byte, and every byte of a longer character is above `0x7f`; so each of the four
forms of the encoding comes down to arithmetic on its bytes. -/
theorem feed_mem_encodeChar_iff (c : Char) : feed ∈ String.utf8EncodeChar c ↔ c = '\n' := by
  have hchar : c = '\n' ↔ c.val.toNat = 10 := by
    rw [← Char.toNat_inj]
    rfl
  have hbyte : ∀ n, feed = UInt8.ofNat n ↔ n % 256 = 10 := by
    intro n
    rw [← UInt8.toNat_inj, UInt8.toNat_ofNat', eq_comm]
    rfl
  rw [hchar, String.utf8EncodeChar]
  -- One to four bytes, each of them a number plus a mark that only the shortest form lacks.
  repeat' split
  all_goals
    simp only [List.mem_cons, List.not_mem_nil, or_false, hbyte]
    omega

/-- A text has the byte of the line feed just if it has a line feed. -/
theorem feed_mem_bytes_iff (text : String) : feed ∈ bytes text ↔ '\n' ∈ text.toList := by
  obtain ⟨cs, rfl⟩ := text.exists_eq_ofList
  rw [bytes_ofList, String.toList_ofList, List.mem_flatMap]
  constructor
  · rintro ⟨c, hc, hfeed⟩
    rwa [(feed_mem_encodeChar_iff c).1 hfeed] at hc
  · intro hc
    exact ⟨_, hc, (feed_mem_encodeChar_iff '\n').2 rfl⟩

/-- In a single line the byte of the line feed is nowhere. -/
theorem SingleLine.feed_not_mem {text : String} (h : SingleLine text) : feed ∉ bytes text :=
  fun hfeed => h ((feed_mem_bytes_iff text).1 hfeed)

/-! ## UTF-16 code units -/

/-- The number of UTF-16 code units of characters. -/
def units : List Char → Nat
  | [] => 0
  | c :: cs => units16 c + units cs

/-- The units of characters one after the other add up. -/
theorem units_append (cs ds : List Char) : units (cs ++ ds) = units cs + units ds := by
  induction cs with
  | nil => exact (Nat.zero_add _).symm
  | cons c cs ih => rw [List.cons_append, units, units, ih, Nat.add_assoc]

theorem units_reverse (cs : List Char) : units cs.reverse = units cs := by
  induction cs with
  | nil => rfl
  | cons c cs ih =>
      rw [List.reverse_cons, units_append, ih, Nat.add_comm, units]
      rfl

theorem units_pos {cs : List Char} (h : cs ≠ []) : 0 < units cs := by
  cases cs with
  | nil => exact absurd rfl h
  | cons c cs =>
      have hpos := units16_pos c
      rw [units]
      omega

/-- A character has no more units than bytes: two units are needed only from `0x10000`
on, and there it has four bytes. -/
theorem units16_le_utf8Size (c : Char) : units16 c ≤ c.utf8Size := by
  unfold units16
  split
  · exact c.utf8Size_pos
  · have hsize : c.utf8Size = 4 := by
      rw [Char.utf8Size_eq_four_iff, UInt32.lt_iff_toNat_lt]
      change 0xffff < c.toNat
      omega
    omega

/-- Characters have no more units than bytes. -/
theorem units_le_byteSize (cs : List Char) : units cs ≤ (String.ofList cs).utf8ByteSize := by
  induction cs with
  | nil => exact Nat.zero_le _
  | cons c cs ih =>
      have hle := units16_le_utf8Size c
      rw [units, byteSize_cons]
      omega

end Text
end ScopeTrack
