/-
# The line of a byte offset

Every offset, also one past the end of the text, is found on one of the lines of
the text (`find_fst_bounds`).  A text has at most one line more than it has bytes
(`lineCount_le`), so the numbers of the lines of a text of less than `2 ^ 32 - 1`
bytes fit into 32 bits (`lineCount_lt`).  Where they do, a location names the line
that was found (`line_location`, `location_line_bounds`).
-/

import ScopeTrack.Source.LineIndex

namespace ScopeTrack

/-- A list is cut into at most one piece more than it has members. -/
theorem Text.length_splitOn_le (c : Char) (cs : List Char) :
    (cs.splitOn c).length ≤ cs.length + 1 := by
  induction cs with
  | nil => simp
  | cons d cs ih =>
      rw [List.splitOn_cons_eq_if_modifyHead]
      split
      · rw [List.length_cons, List.length_cons]
        omega
      · rw [List.length_modifyHead, List.length_cons]
        omega

theorem Text.length_le_byteSize (cs : List Char) :
    cs.length ≤ (String.ofList cs).utf8ByteSize := by
  induction cs with
  | nil => simp
  | cons c cs ih =>
      have hpos := c.utf8Size_pos
      rw [String.ofList_cons, String.utf8ByteSize_append, String.utf8ByteSize_singleton,
        List.length_cons]
      omega

namespace LineIndex

/-- A text has at most one line more than it has bytes. -/
theorem lineCount_le (text : String) : (ofText text).lineCount ≤ text.utf8ByteSize + 1 := by
  have hlines := Text.length_splitOn_le '\n' text.toList
  have hbytes := Text.length_le_byteSize text.toList
  rw [String.ofList_toList] at hbytes
  rw [lineCount, ofText, Text.lines, List.length_map]
  omega

/-- **The lines of a text of less than `2 ^ 32 - 1` bytes can be numbered in 32 bits.**
With `2 ^ 32 - 1` line feeds there would be one line too many. -/
theorem lineCount_lt {text : String} (hsize : text.utf8ByteSize < UInt32.size - 1) :
    (ofText text).lineCount < UInt32.size := by
  have hcount := lineCount_le text
  omega

/-- Whatever the offset, it is found on one of the lines. -/
theorem find_fst_bounds {lines : List String} (hlines : lines ≠ []) (first offset : Nat) :
    first ≤ (find first lines offset).1 ∧
      (find first lines offset).1 < first + lines.length := by
  induction lines generalizing first offset with
  | nil => exact absurd rfl hlines
  | cons line rest ih =>
      cases rest with
      | nil => simp [find]
      | cons next rest =>
          rw [find]
          split
          · rw [List.length_cons]
            omega
          · have := ih (List.cons_ne_nil _ _) (first + 1) (offset - (line.utf8ByteSize + 1))
            rw [List.length_cons]
            omega

/-- The line that is found is the line of the location, as far as the lines can be
numbered. -/
theorem line_location {text : String} (hcount : (ofText text).lineCount < UInt32.size)
    (offset : Nat) :
    ((ofText text).location offset).line.toNat = (find 1 (Text.lines text) offset).1 := by
  have hbounds := find_fst_bounds (Text.lines_ne_nil text) 1 offset
  change (Text.lines text).length < UInt32.size at hcount
  have hlt : (find 1 (Text.lines text) offset).1 < UInt32.size := by omega
  exact UInt32.toNat_ofNat_of_lt' hlt

/-- **A location is on a line of the text**, wherever the offset is. -/
theorem location_line_bounds {text : String} (hcount : (ofText text).lineCount < UInt32.size)
    (offset : Nat) :
    1 ≤ ((ofText text).location offset).line.toNat ∧
      ((ofText text).location offset).line.toNat ≤ (ofText text).lineCount := by
  have hbounds := find_fst_bounds (Text.lines_ne_nil text) 1 offset
  rw [line_location hcount]
  change _ ∧ _ ≤ (Text.lines text).length
  omega

end LineIndex
end ScopeTrack
