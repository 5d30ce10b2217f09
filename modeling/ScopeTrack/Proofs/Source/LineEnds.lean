/-
# Where lines end

The end of a line is the offset of the line feed that closes it, or the end of
the text.  An offset is on one of the first lines just if it is not past the end
of the last of them (`lineOf_le_iff`), so the ends of the lines tell all that a
location says of the line of an offset.
-/

import ScopeTrack.Proofs.Source.Lines
import ScopeTrack.Proofs.Text.SingleLine

namespace ScopeTrack

/-- The number of bytes in front of the end of a line, of which the number is
given. -/
def Text.lineEnd (text : String) (number : Nat) : Nat :=
  (Text.unlines ((Text.lines text).take number)).utf8ByteSize

theorem Text.unlines_singleton (line : String) : unlines [line] = line := by
  simp [unlines]

theorem Text.unlines_cons (line : String) {rest : List String} (h : rest ≠ []) :
    unlines (line :: rest) = line ++ "\n" ++ unlines rest := by
  have happend := unlines_append (List.cons_ne_nil line []) h
  rwa [List.cons_append, List.nil_append, unlines_singleton] at happend

/-- The bytes of a text are those of its first line, one for the line feed, and those of
the rest. -/
theorem Text.byteSize_unlines_cons (line : String) {rest : List String} (h : rest ≠ []) :
    (unlines (line :: rest)).utf8ByteSize =
      line.utf8ByteSize + 1 + (unlines rest).utf8ByteSize := by
  have hfeed : "\n".utf8ByteSize = 1 := rfl
  rw [unlines_cons line h, String.utf8ByteSize_append, String.utf8ByteSize_append, hfeed]

namespace LineIndex

/-- The number of the line of an offset. -/
def lineOf (index : LineIndex) (offset : Nat) : Nat :=
  (index.location offset).line.toNat

/-- An offset is found on one of the first lines just if it is not past the end
of the last of them. -/
theorem find_fst_le_iff {lines : List String} {number offset : Nat} (first : Nat)
    (hnumber : number < lines.length) (hoffset : offset ≤ (Text.unlines lines).utf8ByteSize) :
    (find first lines offset).1 ≤ first + number ↔
      offset ≤ (Text.unlines (lines.take (number + 1))).utf8ByteSize := by
  induction lines generalizing first number offset with
  | nil => exact absurd hnumber (Nat.not_lt_zero number)
  | cons line rest ih =>
      cases rest with
      | nil =>
          have htake : [line].take (number + 1) = [line] := by simp
          rw [htake]
          simpa [find] using hoffset
      | cons next rest =>
          have hsize := Text.byteSize_unlines_cons line (List.cons_ne_nil next rest)
          have hfirst := (find_fst_bounds (List.cons_ne_nil next rest) (first + 1)
            (offset - (line.utf8ByteSize + 1))).1
          rw [List.length_cons] at hnumber
          rw [find, List.take_succ_cons]
          -- The offset is on the first line, or it is looked for behind it, one line less
          -- far on.
          cases number with
          | zero =>
              rw [List.take_zero, Text.unlines_singleton]
              split
              · exact ⟨fun _ => ‹_›, fun _ => Nat.le_refl first⟩
              · omega
          | succ number =>
              have htaken : (next :: rest).take (number + 1) ≠ [] := by simp
              rw [Text.byteSize_unlines_cons line htaken]
              split
              · omega
              · have hlater : number < (next :: rest).length := by omega
                have hleft : offset - (line.utf8ByteSize + 1) ≤
                    (Text.unlines (next :: rest)).utf8ByteSize := by omega
                have hrest := ih (first + 1) hlater hleft
                omega

/-- **The lines of offsets are told by the ends of the lines.**  -/
theorem lineOf_le_iff {text : String} (hcount : (ofText text).lineCount < UInt32.size)
    {number offset : Nat} (hpos : 1 ≤ number) (hnumber : number ≤ (ofText text).lineCount)
    (hoffset : offset ≤ text.utf8ByteSize) :
    (ofText text).lineOf offset ≤ number ↔ offset ≤ Text.lineEnd text number := by
  obtain ⟨number, rfl⟩ : ∃ previous, number = 1 + previous := ⟨number - 1, by omega⟩
  have hlength : number < (Text.lines text).length := by
    change 1 + number ≤ (Text.lines text).length at hnumber
    omega
  rw [lineOf, line_location hcount, find_fst_le_iff 1 hlength (by rwa [Text.unlines_lines]),
    Text.lineEnd, Nat.add_comm 1 number]

end LineIndex
end ScopeTrack
