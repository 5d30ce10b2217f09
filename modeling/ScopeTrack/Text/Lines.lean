/-
# Lines of a text

A text is cut at each line feed, so it has one line more than it has line feeds
and its last line may be empty.  Joining the lines gives back the text
(`unlines_lines`), and lines that hold no line feed are found again in the text
they are joined to (`lines_unlines`).
-/

namespace ScopeTrack
namespace Text

/-- The pieces of a text between its line feeds. -/
def lines (text : String) : List String :=
  (text.toList.splitOn '\n').map String.ofList

/-- The text that has the given lines. -/
def unlines (parts : List String) : String :=
  "\n".intercalate parts

/-- There is a line even in the empty text: cutting gives one piece at least. -/
theorem lines_ne_nil (text : String) : lines text ≠ [] := by
  simp [lines, List.splitOn_ne_nil]

/-- **A text is the join of its lines.**  Cutting loses nothing but the line feeds, and
joining puts them back. -/
theorem unlines_lines (text : String) : unlines (lines text) = text := by
  apply String.toList_inj.1
  have h : (List.map String.toList (lines text)) = text.toList.splitOn '\n' := by
    simp [lines, Function.comp_def]
  rw [unlines, String.toList_intercalate, h]
  exact List.intercalate_splitOn '\n'

/-- **Lines are found again in the text they are joined to**, as long as none of them
can be cut itself.  There has to be one, because a text is never without lines. -/
theorem lines_unlines {parts : List String} (nonempty : parts ≠ [])
    (single : ∀ part ∈ parts, '\n' ∉ part.toList) : lines (unlines parts) = parts := by
  have h : (parts.map String.toList) ≠ [] := by simpa using nonempty
  have hs : ∀ l ∈ parts.map String.toList, '\n' ∉ l := by simpa using single
  simp only [lines, unlines, String.toList_intercalate]
  rw [show "\n".toList = ['\n'] from rfl, List.splitOn_intercalate '\n' hs h]
  simp

end Text
end ScopeTrack
