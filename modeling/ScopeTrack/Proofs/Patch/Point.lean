/-
# The point at which a patch is put

The patch of a site is put at the end of the site's line (`UpdateSite.point`):
what is in front of that offset comes before the patch, and what is behind it
comes after (`splice_at_point`).  The point depends on nothing but the line of
the site, so what stands on that line behind the construct that changes a
variable comes before the patch too.
-/

import ScopeTrack.Proofs.Patch.Splice
import ScopeTrack.Proofs.Source.LineEnds

namespace ScopeTrack

/-- The offset in a source text at which the patch of a site is put. -/
def UpdateSite.point (source : String) (site : UpdateSite) : Nat :=
  Text.lineEnd source site.line

/-- A line that is put between lines, or after the last of them, has the text of
the lines before it in front and the rest behind it. -/
theorem Text.exists_unlines_insert {parts : List String} (hparts : parts ≠ [])
    (others : List String) :
    ∃ after, unlines (parts ++ others) = unlines parts ++ after ∧
      ∀ line, unlines (parts ++ line :: others) = unlines parts ++ "\n" ++ line ++ after := by
  cases others with
  | nil =>
      refine ⟨"", by simp, ?_⟩
      intro line
      rw [unlines_append hparts (List.cons_ne_nil line []), unlines_singleton, String.append_empty]
  | cons other others =>
      have hothers := List.cons_ne_nil other others
      refine ⟨"\n" ++ unlines (other :: others), ?_, ?_⟩
      · rw [unlines_append hparts hothers, String.append_assoc]
      · intro line
        rw [unlines_append hparts (List.cons_ne_nil line _), unlines_cons line hothers]
        simp only [String.append_assoc]

namespace Patch

/-- Lines for which there are no patches stay as they are. -/
theorem interleave_eq_self {patches : Nat → List String} {first : Nat} {lines : List String}
    (h : ∀ number, first ≤ number → number < first + lines.length → patches number = []) :
    interleave patches first lines = lines := by
  induction lines generalizing first with
  | nil => rfl
  | cons line lines ih =>
      rw [List.length_cons] at h
      rw [interleave, h first (by omega) (by omega), List.nil_append,
        ih fun number hfirst hnumber => h number (by omega) (by omega)]

/-- The patches for one line stand right after it. -/
theorem interleave_eq_of_single {patches : Nat → List String} {number : Nat} {lines : List String}
    (hnumber : number < lines.length) (h : ∀ other, other ≠ number + 1 → patches other = []) :
    interleave patches 1 lines =
      lines.take (number + 1) ++ (patches (number + 1) ++ lines.drop (number + 1)) := by
  have hlength : (lines.take number).length = number := List.length_take_of_le (by omega)
  have hsplit : lines = lines.take number ++ lines[number] :: lines.drop (number + 1) := by
    rw [← List.drop_eq_getElem_cons hnumber, List.take_append_drop]
  have hbefore : interleave patches 1 (lines.take number) = lines.take number := by
    apply interleave_eq_self
    intro other _ hother
    exact h other (by omega)
  have hafter : interleave patches (1 + number + 1) (lines.drop (number + 1)) =
      lines.drop (number + 1) := by
    apply interleave_eq_self
    intro other hother _
    exact h other (by omega)
  calc interleave patches 1 lines
      = interleave patches 1 (lines.take number ++ lines[number] :: lines.drop (number + 1)) := by
        rw [← hsplit]
    _ = lines.take number ++
          lines[number] :: (patches (1 + number) ++ lines.drop (number + 1)) := by
        rw [interleave_append, hlength, interleave, hbefore, hafter]
    _ = _ := by
        rw [List.take_succ_eq_append_getElem hnumber, List.append_assoc, Nat.add_comm 1 number]
        rfl

/-- A site alone is on its own line and on no other. -/
theorem onLine_single (site : UpdateSite) (number : Nat) :
    onLine [site] number = if site.line = number then [site] else [] := by
  simp [onLine, descending, List.filter_cons]

/-- **A patch is put at the point of its site**, on a line of its own. -/
theorem splice_at_point {source : String} {site : UpdateSite} (hpos : 1 ≤ site.line)
    (hle : site.line ≤ (LineIndex.ofText source).lineCount) :
    ∃ before after, source = before ++ after ∧ before.utf8ByteSize = site.point source ∧
      splice (Text.lines source) [site] = .ok (before ++ "\n" ++ site.patch ++ after) := by
  obtain ⟨number, hline⟩ : ∃ number, site.line = number + 1 := ⟨site.line - 1, by omega⟩
  change site.line ≤ (Text.lines source).length at hle
  have hnumber : number < (Text.lines source).length := by omega
  have hothers : ∀ other, other ≠ number + 1 →
      (onLine [site] other).map UpdateSite.patch = [] := by
    intro other hother
    rw [onLine_single, if_neg (by omega), List.map_nil]
  have hhere : (onLine [site] (number + 1)).map UpdateSite.patch = [site.patch] := by
    rw [onLine_single, if_pos hline, List.map_singleton]
  have htaken : (Text.lines source).take (number + 1) ≠ [] :=
    List.ne_nil_of_length_pos (by rw [List.length_take]; omega)
  obtain ⟨after, hsource, hinsert⟩ :=
    Text.exists_unlines_insert htaken ((Text.lines source).drop (number + 1))
  refine ⟨Text.unlines ((Text.lines source).take (number + 1)), after, ?_, ?_, ?_⟩
  · rw [← hsource, List.take_append_drop, Text.unlines_lines]
  · rw [UpdateSite.point, Text.lineEnd, hline]
  · have hbounded : ∀ other ∈ [site], 1 ≤ other.line ∧
        other.line ≤ (Text.lines source).length := by
      simpa using ⟨hpos, hle⟩
    rw [splice, spliceLines_eq hbounded, interleave_eq_of_single hnumber hothers, hhere,
      ← hinsert site.patch]
    rfl

end Patch
end ScopeTrack
