/-
# Sites in any order

Where no two sites have the same rank, the order of the sites is strict: sites on
one line go by their columns, and sites of one column by their sequence.  There is
one such order, so the sites on a line come out the same whatever order they are
given in (`onLine_eq_of_perm`), and so does the patched text
(`splice_any_order`).
-/

import Mathlib.Data.List.Nodup
import ScopeTrack.Proofs.Patch.Insertion

namespace ScopeTrack

/-- The order of sites on one line: by column, and by sequence where the column is
the same. -/
def UpdateSite.Before (a b : UpdateSite) : Prop :=
  a.location.column < b.location.column ∨
    (a.location.column = b.location.column ∧ a.sequence < b.sequence)

/-- Of two sites on one line that are told apart, the first stands before the
other. -/
theorem UpdateSite.before_of_precedes {a b : UpdateSite} (hline : a.line = b.line)
    (hrank : a.rank ≠ b.rank) (h : a.precedes b = true) : a.Before b := by
  have hnot : ¬ b.precedes a = true := fun hba => hrank (rank_eq_iff.2 ⟨h, hba⟩)
  rw [precedes_iff] at h hnot
  unfold Before
  rw [UInt32.lt_iff_toNat_lt, ← UInt32.toNat_inj]
  omega

namespace Patch

variable {sites others : List UpdateSite}

/-- The sites on a line stand strictly one before the other. -/
theorem onLine_strict (distinct : sites.Pairwise fun a b => a.rank ≠ b.rank) (number : Nat) :
    (onLine sites number).Pairwise UpdateSite.Before := by
  have hdistinct : (onLine sites number).Pairwise fun a b => a.rank ≠ b.rank :=
    ((onLine_perm sites number).pairwise_iff Ne.symm).2 (distinct.filter _)
  refine ((onLine_pairwise sites number).and hdistinct).imp_of_mem ?_
  rintro a b ha hb ⟨hprecedes, hrank⟩
  have hline : a.line = b.line := by
    rw [(mem_of_mem_onLine ha).2, (mem_of_mem_onLine hb).2]
  exact UpdateSite.before_of_precedes hline hrank hprecedes

/-- The sites on a line do not depend on the order in which all sites are given. -/
theorem onLine_eq_of_perm (distinct : sites.Pairwise fun a b => a.rank ≠ b.rank)
    (perm : others.Perm sites) (number : Nat) : onLine others number = onLine sites number := by
  have hperm : (onLine others number).Perm (onLine sites number) :=
    (onLine_perm others number).trans ((perm.filter _).trans (onLine_perm sites number).symm)
  apply hperm.eq_of_pairwise _ (onLine_pairwise others number) (onLine_pairwise sites number)
  intro a b ha hb hab hba
  have hin : a ∈ sites := perm.mem_iff.1 (mem_of_mem_onLine ha).1
  have hin' : b ∈ sites := (mem_of_mem_onLine hb).1
  have hnodup : (sites.map UpdateSite.rank).Nodup := List.pairwise_map.2 distinct
  exact List.inj_on_of_nodup_map hnodup hin hin' (UpdateSite.rank_eq_iff.2 ⟨hab, hba⟩)

/-- **Splicing does not depend on the order of the sites** if no two of them have
the same rank: whatever order they are given in, the text is each line followed by
the patches of the sites on it, by column and sequence, and nothing else. -/
theorem splice_any_order {lines : List String}
    (bounded : ∀ site ∈ sites, 1 ≤ site.line ∧ site.line ≤ lines.length)
    (distinct : sites.Pairwise fun a b => a.rank ≠ b.rank) :
    ∃ here : Nat → List UpdateSite,
      (∀ number, (here number).Perm (sites.filter fun site => site.line == number) ∧
        (here number).Pairwise UpdateSite.Before) ∧
      ∀ given, given.Perm sites → splice lines given =
        .ok (Text.unlines
          (interleave (fun number => (here number).map UpdateSite.patch) 1 lines)) := by
  refine ⟨onLine sites, fun number => ⟨onLine_perm sites number, onLine_strict distinct number⟩,
    fun given perm => ?_⟩
  have hbounded : ∀ site ∈ given, 1 ≤ site.line ∧ site.line ≤ lines.length :=
    fun site hsite => bounded site (perm.mem_iff.1 hsite)
  rw [splice, spliceLines_eq hbounded, funext (onLine_eq_of_perm distinct perm)]
  rfl

/-- Three sites, two of them at one place, from the last to the first. -/
def backwardSites : List UpdateSite :=
  [⟨⟨2, 1⟩, 2, none, "C"⟩, ⟨⟨1, 6⟩, 1, none, "B"⟩, ⟨⟨1, 6⟩, 0, none, "A"⟩]

/-- Given backwards or forwards, the two patches at one place come in the order of their
numbers. -/
theorem splice_any_order_backward :
    (∀ site ∈ backwardSites, 1 ≤ site.line ∧ site.line ≤ ["a", "b"].length) ∧
      (backwardSites.Pairwise fun a b => a.rank ≠ b.rank) ∧
      splice ["a", "b"] backwardSites = .ok "a\nA\nB\nb\nC" ∧
      splice ["a", "b"] backwardSites.reverse = splice ["a", "b"] backwardSites := by
  have bounded : ∀ site ∈ backwardSites, 1 ≤ site.line ∧ site.line ≤ ["a", "b"].length := by
    decide
  have distinct : backwardSites.Pairwise fun a b => a.rank ≠ b.rank := by decide
  obtain ⟨here, -, hsplice⟩ := splice_any_order bounded distinct
  refine ⟨bounded, distinct, ?_, ?_⟩
  · -- The sites descend already, so sorting them leaves them as they are.
    have hsorted : descending backwardSites = backwardSites :=
      List.mergeSort_of_pairwise (by decide)
    rw [splice_of_bounded bounded, lastPass, hsorted]
    decide
  · rw [hsplice _ (List.reverse_perm backwardSites), hsplice _ (List.Perm.refl backwardSites)]

end Patch
end ScopeTrack
