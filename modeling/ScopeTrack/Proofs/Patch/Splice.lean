/-
# Where spliced patches stand

Splicing goes through the lines from the last to the first and takes, for each,
the pending sites that come next as long as they are on that line.  As the sites
are in descending order, these are all sites on the line, and the others are on
earlier lines (`span_of_descending`).  So the result is the lines in order, each
followed by the patches of the sites on it (`spliceLines_eq`), and these sites
are in ascending order (`onLine_pairwise`).

A line has all earlier lines before it, and the patches of all sites on them
(`length_interleave_onLine`), which tells the position of every line.
-/

import Mathlib.Data.List.TakeDrop
import ScopeTrack.Patch

namespace ScopeTrack

namespace UpdateSite

/-- The number of the line of a site. -/
def line (site : UpdateSite) : Nat :=
  site.location.line.toNat

/-- Sites are ordered by line, column and sequence. -/
theorem precedes_iff {a b : UpdateSite} :
    a.precedes b = true ↔
      a.line < b.line ∨ (a.line = b.line ∧
        (a.location.column.toNat < b.location.column.toNat ∨
          (a.location.column.toNat = b.location.column.toNat ∧ a.sequence ≤ b.sequence))) := by
  obtain ⟨⟨la, ca⟩, sa, ka, pa⟩ := a
  obtain ⟨⟨lb, cb⟩, sb, kb, pb⟩ := b
  simp only [precedes, line, Location.lt_def, Location.mk.injEq, Bool.or_eq_true,
    Bool.and_eq_true, decide_eq_true_eq, UInt32.lt_iff_toNat_lt, ← UInt32.toNat_inj]
  omega

theorem precedes_trans {a b c : UpdateSite} (hab : a.precedes b = true)
    (hbc : b.precedes c = true) : a.precedes c = true := by
  rw [precedes_iff] at *
  omega

/-- Of two sites one comes first, or each does.  Both happens to sites of equal location
and sequence, which the order cannot tell apart. -/
theorem precedes_total (a b : UpdateSite) : (a.precedes b || b.precedes a) = true := by
  rw [Bool.or_eq_true, precedes_iff, precedes_iff]
  omega

theorem line_le_of_precedes {a b : UpdateSite} (h : a.precedes b = true) : a.line ≤ b.line := by
  rw [precedes_iff] at h
  omega

end UpdateSite

namespace Patch

/-! ## The sites in descending order -/

theorem descending_perm (sites : List UpdateSite) : (descending sites).Perm sites :=
  List.mergeSort_perm _ _

/-- The later site comes first.  Sorting asks for an order that is transitive and total,
here the one of the sites turned around. -/
theorem descending_pairwise (sites : List UpdateSite) :
    (descending sites).Pairwise fun a b => b.precedes a = true := by
  apply List.pairwise_mergeSort
  · intro a b c hab hbc
    exact UpdateSite.precedes_trans hbc hab
  · intro a b
    exact UpdateSite.precedes_total b a

/-- The sites on a line, from the first to the last. -/
def onLine (sites : List UpdateSite) (number : Nat) : List UpdateSite :=
  (descending sites).reverse.filter fun site => site.line == number

/-- The sites on a line are those of all sites whose line it is, in another order. -/
theorem onLine_perm (sites : List UpdateSite) (number : Nat) :
    (onLine sites number).Perm (sites.filter fun site => site.line == number) :=
  ((List.reverse_perm _).trans (descending_perm sites)).filter _

theorem mem_of_mem_onLine {sites : List UpdateSite} {number : Nat} {site : UpdateSite}
    (h : site ∈ onLine sites number) : site ∈ sites ∧ site.line = number := by
  have hmem := (onLine_perm sites number).mem_iff.1 h
  simpa using List.mem_filter.1 hmem

/-- The sites on a line are in ascending order. -/
theorem onLine_pairwise (sites : List UpdateSite) (number : Nat) :
    (onLine sites number).Pairwise fun a b => a.precedes b = true :=
  (List.pairwise_reverse.2 (descending_pairwise sites)).filter _

/-- Of sites in descending order that are on no line after a given one, those on
that line come first. -/
theorem span_of_descending {number : Nat} {pending : List UpdateSite}
    (sorted : pending.Pairwise fun a b => b.line ≤ a.line)
    (bounded : ∀ site ∈ pending, site.line ≤ number) :
    (pending.span fun site => site.line == number) =
      (pending.filter fun site => site.line == number,
        pending.filter fun site => site.line != number) := by
  rw [List.span_eq_takeWhile_dropWhile]
  induction pending with
  | nil => rfl
  | cons site pending ih =>
      obtain ⟨hbefore, hsorted⟩ := List.pairwise_cons.1 sorted
      obtain ⟨hsite, hbounded⟩ := List.forall_mem_cons.1 bounded
      by_cases hline : site.line = number
      · have := Prod.mk.inj (ih hsorted hbounded)
        simp [hline, this.1, this.2]
      · have hearlier : ∀ other ∈ pending, other.line ≠ number := by
          intro other hother
          have := hbefore other hother
          omega
        have hkept : (pending.filter fun other => other.line != number) = pending := by
          apply List.filter_eq_self.2
          intro other hother
          exact bne_iff_ne.2 (hearlier other hother)
        simpa [hline, hkept] using hearlier

/-! ## Lines with patches between them -/

/-- Lines, numbered from `first` on, each followed by the patches for its
number. -/
def interleave (patches : Nat → List String) (first : Nat) : List String → List String
  | [] => []
  | line :: lines => line :: (patches first ++ interleave patches (first + 1) lines)

/-- Lines in two groups are numbered on from the first group to the second. -/
theorem interleave_append (patches : Nat → List String) (first : Nat) (lines others : List String) :
    interleave patches first (lines ++ others) =
      interleave patches first lines ++ interleave patches (first + lines.length) others := by
  induction lines generalizing first with
  | nil => rfl
  | cons line lines ih =>
      have hnumber : first + 1 + lines.length = first + (line :: lines).length := by
        rw [List.length_cons]
        omega
      rw [List.cons_append, interleave, interleave, ih, hnumber, List.cons_append,
        List.append_assoc]

/-- Only the patches for the numbers of the lines matter. -/
theorem interleave_congr {patches others : Nat → List String} {first : Nat} {lines : List String}
    (h : ∀ number, first ≤ number → number < first + lines.length →
      patches number = others number) :
    interleave patches first lines = interleave others first lines := by
  induction lines generalizing first with
  | nil => rfl
  | cons line lines ih =>
      rw [List.length_cons] at h
      rw [interleave, interleave, h first (by omega) (by omega),
        ih fun number hfirst hnumber => h number (by omega) (by omega)]

/-- There is nothing in the result but lines and patches. -/
theorem mem_interleave {patches : Nat → List String} {first : Nat} {lines : List String}
    {part : String} (h : part ∈ interleave patches first lines) :
    part ∈ lines ∨ ∃ number, part ∈ patches number := by
  induction lines generalizing first with
  | nil => cases h
  | cons line lines ih =>
      rw [interleave, List.mem_cons, List.mem_append] at h
      rcases h with rfl | h | h
      · exact .inl List.mem_cons_self
      · exact .inr ⟨first, h⟩
      · exact (ih h).imp_left (List.mem_cons_of_mem _)

/-- One line of the way back: the sites that come next and are on the line give their
patches, and the rest stays pending. -/
theorem weave_cons (number : Nat) (line : String) (earlier : List String)
    (pending : List UpdateSite) (finished : List String) :
    weave number (line :: earlier) pending finished =
      weave (number - 1) earlier (pending.span fun site => site.line == number).2
        (line :: (((pending.span fun site => site.line == number).1.map UpdateSite.patch).reverse ++
          finished)) :=
  rfl

/-- **Going through the lines backwards puts the patches in their places.**  -/
theorem weave_eq {number : Nat} {earlier : List String} {pending : List UpdateSite}
    (hnumber : earlier.length = number) (sorted : pending.Pairwise fun a b => b.line ≤ a.line)
    (bounded : ∀ site ∈ pending, site.line ≤ number) (finished : List String) :
    weave number earlier pending finished =
      interleave
          (fun k => ((pending.filter fun site => site.line == k).map UpdateSite.patch).reverse)
          1 earlier.reverse ++ finished := by
  induction earlier generalizing number pending finished with
  | nil => rfl
  | cons line earlier ih =>
      obtain rfl : number = earlier.length + 1 := hnumber.symm
      have hbounded : ∀ site ∈ pending.filter fun site => site.line != earlier.length + 1,
          site.line ≤ earlier.length := by
        intro site hsite
        obtain ⟨hmem, hne⟩ := List.mem_filter.1 hsite
        have hle := bounded site hmem
        rw [bne_iff_ne] at hne
        omega
      rw [weave_cons, span_of_descending sorted bounded, Nat.add_sub_cancel,
        ih rfl (sorted.filter _) hbounded, List.reverse_cons, interleave_append,
        List.append_assoc]
      congr 1
      · apply interleave_congr
        intro k _ hk
        rw [List.length_reverse] at hk
        have hsame : ∀ site ∈ pending,
            (site.line == k && site.line != earlier.length + 1) = (site.line == k) := by
          intro site _
          by_cases hsite : site.line = k
          · have : k ≠ earlier.length + 1 := by omega
            simp [hsite, this]
          · simp [hsite]
        rw [List.filter_filter, List.filter_congr hsame]
      · rw [List.length_reverse, Nat.add_comm 1]
        simp [interleave]

theorem inRange_iff {count : Nat} {site : UpdateSite} :
    inRange count site = true ↔ 1 ≤ site.line ∧ site.line ≤ count := by
  simp [inRange, UpdateSite.line]

/-- Splicing goes through the lines where those of all sites are there. -/
theorem spliceLines_of_bounded {lines : List String} {sites : List UpdateSite}
    (bounded : ∀ site ∈ sites, 1 ≤ site.line ∧ site.line ≤ lines.length) :
    spliceLines lines sites = .ok (weave lines.length lines.reverse (descending sites) []) := by
  have hfind : (sites.find? fun site => !inRange lines.length site) = none := by
    apply List.find?_eq_none.2
    intro site hsite
    simp [inRange_iff.2 (bounded site hsite)]
  rw [spliceLines, hfind]

/-- **What splicing gives**: the lines in order, each followed by the patches of
the sites on it. -/
theorem spliceLines_eq {lines : List String} {sites : List UpdateSite}
    (bounded : ∀ site ∈ sites, 1 ≤ site.line ∧ site.line ≤ lines.length) :
    spliceLines lines sites =
      .ok (interleave (fun number => (onLine sites number).map UpdateSite.patch) 1 lines) := by
  have hsorted : (descending sites).Pairwise fun a b => b.line ≤ a.line :=
    (descending_pairwise sites).imp UpdateSite.line_le_of_precedes
  have hbounded : ∀ site ∈ descending sites, site.line ≤ lines.length := fun site hsite =>
    (bounded site ((descending_perm sites).mem_iff.1 hsite)).2
  rw [spliceLines_of_bounded bounded, weave_eq List.length_reverse hsorted hbounded,
    List.append_nil, List.reverse_reverse]
  simp only [onLine, List.filter_reverse, List.map_reverse]

/-! ## Positions -/

/-- The number of sites on lines before the given one. -/
def countBefore (sites : List UpdateSite) (number : Nat) : Nat :=
  sites.countP fun site => site.line < number

/-- One line further there are the sites on that line in addition.  By cases on where
each site stands, before the line, on it or behind it. -/
theorem countBefore_succ (sites : List UpdateSite) (number : Nat) :
    countBefore sites (number + 1) = countBefore sites number + (onLine sites number).length := by
  rw [(onLine_perm sites number).length_eq, ← List.countP_eq_length_filter]
  unfold countBefore
  induction sites with
  | nil => rfl
  | cons site sites ih =>
      rw [List.countP_cons, List.countP_cons, List.countP_cons, ih]
      by_cases hlt : site.line < number
      · have hle : site.line < number + 1 := by omega
        have hne : site.line ≠ number := by omega
        simp [hlt, hle, hne]
        omega
      · by_cases heq : site.line = number
        · simp [heq]
          omega
        · have hle : ¬ site.line < number + 1 := by omega
          simp [hlt, heq, hle]

/-- **The room that lines take** is one for each line and one for each site on
them. -/
theorem length_interleave_onLine (sites : List UpdateSite) (first : Nat) (lines : List String) :
    (interleave (fun number => (onLine sites number).map UpdateSite.patch) first lines).length +
        countBefore sites first =
      lines.length + countBefore sites (first + lines.length) := by
  induction lines generalizing first with
  | nil => simp [interleave]
  | cons line lines ih =>
      have hrest := ih (first + 1)
      have hcount := countBefore_succ sites first
      have hnumber : first + (lines.length + 1) = first + 1 + lines.length := by omega
      rw [interleave, List.length_cons, List.length_append, List.length_map, List.length_cons,
        hnumber]
      omega

end Patch
end ScopeTrack
