/-
# Patches put in one after the other

Splicing builds the patched text in one pass over the lines, from the last to the
first.  The plain way to the same text takes the sites from the last to the first
and puts each patch into the lines as they are then, right after the line of the
site (`insertPatch`).  No line in front of that place has moved, as all patches
that are in already stand after it; so a patch lands right after its own line and
before the patches that this line has got so far (`insertIdx_interleave`), and
after all of them each line is followed by its patches in order
(`foldl_insertPatch`), which is what the pass gives too (`weave_eq_foldl`).

The order in which the sites are taken is told without a sort: it descends, and
sites of one rank keep the order they are given in (`Descends`).  Only one list
does (`Descends.unique`).

`Inserts` puts this together with the sites that are refused, and
`splice_iff_inserts` says that splicing gives this and nothing else, and that its
pass leaves no site behind.
-/

import Mathlib.Logic.Function.Basic
import ScopeTrack.Proofs.Patch.Point

namespace ScopeTrack

namespace UpdateSite

/-- What tells sites apart in their order. -/
def rank (site : UpdateSite) : Location × Nat :=
  (site.location, site.sequence)

/-- Sites are in both orders just if nothing tells them apart. -/
theorem rank_eq_iff {a b : UpdateSite} :
    a.rank = b.rank ↔ a.precedes b = true ∧ b.precedes a = true := by
  obtain ⟨⟨la, ca⟩, sa, ka, pa⟩ := a
  obtain ⟨⟨lb, cb⟩, sb, kb, pb⟩ := b
  simp only [rank, precedes_iff, line, Prod.mk.injEq, Location.mk.injEq, ← UInt32.toNat_inj]
  omega

end UpdateSite

namespace Patch

/-! ## The order in which sites are taken -/

/-- The sites from the last to the first, where sites of one rank keep the order
in which they are given. -/
structure Descends (sites ordered : List UpdateSite) : Prop where
  sorted : ordered.Pairwise fun a b => b.precedes a = true
  /-- The sites of a rank are the given ones, in the order given. -/
  stable : ∀ rank, (ordered.filter fun site => site.rank = rank) =
    sites.filter fun site => site.rank = rank

/-- **A stable sort gives the order that is told.**  Sites of one rank come in the order
given, because they are in order already and sorting leaves such a part as it is. -/
theorem descends_descending (sites : List UpdateSite) : Descends sites (descending sites) := by
  refine ⟨descending_pairwise sites, fun rank => ?_⟩
  have htied : (sites.filter fun site => site.rank = rank).Pairwise
      fun a b => b.precedes a = true := by
    apply List.pairwise_of_forall_mem_list
    intro a ha b hb
    have hrank : b.rank = a.rank := by
      rw [of_decide_eq_true (List.mem_filter.1 ha).2, of_decide_eq_true (List.mem_filter.1 hb).2]
    exact (UpdateSite.rank_eq_iff.1 hrank).1
  -- Merge sort keeps every sublist that is in order, so also this one.
  have hkept : (sites.filter fun site => site.rank = rank).Sublist (descending sites) := by
    apply List.sublist_mergeSort _ _ htied List.filter_sublist
    · intro a b c hab hbc
      exact UpdateSite.precedes_trans hbc hab
    · intro a b
      exact UpdateSite.precedes_total b a
  have hfiltered := hkept.filter fun site => decide (site.rank = rank)
  rw [List.filter_filter] at hfiltered
  simp only [Bool.and_self] at hfiltered
  have hlength := ((descending_perm sites).filter fun site => decide (site.rank = rank)).length_eq
  exact (hfiltered.eq_of_length hlength.symm).symm

namespace Descends

variable {sites ordered others : List UpdateSite}

theorem mem_iff (h : Descends sites ordered) (site : UpdateSite) :
    site ∈ ordered ↔ site ∈ sites := by
  have hrank : ∀ list : List UpdateSite,
      site ∈ (list.filter fun other => other.rank = site.rank) ↔ site ∈ list := by
    simp
  rw [← hrank, h.stable, hrank]

/-- A list in descending order is told by its sites of each rank. -/
theorem eq_of_descends (h : Descends others ordered)
    (sorted : others.Pairwise fun a b => b.precedes a = true) : ordered = others := by
  induction ordered generalizing others with
  | nil =>
      cases others with
      | nil => rfl
      | cons other others => exact absurd ((h.mem_iff other).2 List.mem_cons_self) List.not_mem_nil
  | cons site ordered ih =>
      cases others with
      | nil => exact absurd ((h.mem_iff site).1 List.mem_cons_self) List.not_mem_nil
      | cons other others =>
          obtain ⟨hsite, hordered⟩ := List.pairwise_cons.1 h.sorted
          obtain ⟨hother, hothers⟩ := List.pairwise_cons.1 sorted
          -- Each head is in the other list, so neither precedes the other alone.
          have hrank : site.rank = other.rank := by
            rcases List.mem_cons.1 ((h.mem_iff site).1 List.mem_cons_self) with rfl | hin
            · rfl
            rcases List.mem_cons.1 ((h.mem_iff other).2 List.mem_cons_self) with rfl | hin'
            · rfl
            exact UpdateSite.rank_eq_iff.2 ⟨hother site hin, hsite other hin'⟩
          have hheads := h.stable site.rank
          rw [List.filter_cons_of_pos (by simp),
            List.filter_cons_of_pos (by simp [hrank])] at hheads
          obtain rfl : site = other := (List.cons.inj hheads).1
          have hrest : Descends others ordered := by
            refine ⟨hordered, fun rank => ?_⟩
            have hstable := h.stable rank
            by_cases hmatch : site.rank = rank
            · rw [List.filter_cons_of_pos (by simpa using hmatch),
                List.filter_cons_of_pos (by simpa using hmatch)] at hstable
              exact (List.cons.inj hstable).2
            · rwa [List.filter_cons_of_neg (by simpa using hmatch),
                List.filter_cons_of_neg (by simpa using hmatch)] at hstable
          rw [ih hrest hothers]

/-- **There is one such order.**  -/
theorem unique (h : Descends sites ordered) (h' : Descends sites others) : ordered = others := by
  have hsame : Descends others ordered :=
    ⟨h.sorted, fun rank => (h.stable rank).trans (h'.stable rank).symm⟩
  exact hsame.eq_of_descends h'.sorted

end Descends

/-! ## One patch after the other -/

/-- Puts the patch of a site right after the line of its number, among the lines
as they are. -/
def insertPatch (buffer : List String) (site : UpdateSite) : List String :=
  buffer.insertIdx site.line site.patch

/-- **One insertion**: where the lines before a given one have no patches, a patch
that is put after as many lines as there are up to that one stands right after it,
in front of the patches it has. -/
theorem insertIdx_interleave {patches : Nat → List String} {first number : Nat}
    {lines : List String} (patch : String) (hfirst : first ≤ number)
    (hnumber : number < first + lines.length)
    (hclear : ∀ earlier, first ≤ earlier → earlier < number → patches earlier = []) :
    (interleave patches first lines).insertIdx (number - first + 1) patch =
      interleave (Function.update patches number (patch :: patches number)) first lines := by
  induction lines generalizing first with
  | nil =>
      rw [List.length_nil] at hnumber
      omega
  | cons line lines ih =>
      rw [List.length_cons] at hnumber
      rw [interleave, interleave, List.insertIdx_succ_cons]
      rcases Nat.eq_or_lt_of_le hfirst with rfl | hlater
      · have hrest : interleave (Function.update patches first (patch :: patches first))
            (first + 1) lines = interleave patches (first + 1) lines := by
          apply interleave_congr
          intro other hother _
          exact Function.update_of_ne (by omega) _ _
        rw [Nat.sub_self, List.insertIdx_zero, Function.update_self, hrest, List.cons_append]
      · have hnone : patches first = [] := hclear first (Nat.le_refl first) hlater
        have hplace : number - first = number - (first + 1) + 1 := by omega
        have hinside : number < first + 1 + lines.length := by omega
        have hrest := ih hlater hinside fun earlier hearlier => hclear earlier (by omega)
        rw [Function.update_of_ne (by omega), hnone, List.nil_append, List.nil_append, hplace,
          hrest]

/-- **A run of insertions** from the last site to the first: each line is followed
by the patches of the sites on it, the one put in last in front, and then by those
it had before. -/
theorem foldl_insertPatch {lines : List String} {pending : List UpdateSite}
    {patches : Nat → List String} (sorted : pending.Pairwise fun a b => b.line ≤ a.line)
    (bounded : ∀ site ∈ pending, 1 ≤ site.line ∧ site.line ≤ lines.length)
    (clear : ∀ site ∈ pending, ∀ number < site.line, patches number = []) :
    pending.foldl insertPatch (interleave patches 1 lines) =
      interleave (fun k => ((pending.filter fun site => site.line == k).map
        UpdateSite.patch).reverse ++ patches k) 1 lines := by
  induction pending generalizing patches with
  | nil => rfl
  | cons site pending ih =>
      obtain ⟨hbefore, hsorted⟩ := List.pairwise_cons.1 sorted
      obtain ⟨⟨hpos, hle⟩, hbounded⟩ := List.forall_mem_cons.1 bounded
      obtain ⟨hclear, hclears⟩ := List.forall_mem_cons.1 clear
      have hstep : insertPatch (interleave patches 1 lines) site =
          interleave (Function.update patches site.line (site.patch :: patches site.line)) 1
            lines := by
        have hinside : site.line < 1 + lines.length := by omega
        have hinsert := insertIdx_interleave site.patch hpos hinside fun earlier _ =>
          hclear earlier
        rwa [Nat.sub_add_cancel hpos] at hinsert
      -- The sites to come are on no later line, so what is before them stays clear.
      have hstays : ∀ other ∈ pending, ∀ number < other.line,
          Function.update patches site.line (site.patch :: patches site.line) number = [] := by
        intro other hother number hnumber
        have hline := hbefore other hother
        rw [Function.update_of_ne (by omega)]
        exact hclears other hother number hnumber
      rw [List.foldl_cons, hstep, ih hsorted hbounded hstays]
      congr 1
      funext k
      by_cases hk : site.line = k
      · subst hk
        simp
      · rw [Function.update_of_ne (Ne.symm hk), List.filter_cons_of_neg (by simpa using hk)]

/-- **The pass over the lines gives what the insertions give.**  -/
theorem weave_eq_foldl {lines : List String} {pending : List UpdateSite}
    (sorted : pending.Pairwise fun a b => b.precedes a = true)
    (bounded : ∀ site ∈ pending, 1 ≤ site.line ∧ site.line ≤ lines.length) :
    weave lines.length lines.reverse pending [] = pending.foldl insertPatch lines := by
  have hlines := sorted.imp UpdateSite.line_le_of_precedes
  have hbare : interleave (fun _ => []) 1 lines = lines :=
    interleave_eq_self fun _ _ _ => rfl
  have hclear : ∀ site ∈ pending, ∀ number < site.line,
      (fun _ => [] : Nat → List String) number = [] := fun _ _ _ _ => rfl
  have hrun := foldl_insertPatch hlines bounded hclear
  rw [hbare] at hrun
  rw [weave_eq List.length_reverse hlines fun site hsite => (bounded site hsite).2,
    List.reverse_reverse, List.append_nil, hrun]
  simp only [List.append_nil]

/-! ## The end of the pass -/

/-- Where the pass over the lines stands: the sites that wait for their line, and
the lines that are finished. -/
structure Pass where
  pending : List UpdateSite
  finished : List String

namespace Pass

/-- The pass takes one more line, of the given number. -/
def step (pass : Pass) (number : Nat) (line : String) : Pass :=
  let (here, pending) := pass.pending.span fun site => site.line == number
  ⟨pending, line :: ((here.map UpdateSite.patch).reverse ++ pass.finished)⟩

/-- The pass over lines that come from the last, which has the given number, to
the first. -/
def run (number : Nat) : List String → Pass → Pass
  | [], pass => pass
  | line :: earlier, pass => run (number - 1) earlier (pass.step number line)

/-- The pass is the one that weaves. -/
theorem finished_run (number : Nat) (earlier : List String) (pass : Pass) :
    (run number earlier pass).finished = weave number earlier pass.pending pass.finished := by
  induction earlier generalizing number pass with
  | nil => rfl
  | cons line earlier ih =>
      rw [run, ih, weave_cons]
      rfl

/-- After a line, the pending sites are on earlier lines. -/
theorem pending_step {pass : Pass} {number : Nat} (line : String)
    (sorted : pass.pending.Pairwise fun a b => b.line ≤ a.line)
    (bounded : ∀ site ∈ pass.pending, site.line ≤ number + 1) :
    (pass.step (number + 1) line).pending.Sublist pass.pending ∧
      ∀ site ∈ (pass.step (number + 1) line).pending, site.line ≤ number := by
  have hpending : (pass.step (number + 1) line).pending =
      pass.pending.filter fun site => site.line != number + 1 := by
    rw [step, span_of_descending sorted bounded]
  rw [hpending]
  refine ⟨List.filter_sublist, fun site hsite => ?_⟩
  obtain ⟨hmem, hne⟩ := List.mem_filter.1 hsite
  have hle := bounded site hmem
  rw [bne_iff_ne] at hne
  omega

/-- **No site is left behind** when all lines have been taken. -/
theorem pending_run {number : Nat} {earlier : List String} {pass : Pass}
    (hnumber : earlier.length = number)
    (sorted : pass.pending.Pairwise fun a b => b.line ≤ a.line)
    (bounded : ∀ site ∈ pass.pending, 1 ≤ site.line ∧ site.line ≤ number) :
    (run number earlier pass).pending = [] := by
  induction earlier generalizing number pass with
  | nil =>
      rw [List.length_nil] at hnumber
      apply List.eq_nil_iff_forall_not_mem.2
      intro site hsite
      have := bounded site hsite
      omega
  | cons line earlier ih =>
      obtain rfl : number = earlier.length + 1 := hnumber.symm
      obtain ⟨hsublist, hbounded⟩ :=
        pending_step line sorted fun site hsite => (bounded site hsite).2
      rw [run]
      apply ih rfl (sorted.sublist hsublist)
      intro site hsite
      exact ⟨(bounded site (hsublist.subset hsite)).1, hbounded site hsite⟩

end Pass

/-- The end of the pass that splices sites into lines. -/
def lastPass (lines : List String) (sites : List UpdateSite) : Pass :=
  Pass.run lines.length lines.reverse ⟨descending sites, []⟩

/-! ## Splicing is insertion -/

/-- What inserting the patches of sites into lines one after the other comes to. -/
inductive Inserts (lines : List String) (sites : List UpdateSite) : Except Error String → Prop
  /-- The first site on a line that is not there refuses all. -/
  | refused {before after : List UpdateSite} {site : UpdateSite}
      (split : sites = before ++ site :: after)
      (bounded : ∀ earlier ∈ before, 1 ≤ earlier.line ∧ earlier.line ≤ lines.length)
      (outside : site.line = 0 ∨ lines.length < site.line) :
      Inserts lines sites (.error (.patchOutOfRange site.location lines.length))
  | inserted {ordered : List UpdateSite}
      (bounded : ∀ site ∈ sites, 1 ≤ site.line ∧ site.line ≤ lines.length)
      (descends : Descends sites ordered) :
      Inserts lines sites (.ok (Text.unlines (ordered.foldl insertPatch lines)))

/-- Splicing succeeds where the lines of all sites are there. -/
theorem splice_of_bounded {lines : List String} {sites : List UpdateSite}
    (bounded : ∀ site ∈ sites, 1 ≤ site.line ∧ site.line ≤ lines.length) :
    splice lines sites = .ok (Text.unlines (lastPass lines sites).finished) := by
  rw [splice, spliceLines_of_bounded bounded, lastPass, Pass.finished_run]
  rfl

/-- Splicing refuses the first site that is on no line. -/
theorem splice_of_outside {lines : List String} {before after : List UpdateSite}
    {site : UpdateSite}
    (bounded : ∀ earlier ∈ before, 1 ≤ earlier.line ∧ earlier.line ≤ lines.length)
    (outside : site.line = 0 ∨ lines.length < site.line) :
    splice lines (before ++ site :: after) =
      .error (.patchOutOfRange site.location lines.length) := by
  have hfind : ((before ++ site :: after).find? fun site => !inRange lines.length site) =
      some site := by
    apply List.find?_eq_some_iff_append.2
    refine ⟨?_, before, after, rfl, ?_⟩
    · have : ¬ (1 ≤ site.line ∧ site.line ≤ lines.length) := by omega
      simpa [← inRange_iff] using this
    · intro earlier hearlier
      simp [inRange_iff.2 (bounded earlier hearlier)]
  rw [splice, spliceLines, hfind]
  rfl

/-- Either the lines of all sites are there, or there is a first site on none. -/
theorem bounded_or_outside (count : Nat) (sites : List UpdateSite) :
    (∀ site ∈ sites, 1 ≤ site.line ∧ site.line ≤ count) ∨
      ∃ before site after, sites = before ++ site :: after ∧
        (∀ earlier ∈ before, 1 ≤ earlier.line ∧ earlier.line ≤ count) ∧
        (site.line = 0 ∨ count < site.line) := by
  induction sites with
  | nil => exact .inl fun site hsite => absurd hsite List.not_mem_nil
  | cons site sites ih =>
      by_cases hsite : 1 ≤ site.line ∧ site.line ≤ count
      · rcases ih with hbounded | ⟨before, other, after, rfl, hbounded, houtside⟩
        · exact .inl (List.forall_mem_cons.2 ⟨hsite, hbounded⟩)
        · exact .inr ⟨site :: before, other, after, rfl,
            List.forall_mem_cons.2 ⟨hsite, hbounded⟩, houtside⟩
      · refine .inr ⟨[], site, sites, rfl, fun _ h => absurd h List.not_mem_nil, ?_⟩
        omega

/-- Going through the lines backwards gives what inserting the patches one by one gives,
in the order told. -/
theorem finished_lastPass {lines : List String} {sites ordered : List UpdateSite}
    (bounded : ∀ site ∈ sites, 1 ≤ site.line ∧ site.line ≤ lines.length)
    (descends : Descends sites ordered) :
    (lastPass lines sites).finished = ordered.foldl insertPatch lines := by
  obtain rfl := descends.unique (descends_descending sites)
  rw [lastPass, Pass.finished_run]
  apply weave_eq_foldl descends.sorted
  intro site hsite
  exact bounded site ((descends.mem_iff site).1 hsite)

/-- After the first line no site is left, because each is on a line that has been
passed. -/
theorem pending_lastPass {lines : List String} {sites : List UpdateSite}
    (bounded : ∀ site ∈ sites, 1 ≤ site.line ∧ site.line ≤ lines.length) :
    (lastPass lines sites).pending = [] := by
  apply Pass.pending_run List.length_reverse
  · exact (descending_pairwise sites).imp UpdateSite.line_le_of_precedes
  · intro site hsite
    exact bounded site ((descending_perm sites).mem_iff.1 hsite)

/-- **Splicing is insertion, one patch after the other**: it gives what `Inserts`
says and nothing else, whatever the lines and the sites are.  Where it gives a
text, that is the text of its pass over the lines, and the pass has taken all
sites. -/
theorem splice_iff_inserts (lines : List String) (sites : List UpdateSite) :
    (∀ result, splice lines sites = result ↔ Inserts lines sites result) ∧
      ∀ text, splice lines sites = .ok text →
        text = Text.unlines (lastPass lines sites).finished ∧
          (lastPass lines sites).pending = [] := by
  -- Either all sites are on lines of the text, or there is a first one that is not.
  rcases bounded_or_outside lines.length sites with
    hbounded | ⟨before, site, after, rfl, hbounded, houtside⟩
  · have hsplice := splice_of_bounded hbounded
    refine ⟨fun result => ⟨?_, ?_⟩, fun text htext => ?_⟩
    · rintro rfl
      have hdescends := descends_descending sites
      rw [hsplice, finished_lastPass hbounded hdescends]
      exact .inserted hbounded hdescends
    · rintro (⟨rfl, -, houtside⟩ | ⟨-, hdescends⟩)
      · have := hbounded _ (List.mem_append_right _ List.mem_cons_self)
        omega
      · rw [hsplice, finished_lastPass hbounded hdescends]
    · rw [hsplice] at htext
      exact ⟨(Except.ok.inj htext).symm, pending_lastPass hbounded⟩
  · have hsplice : splice lines (before ++ site :: after) = _ :=
      splice_of_outside hbounded houtside
    refine ⟨fun result => ⟨?_, ?_⟩, fun text htext => ?_⟩
    · rintro rfl
      rw [hsplice]
      exact .refused rfl hbounded houtside
    · rintro (⟨hsplit, hbounded', houtside'⟩ | ⟨hall, -⟩)
      · rw [hsplit, splice_of_outside hbounded' houtside']
      · have := hall site (List.mem_append_right _ List.mem_cons_self)
        omega
    · rw [hsplice] at htext
      cases htext

/-- A site on the first line between two on the second that nothing tells
apart. -/
def tiedSites : List UpdateSite :=
  [⟨⟨2, 3⟩, 0, none, "P"⟩, ⟨⟨1, 9⟩, 4, none, "Q"⟩, ⟨⟨2, 3⟩, 0, none, "R"⟩]

/-- The two sites that nothing tells apart are inserted in the order given, so the
second one comes to stand in front of the first. -/
theorem splice_iff_inserts_tied :
    splice ["a", "b"] tiedSites = .ok "a\nQ\nb\nR\nP" ∧
      (lastPass ["a", "b"] tiedSites).pending = [] := by
  have hdescends : Descends tiedSites
      [⟨⟨2, 3⟩, 0, none, "P"⟩, ⟨⟨2, 3⟩, 0, none, "R"⟩, ⟨⟨1, 9⟩, 4, none, "Q"⟩] := by
    refine ⟨by decide, fun rank => ?_⟩
    by_cases h : rank = (⟨1, 9⟩, 4)
    · subst h
      decide
    · simp [tiedSites, List.filter, UpdateSite.rank, Ne.symm h]
  have hinserts : Inserts ["a", "b"] tiedSites (.ok "a\nQ\nb\nR\nP") :=
    .inserted (by decide) hdescends
  obtain ⟨hresult, hlast⟩ := splice_iff_inserts ["a", "b"] tiedSites
  have hsplice := (hresult _).2 hinserts
  exact ⟨hsplice, (hlast _ hsplice).2⟩

end Patch
end ScopeTrack
