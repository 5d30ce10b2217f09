/-
# Patches in the order of the source text

Of two offsets between characters, the later one has more text in front.  If there
is a line feed in what it has more, its line is a later one; if not, it is on the
same line and has more units in front.  So locations keep the order of such offsets
(`location_lt`), and no two of them have the same location.

Splicing puts the patches of sites in the order of their locations
(`rows_pairwise`).  So the patches of sites stand in the order in which the
constructs of the sites end (`location_keeps_order`).
-/

import ScopeTrack.Proofs.Patch.Splice
import ScopeTrack.Proofs.Source.Exact

namespace ScopeTrack

namespace LineIndex

/-! ## The order of locations -/

/-- The line of an offset between characters is told by the text in front. -/
theorem Exact.line_of_append {text before after : String} {location : Location}
    (h : Exact text before.utf8ByteSize location) (htext : text = before ++ after) :
    location.line.toNat = 1 + (Text.bytes before).count Text.feed := by
  rw [h.line, htext, Text.bytes_append, ← Text.length_bytes, List.take_left]

/-- **More text in front makes a later location.**  -/
theorem Exact.lt {text before between after : String} (htext : text = before ++ between ++ after)
    (hne : between ≠ "") {a b : Location} (ha : Exact text before.utf8ByteSize a)
    (hb : Exact text (before ++ between).utf8ByteSize b) : a < b := by
  have htext' : text = before ++ (between ++ after) := by rw [htext, String.append_assoc]
  have hline := ha.line_of_append htext'
  have hline' := hb.line_of_append htext
  rw [Text.bytes_append, List.count_append] at hline'
  rw [Location.lt_def, UInt32.lt_iff_toNat_lt, UInt32.lt_iff_toNat_lt, ← UInt32.toNat_inj]
  -- A line feed in between makes the line greater.  Without one the line is the same, and
  -- the units in between make the column greater.
  by_cases hfeed : '\n' ∈ between.toList
  · have hpos : 0 < (Text.bytes between).count Text.feed :=
      List.count_pos_iff.2 ((Text.feed_mem_bytes_iff between).2 hfeed)
    omega
  · have hnone : (Text.bytes between).count Text.feed = 0 :=
      List.count_eq_zero.2 (Text.SingleLine.feed_not_mem hfeed)
    have hkept : ∀ c ∈ between.toList.reverse, (c != '\n') = true := by
      intro c hc
      rw [bne_iff_ne]
      rintro rfl
      exact hfeed (List.mem_reverse.1 hc)
    have hcolumn := ha.units before _ htext' rfl
    have hcolumn' := hb.units (before ++ between) _ htext rfl
    rw [String.toList_append, List.reverse_append, List.takeWhile_append_of_pos hkept,
      Text.units_append, Text.units_reverse] at hcolumn'
    have hpos : 0 < Text.units between.toList := by
      apply Text.units_pos
      rwa [ne_eq, String.toList_eq_nil_iff]
    omega

/-- An offset between characters parts a text, and its location is exact. -/
theorem exists_of_isValid {text : String} (hsize : text.utf8ByteSize < UInt32.size - 1)
    {offset : Nat} (h : (String.Pos.Raw.mk offset).IsValid text) :
    ∃ before after, text = before ++ after ∧ before.utf8ByteSize = offset ∧
      Exact text offset ((ofText text).location offset) := by
  obtain ⟨before, after, htext, hend⟩ := String.Pos.Raw.isValid_iff_exists_append.1 h
  have hoffset : before.utf8ByteSize = offset := (congrArg String.Pos.Raw.byteIdx hend).symm
  have hexact := exact_location hsize offset
  have hle : offset ≤ text.utf8ByteSize := by
    rw [htext, String.utf8ByteSize_append]
    omega
  rw [Nat.min_eq_left hle] at hexact
  exact ⟨before, after, htext, hoffset, hexact⟩

/-- **Locations keep the order** of offsets between characters. -/
theorem location_lt {text : String} (hsize : text.utf8ByteSize < UInt32.size - 1) {o₁ o₂ : Nat}
    (h₁ : (String.Pos.Raw.mk o₁).IsValid text) (h₂ : (String.Pos.Raw.mk o₂).IsValid text)
    (hlt : o₁ < o₂) : (ofText text).location o₁ < (ofText text).location o₂ := by
  obtain ⟨before, rest, htext, rfl, hexact⟩ := exists_of_isValid hsize h₁
  obtain ⟨longer, after, htext', rfl, hexact'⟩ := exists_of_isValid hsize h₂
  obtain ⟨between, rfl, -⟩ :=
    Text.exists_of_append_eq_append (htext.symm.trans htext') (Nat.le_of_lt hlt)
  have hne : between ≠ "" := by
    rintro rfl
    rw [String.append_empty] at hlt
    omega
  exact hexact.lt htext' hne hexact'

/-- Different offsets between characters have different locations. -/
theorem location_inj {text : String} (hsize : text.utf8ByteSize < UInt32.size - 1) {o₁ o₂ : Nat}
    (h₁ : (String.Pos.Raw.mk o₁).IsValid text) (h₂ : (String.Pos.Raw.mk o₂).IsValid text)
    (heq : (ofText text).location o₁ = (ofText text).location o₂) : o₁ = o₂ := by
  have hirrefl : ∀ a : Location, ¬ a < a := by
    intro a
    rw [Location.lt_def]
    simp
  rcases Nat.lt_trichotomy o₁ o₂ with hlt | heq' | hgt
  · have hless := location_lt hsize h₁ h₂ hlt
    rw [heq] at hless
    exact absurd hless (hirrefl _)
  · exact heq'
  · have hless := location_lt hsize h₂ h₁ hgt
    rw [heq] at hless
    exact absurd hless (hirrefl _)

end LineIndex

namespace Patch

/-! ## The order of patches -/

/-- What stands on a line of a patched text: a line of the source text, or a site
with its patch. -/
abbrev Row := String ⊕ UpdateSite

/-- The text of such a line. -/
def Row.text : Row → String
  | .inl line => line
  | .inr site => site.patch

/-- The lines, numbered from `first` on, each followed by the sites on it. -/
def rows (sites : List UpdateSite) (first : Nat) : List String → List Row
  | [] => []
  | line :: lines => .inl line :: ((onLine sites first).map .inr ++ rows sites (first + 1) lines)

/-- The texts of the rows are the lines with their patches. -/
theorem map_text_rows (sites : List UpdateSite) (first : Nat) (lines : List String) :
    (rows sites first lines).map Row.text =
      interleave (fun number => (onLine sites number).map UpdateSite.patch) first lines := by
  induction lines generalizing first with
  | nil => rfl
  | cons line lines ih =>
      rw [rows, interleave, List.map_cons, List.map_append, List.map_map, ih]
      rfl

theorem lines_rows (sites : List UpdateSite) (first : Nat) (lines : List String) :
    (rows sites first lines).filterMap Sum.getLeft? = lines := by
  induction lines generalizing first with
  | nil => rfl
  | cons line lines ih => simp [rows, ih]

/-- Of so many lines from `first` on, the sites on them are those on the first one
and those on the others. -/
theorem filter_lines_perm (sites : List UpdateSite) (first count : Nat) :
    ((sites.filter fun site => site.line == first) ++
      sites.filter fun site => first + 1 ≤ site.line ∧ site.line < first + 1 + count).Perm
      (sites.filter fun site => first ≤ site.line ∧ site.line < first + (count + 1)) := by
  have hsplit := List.filter_append_perm (fun site => site.line == first)
    (sites.filter fun site => first ≤ site.line ∧ site.line < first + (count + 1))
  have hfirst : ∀ site ∈ sites, (site.line == first &&
      decide (first ≤ site.line ∧ site.line < first + (count + 1))) = (site.line == first) := by
    intro site _
    rw [Bool.eq_iff_iff, Bool.and_eq_true, beq_iff_eq, decide_eq_true_iff]
    omega
  have hlater : ∀ site ∈ sites, (!(site.line == first) &&
      decide (first ≤ site.line ∧ site.line < first + (count + 1))) =
      decide (first + 1 ≤ site.line ∧ site.line < first + 1 + count) := by
    intro site _
    rw [Bool.eq_iff_iff, Bool.and_eq_true, Bool.not_eq_true', beq_eq_false_iff_ne,
      decide_eq_true_iff, decide_eq_true_iff]
    omega
  rwa [List.filter_filter, List.filter_filter, List.filter_congr hfirst,
    List.filter_congr hlater] at hsplit

/-- The sites are those on one of the lines. -/
theorem sites_rows_perm (sites : List UpdateSite) (first : Nat) (lines : List String) :
    ((rows sites first lines).filterMap Sum.getRight?).Perm
      (sites.filter fun site => first ≤ site.line ∧ site.line < first + lines.length) := by
  induction lines generalizing first with
  | nil =>
      have hnone : (sites.filter fun site => decide
          (first ≤ site.line ∧ site.line < first + ([] : List String).length)) = [] := by
        apply List.filter_eq_nil_iff.2
        intro site _
        rw [decide_eq_true_iff, List.length_nil]
        omega
      rw [hnone]
      exact .nil
  | cons line lines ih =>
      have hhere : ((onLine sites first).map (Sum.inr : UpdateSite → Row)).filterMap
          Sum.getRight? = onLine sites first := by
        rw [List.filterMap_map]
        exact List.filterMap_some
      have hrows : (rows sites first (line :: lines)).filterMap Sum.getRight? =
          onLine sites first ++ (rows sites (first + 1) lines).filterMap Sum.getRight? := by
        rw [rows, List.filterMap_cons, List.filterMap_append, hhere]
        rfl
      rw [hrows, List.length_cons]
      exact ((onLine_perm sites first).append (ih (first + 1))).trans
        (filter_lines_perm sites first lines.length)

/-- **The sites stand in their order.**  -/
theorem rows_pairwise (sites : List UpdateSite) (first : Nat) (lines : List String) :
    (rows sites first lines).Pairwise fun row other =>
      ∀ a b, row = .inr a → other = .inr b → a.precedes b = true := by
  induction lines generalizing first with
  | nil => exact .nil
  | cons line lines ih =>
      rw [rows, List.pairwise_cons, List.pairwise_append]
      refine ⟨?_, ?_, ih (first + 1), ?_⟩
      · rintro other - a b ⟨⟩
      · rw [List.pairwise_map]
        refine (onLine_pairwise sites first).imp ?_
        rintro a b hab _ _ ⟨⟩ ⟨⟩
        exact hab
      · rintro row hrow other hother a b rfl rfl
        obtain ⟨site, hsite, heq⟩ := List.mem_map.1 hrow
        obtain rfl : site = a := Sum.inr.inj heq
        have hline := (mem_of_mem_onLine hsite).2
        have hmem : b ∈ (rows sites (first + 1) lines).filterMap Sum.getRight? :=
          List.mem_filterMap.2 ⟨_, hother, rfl⟩
        have hlater := (sites_rows_perm sites (first + 1) lines).mem_iff.1 hmem
        rw [List.mem_filter, decide_eq_true_iff] at hlater
        rw [UpdateSite.precedes_iff]
        omega

/-- A site of an earlier location stands before one of a later location. -/
theorem index_lt_of_location_lt {sites : List UpdateSite} {first : Nat} {lines : List String}
    {i j : Nat} {a b : UpdateSite} (hi : (rows sites first lines)[i]? = some (.inr a))
    (hj : (rows sites first lines)[j]? = some (.inr b)) (hlt : a.location < b.location) :
    i < j := by
  obtain ⟨hi', ha⟩ := List.getElem?_eq_some_iff.1 hi
  obtain ⟨hj', hb⟩ := List.getElem?_eq_some_iff.1 hj
  have hnot : ¬ b.precedes a = true := by
    rw [Location.lt_def, UInt32.lt_iff_toNat_lt, UInt32.lt_iff_toNat_lt, ← UInt32.toNat_inj] at hlt
    rw [UpdateSite.precedes_iff]
    unfold UpdateSite.line
    omega
  by_contra hle
  apply hnot
  rcases Nat.eq_or_lt_of_le (Nat.le_of_not_lt hle) with rfl | hless
  · obtain rfl : b = a := Sum.inr.inj (hb.symm.trans ha)
    simpa using UpdateSite.precedes_total b b
  · exact List.pairwise_iff_getElem.1 (rows_pairwise sites first lines) j i hj' hi' hless b a hb ha

end Patch

/-- A site of a construct that ends at an offset of a text. -/
def UpdateSite.EndsAt (text : String) (site : UpdateSite) (offset : Nat) : Prop :=
  site.location = (LineIndex.ofText text).location offset

/-- The lines of a text with the patches of sites between them, in the order in
which the constructs of the sites end. -/
structure Patch.InSourceOrder (text : String) (sites : List UpdateSite) (rows : List Row) :
    Prop where
  lines : rows.filterMap Sum.getLeft? = Text.lines text
  sites : (rows.filterMap Sum.getRight?).Perm sites
  order : ∀ (i j : Nat) (a b : UpdateSite) (o₁ o₂ : Nat),
    rows[i]? = some (.inr a) → rows[j]? = some (.inr b) → a.EndsAt text o₁ → b.EndsAt text o₂ →
    (String.Pos.Raw.mk o₁).IsValid text → (String.Pos.Raw.mk o₂).IsValid text → o₁ < o₂ → i < j

namespace Patch

/-- Sites of constructs of a text are spliced in the order of the text. -/
theorem splice_inSourceOrder {text : String} (hsize : text.utf8ByteSize < UInt32.size - 1)
    {sites : List UpdateSite} (located : ∀ site ∈ sites, ∃ offset, site.EndsAt text offset) :
    ∃ rows : List Row, splice (Text.lines text) sites = .ok (Text.unlines (rows.map Row.text)) ∧
      InSourceOrder text sites rows := by
  have bounded : ∀ site ∈ sites, 1 ≤ site.line ∧ site.line ≤ (Text.lines text).length := by
    intro site hsite
    obtain ⟨offset, hoffset⟩ := located site hsite
    rw [UpdateSite.line, hoffset]
    exact LineIndex.location_line_bounds (LineIndex.lineCount_lt hsize) offset
  refine ⟨rows sites 1 (Text.lines text), ?_, lines_rows _ _ _, ?_, ?_⟩
  · rw [splice, spliceLines_eq bounded, map_text_rows]
    rfl
  · have hall : (sites.filter fun site => decide (1 ≤ site.line ∧
        site.line < 1 + (Text.lines text).length)) = sites := by
      apply List.filter_eq_self.2
      intro site hsite
      have hsite := bounded site hsite
      rw [decide_eq_true_iff]
      omega
    have hperm := sites_rows_perm sites 1 (Text.lines text)
    rwa [hall] at hperm
  · intro i j a b o₁ o₂ hi hj ha hb h₁ h₂ hlt
    apply index_lt_of_location_lt hi hj
    rw [ha, hb]
    exact LineIndex.location_lt hsize h₁ h₂ hlt

end Patch

/-- **Locations keep the order of the source text**: they ascend with the offsets
between its characters, so no two of these have the same location, and the patches
of sites of constructs that end at such offsets are spliced in the order in which
the constructs end. -/
theorem location_keeps_order {text : String} (hsize : text.utf8ByteSize < UInt32.size - 1) :
    (∀ o₁ o₂, (String.Pos.Raw.mk o₁).IsValid text → (String.Pos.Raw.mk o₂).IsValid text →
      o₁ < o₂ → (LineIndex.ofText text).location o₁ < (LineIndex.ofText text).location o₂) ∧
    (∀ o₁ o₂, (String.Pos.Raw.mk o₁).IsValid text → (String.Pos.Raw.mk o₂).IsValid text →
      (LineIndex.ofText text).location o₁ = (LineIndex.ofText text).location o₂ → o₁ = o₂) ∧
    ∀ sites : List UpdateSite, (∀ site ∈ sites, ∃ offset, site.EndsAt text offset) →
      ∃ rows : List Patch.Row, Patch.splice (Text.lines text) sites =
          .ok (Text.unlines (rows.map Patch.Row.text)) ∧
        Patch.InSourceOrder text sites rows :=
  ⟨fun _ _ => LineIndex.location_lt hsize, fun _ _ => LineIndex.location_inj hsize,
    fun _ => Patch.splice_inSourceOrder hsize⟩

/-- Sites of constructs that end behind the first two characters of `é😀`, the later
one first. -/
def swappedSites : List UpdateSite :=
  [⟨⟨1, 3⟩, 0, none, "P"⟩, ⟨⟨1, 1⟩, 1, none, "Q"⟩]

/-- The sites are put in the order in which their constructs end, although they are
given the other way round and on a line where a character has two units. -/
theorem location_keeps_order_swapped :
    (String.Pos.Raw.mk 2).IsValid "é😀" ∧ (String.Pos.Raw.mk 6).IsValid "é😀" ∧
      (LineIndex.ofText "é😀").location 2 < (LineIndex.ofText "é😀").location 6 ∧
      ∃ rows : List Patch.Row, Patch.splice (Text.lines "é😀") swappedSites =
          .ok (Text.unlines (rows.map Patch.Row.text)) ∧
        Patch.InSourceOrder "é😀" swappedSites rows := by
  have hsize : "é😀".utf8ByteSize < UInt32.size - 1 := by decide
  have h₁ : (String.Pos.Raw.mk 2).IsValid "é😀" :=
    String.Pos.Raw.isValid_iff_exists_append.2 ⟨"é", "😀", by decide, by decide⟩
  have h₂ : (String.Pos.Raw.mk 6).IsValid "é😀" :=
    String.Pos.Raw.isValid_iff_exists_append.2 ⟨"é😀", "", by decide, by decide⟩
  have located : ∀ site ∈ swappedSites, ∃ offset, site.EndsAt "é😀" offset := by
    intro site hsite
    simp only [swappedSites, List.mem_cons, List.not_mem_nil, or_false] at hsite
    rcases hsite with rfl | rfl
    · exact ⟨6, show _ = _ by decide⟩
    · exact ⟨2, show _ = _ by decide⟩
  obtain ⟨hascend, -, hsplice⟩ := location_keeps_order hsize
  exact ⟨h₁, h₂, hascend 2 6 h₁ h₂ (by decide), hsplice swappedSites located⟩

end ScopeTrack
