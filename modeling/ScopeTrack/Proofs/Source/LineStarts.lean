/-
# Lines found by their starts

A line starts at the beginning of the text or behind a line feed, so there are as many
starts as lines (`length_lineStarts`).  The starts ascend, and halving among them finds
the last that is at or before an offset (`found_search`, `lineFound?_of_found`).  That
is where the line of the offset starts (`LineAt.search_lineStarts`).

So looking up an offset among the starts gives the location that going through the
lines gives, and none of its checks fails (`locate?_eq`).  `location_exact` puts this
together with what a location says.
-/

import Mathlib.Data.List.Basic
import ScopeTrack.Proofs.Source.Exact

namespace ScopeTrack

namespace Text

/-! ## The starts of lines -/

/-- Behind each index at which the byte of the line feed stands. -/
theorem lineStarts_eq (text : String) :
    lineStarts text = 0 :: ((bytes text).idxsOf feed).map (· + 1) := by
  rw [lineStarts, List.idxsOf_eq_filterMap_zipIdx, ← List.filterMap_eq_map, List.filterMap_filter,
    List.map_filterMap]
  congr 2
  funext entry
  by_cases h : entry.1 = feed
  · simp [h]
  · simp [h, beq_false_of_ne h]

/-- The lines of a text that is continued: those of the first part, and those that start
behind a line feed of the second part.  No line starts anew where the parts meet. -/
theorem lineStarts_append (a b : String) :
    lineStarts (a ++ b) =
      lineStarts a ++ ((bytes b).idxsOf feed a.utf8ByteSize).map (· + 1) := by
  rw [lineStarts_eq, lineStarts_eq, bytes_append, List.idxsOf_append, List.map_append,
    length_bytes, Nat.zero_add]
  rfl

/-- There is one start more than line feeds. -/
theorem length_lineStarts (text : String) :
    (lineStarts text).length = 1 + (bytes text).count feed := by
  rw [lineStarts_eq, List.length_cons, List.length_map, List.length_idxsOf, Nat.add_comm]

/-- The starts ascend. -/
theorem lineStarts_pairwise (text : String) : (lineStarts text).Pairwise (· < ·) := by
  rw [lineStarts_eq, List.pairwise_cons]
  constructor
  · intro start hstart
    obtain ⟨index, -, rfl⟩ := List.mem_map.1 hstart
    exact Nat.succ_pos index
  · rw [List.pairwise_map]
    exact List.pairwise_idxsOf.imp fun h => Nat.succ_lt_succ h

/-- Lines that are closed, and one that starts behind them. -/
theorem lineStarts_closed {lines : List String} (h : ∀ line ∈ lines, SingleLine line) :
    ∃ front, lineStarts (closed lines) = front ++ [(closed lines).utf8ByteSize] ∧
      front.length = lines.length := by
  have hlength := length_lineStarts (closed lines)
  rw [count_closed h] at hlength
  rcases closed_eq_or lines with hnone | ⟨text, htext⟩
  · refine ⟨[], ?_, ?_⟩
    · rw [hnone]
      rfl
    · rw [hnone] at hlength
      change 1 = 1 + lines.length at hlength
      rw [List.length_nil]
      omega
  · have hstarts := lineStarts_append text "\n"
    have hlast : ((bytes "\n").idxsOf feed text.utf8ByteSize).map (· + 1) =
        [(closed lines).utf8ByteSize] := by
      rw [htext, String.utf8ByteSize_append]
      rfl
    rw [← htext, hlast] at hstarts
    refine ⟨lineStarts text, hstarts, ?_⟩
    rw [hstarts, List.length_append, List.length_singleton] at hlength
    omega

/-- There is a line feed between any two lines. -/
theorem length_lines (text : String) : (lines text).length = (lineStarts text).length := by
  rcases List.eq_nil_or_concat (lines text) with hnil | ⟨init, last, hlines⟩
  · exact absurd hnil (lines_ne_nil text)
  · rw [List.concat_eq_append] at hlines
    have hsingle : ∀ line ∈ init ++ [last], SingleLine line := by
      intro line hline
      rw [← hlines] at hline
      exact singleLine_of_mem_lines hline
    have hinit : ∀ line ∈ init, SingleLine line :=
      fun line hline => hsingle line (List.mem_append_left _ hline)
    have hlast : SingleLine last := hsingle last (List.mem_append_right _ List.mem_cons_self)
    -- All lines but the last are closed, each by one line feed, and no other is there.
    have htext : text = closed init ++ last := by
      rw [← unlines_lines text, hlines, unlines_append_closed init (List.cons_ne_nil last []),
        unlines_singleton]
    rw [length_lineStarts, hlines, htext, bytes_append, List.count_append, count_closed hinit,
      List.count_eq_zero.2 hlast.feed_not_mem, List.length_append, List.length_singleton]
    omega

end Text

namespace LineIndex

/-- The starts of the lines around an offset: its line starts at or before it, the
lines in front start before that, and the later ones behind the offset. -/
theorem LineAt.lineStarts_eq {text : String} {offset : Nat} {earlier : List String}
    {line : String} {inside : Nat} (h : LineAt text offset earlier line inside) :
    ∃ front later, Text.lineStarts text =
        front ++ (Text.closed earlier).utf8ByteSize :: later ∧
      front.length = earlier.length ∧ ∀ start ∈ later, offset < start := by
  obtain ⟨rest, htext⟩ := h.text_eq
  obtain ⟨front, hfront, hlength⟩ := Text.lineStarts_closed h.earlier_single
  refine ⟨front, ((Text.bytes (line ++ rest)).idxsOf Text.feed
    (Text.closed earlier).utf8ByteSize).map (· + 1), ?_, hlength, ?_⟩
  · rw [htext, Text.lineStarts_append, hfront, List.append_assoc]
    rfl
  · intro start hstart
    obtain ⟨index, hindex, rfl⟩ := List.mem_map.1 hstart
    -- The line has no line feed in it, so the next one is behind it.
    have hnone : (Text.bytes line).idxsOf Text.feed (Text.closed earlier).utf8ByteSize = [] := by
      rw [List.idxsOf_eq_nil_iff]
      rintro byte hbyte
      rw [beq_eq_false_iff_ne]
      rintro rfl
      exact h.line_single.feed_not_mem hbyte
    rw [Text.bytes_append, List.idxsOf_append, hnone, List.nil_append, Text.length_bytes] at hindex
    have hpast := List.ge_of_mem_idxsOf index hindex
    have hoffset := h.offset_eq
    have hinside := h.inside_le
    omega

/-! ## Halving -/

/-- What a search for a number in an ascending list may answer: an index at which
it stands, or the index at which it would stand. -/
inductive Found (xs : Array Nat) (x : Nat) : Except Nat Nat → Prop
  | here {index : Nat} (h : xs[index]? = some x) : Found xs x (.ok index)
  | missing {index : Nat} (hle : index ≤ xs.size)
      (below : ∀ i y, i < index → xs[i]? = some y → y < x)
      (above : ∀ i y, index ≤ i → xs[i]? = some y → x < y) : Found xs x (.error index)

theorem lt_of_index_lt {xs : Array Nat} (sorted : xs.toList.Pairwise (· < ·)) {i j y z : Nat}
    (hi : xs[i]? = some y) (hj : xs[j]? = some z) (hij : i < j) : y < z := by
  obtain ⟨hi', rfl⟩ := Array.getElem?_eq_some_iff.1 hi
  obtain ⟨hj', rfl⟩ := Array.getElem?_eq_some_iff.1 hj
  exact List.pairwise_iff_getElem.1 sorted i j hi' hj' hij

theorem le_of_index_le {xs : Array Nat} (sorted : xs.toList.Pairwise (· < ·)) {i j y z : Nat}
    (hi : xs[i]? = some y) (hj : xs[j]? = some z) (hij : i ≤ j) : y ≤ z := by
  rcases Nat.eq_or_lt_of_le hij with rfl | hlt
  · exact Nat.le_of_eq (Option.some.inj (hi.symm.trans hj))
  · exact Nat.le_of_lt (lt_of_index_lt sorted hi hj hlt)

/-- The search goes on between indices of which those below have less and those
above have more than the number. -/
theorem found_searchIn {xs : Array Nat} (sorted : xs.toList.Pairwise (· < ·)) {x low high : Nat}
    (hhigh : high ≤ xs.size) (hlow : low ≤ high)
    (below : ∀ i y, i < low → xs[i]? = some y → y < x)
    (above : ∀ i y, high ≤ i → xs[i]? = some y → x < y) :
    Found xs x (searchIn xs x low high hhigh) := by
  fun_induction searchIn xs x low high hhigh with
  -- Up to the middle, all is less as well.
  | case1 low high hhigh hlt middle hmiddle hless ih =>
      apply ih (by omega) _ above
      intro i y hi hy
      have hle := le_of_index_le sorted hy (Array.getElem?_eq_getElem hmiddle) (by omega)
      omega
  -- From the middle on, all is more as well.
  | case2 low high hhigh hlt middle hmiddle hnot hmore ih =>
      apply ih (by omega) below
      intro i y hi hy
      have hle := le_of_index_le sorted (Array.getElem?_eq_getElem hmiddle) hy hi
      omega
  | case3 low high hhigh hlt middle hmiddle hnot hnot' =>
      have heq : xs[middle] = x := by omega
      exact .here (by rw [Array.getElem?_eq_getElem hmiddle, heq])
  | case4 low high hhigh hlt =>
      have heq : low = high := by omega
      exact .missing (by omega) below (by rwa [heq])

/-- **The search answers as it should** in any ascending list.  At first nothing is
below the window and nothing above it. -/
theorem found_search {xs : Array Nat} (sorted : xs.toList.Pairwise (· < ·)) (x : Nat) :
    Found xs x (search xs x) := by
  apply found_searchIn sorted _ (Nat.zero_le _)
  · intro i y hi
    omega
  · intro i y hi hy
    obtain ⟨hlt, -⟩ := Array.getElem?_eq_some_iff.1 hy
    omega

/-! ## Looking up an offset -/

theorem difference?_add (n m : Nat) : difference? (n + m) n = some m := by
  rw [difference?, if_pos (Nat.le_add_right n m), Nat.add_sub_cancel_left]

/-- A search for an offset tells the last line that starts at or before it. -/
theorem lineFound?_of_found {front later : List Nat} {start x : Nat} {answer : Except Nat Nat}
    (sorted : (front ++ start :: later).Pairwise (· < ·)) (hstart : start ≤ x)
    (hlater : ∀ y ∈ later, x < y) (h : Found (front ++ start :: later).toArray x answer) :
    lineFound? answer = some front.length := by
  have hown : (front ++ start :: later).toArray[front.length]? = some start := by
    simp
  cases h with
  -- The offset starts a line.  That is the one at the start itself, as the later ones start
  -- behind the offset.
  | @here index hindex =>
      have heq : index = front.length := by
        rcases Nat.lt_trichotomy index front.length with hlt | heq | hgt
        · have hless := lt_of_index_lt sorted hindex hown hlt
          omega
        · exact heq
        · have hmem : x ∈ later := by
            rw [List.getElem?_toArray, List.getElem?_append_right (by omega),
              List.getElem?_cons, if_neg (by omega)] at hindex
            exact List.mem_of_getElem? hindex
          have hless := hlater x hmem
          omega
      rw [heq]
      rfl
  -- The offset stands between two starts, and the one in front of the gap is meant.
  | @missing next hle below above =>
      have hpast : front.length < next := by
        by_contra hnot
        have hless := above front.length start (by omega) hown
        omega
      have heq : next = front.length + 1 := by
        by_contra hne
        rw [List.size_toArray, List.length_append, List.length_cons] at hle
        have hnext : 0 < later.length := by omega
        have hget : (front ++ start :: later).toArray[front.length + 1]? = some later[0] := by
          rw [List.getElem?_toArray, List.getElem?_append_right (by omega)]
          simp
        have hless := below (front.length + 1) later[0] (by omega) hget
        have hmore := hlater later[0] (List.getElem_mem hnext)
        omega
      rw [heq, lineFound?, Nat.add_comm, difference?_add]

namespace LineAt

variable {text : String} {offset : Nat} {earlier : List String} {line : String} {inside : Nat}

/-- **The line of an offset is found among the starts**, and starts where the lines
before it end. -/
theorem search_lineStarts (h : LineAt text offset earlier line inside) :
    lineFound? (search (Text.lineStarts text).toArray offset) = some earlier.length ∧
      (Text.lineStarts text).toArray[earlier.length]? =
        some (Text.closed earlier).utf8ByteSize := by
  obtain ⟨front, later, hstarts, hlength, hlater⟩ := h.lineStarts_eq
  have hoffset := h.offset_eq
  have sorted := Text.lineStarts_pairwise text
  have hfound : Found (Text.lineStarts text).toArray offset
      (search (Text.lineStarts text).toArray offset) := found_search sorted offset
  rw [hstarts] at sorted hfound ⊢
  rw [← hlength]
  exact ⟨lineFound?_of_found sorted (by omega) hlater hfound, by simp⟩

/-- The units between the start of the line and the offset make its column. -/
theorem unitsBetween?_getD (h : LineAt text offset earlier line inside) :
    (unitsBetween? text (Text.closed earlier).utf8ByteSize offset).getD inside =
      column line inside := by
  obtain ⟨later, htext⟩ := h.text_eq
  have hskipped : unitsBefore? text.toList (Text.closed earlier).utf8ByteSize =
      some (Text.units (Text.closed earlier).toList) := by
    rw [htext, unitsBefore?_append]
  rw [unitsBetween?, hskipped]
  -- Between characters, both counts start with the lines before; inside a character, there
  -- is no second count.
  by_cases hvalid : (String.Pos.Raw.mk inside).IsValid line
  · obtain ⟨piece, rest, rfl, hinside⟩ := String.Pos.Raw.isValid_iff_exists_append.1 hvalid
    obtain rfl : inside = piece.utf8ByteSize := congrArg String.Pos.Raw.byteIdx hinside
    have hreached : unitsBefore? text.toList offset =
        some (Text.units (Text.closed earlier).toList + Text.units piece.toList) := by
      have hcut : text = Text.closed earlier ++ piece ++ (rest ++ later) := by
        rw [htext]
        simp only [String.append_assoc]
      have hsize : offset = (Text.closed earlier ++ piece).utf8ByteSize := by
        rw [String.utf8ByteSize_append, h.offset_eq]
      rw [hcut, hsize, unitsBefore?_append, String.toList_append, Text.units_append]
    rw [hreached, column_append]
    change (difference? _ _).getD _ = _
    rw [difference?_add]
    rfl
  · have hnone := unitsBefore?_of_not_isValid fun hvalid' => hvalid (h.isValid_iff.1 hvalid')
    rw [hnone, column_of_not_isValid hvalid]
    rfl

end LineAt

/-- **Looking up an offset never fails**, and gives what going through the lines
gives. -/
theorem locate?_eq {text : String} (hsize : text.utf8ByteSize < UInt32.size - 1) (offset : Nat) :
    locate? text offset = some ((ofText text).location offset) := by
  obtain ⟨earlier, line, inside, h, hfind⟩ := exists_lineAt text offset
  obtain ⟨hindex, hstart⟩ := h.search_lineStarts
  -- Each check succeeds: the line starts at or before the offset, and line and column are
  -- small.
  have hwidth : difference? (min offset text.utf8ByteSize) (Text.closed earlier).utf8ByteSize =
      some inside := by
    rw [h.offset_eq, difference?_add]
  have hline : word? (earlier.length + 1) = some (UInt32.ofNat (1 + earlier.length)) := by
    have hbounds := find_fst_bounds (Text.lines_ne_nil text) 1 offset
    have hcount := lineCount_lt hsize
    change (Text.lines text).length < UInt32.size at hcount
    rw [hfind] at hbounds
    rw [word?, if_pos (by omega), Nat.add_comm]
  have hcolumn : word? (column line inside) = some (UInt32.ofNat (column line inside)) := by
    have hoffset := h.offset_eq
    have hle := column_le line inside
    rw [word?, if_pos (by omega)]
  have hlocation : (ofText text).location offset =
      ⟨UInt32.ofNat (1 + earlier.length), UInt32.ofNat (column line inside)⟩ := by
    rw [location, ofText, hfind]
  rw [locate?, hlocation]
  simp only [hindex, hstart, hwidth, hline, h.unitsBetween?_getD, hcolumn, Option.bind_eq_bind,
    Option.bind_some]
  rfl

/-- **The location of an offset is exact.**  It says what is to say of the offset, or
of the end of the text if the offset is past it; its line is one of the text, and
there are as many lines as pieces between line feeds.  Looking it up by halving
among the starts of the lines, no difference goes below 0 and no number is too
large. -/
theorem location_exact {text : String} (hsize : text.utf8ByteSize < UInt32.size - 1)
    (offset : Nat) :
    Exact text (min offset text.utf8ByteSize) ((ofText text).location offset) ∧
      (ofText text).lineCount = (Text.lines text).length ∧
      (ofText text).lineCount = (Text.lineStarts text).length ∧
      1 ≤ ((ofText text).location offset).line.toNat ∧
      ((ofText text).location offset).line.toNat ≤ (ofText text).lineCount ∧
      locate? text offset = some ((ofText text).location offset) := by
  obtain ⟨hpos, hle⟩ := location_line_bounds (lineCount_lt hsize) offset
  exact ⟨exact_location hsize offset, rfl, Text.length_lines text, hpos, hle,
    locate?_eq hsize offset⟩

/-- A character of two bytes, one of four, a line feed and a letter. -/
def mixedText : String := "é😀\nx"

/-- Behind the first byte of the character of four bytes. -/
theorem location_exact_mixed :
    mixedText.utf8ByteSize < UInt32.size - 1 ∧ locate? mixedText 3 = some ⟨1, 3⟩ := by
  have hsize : mixedText.utf8ByteSize < UInt32.size - 1 := by decide
  have hlocation : (ofText mixedText).location 3 = ⟨1, 3⟩ := by decide
  obtain ⟨-, -, -, -, -, hlocate⟩ := location_exact hsize 3
  exact ⟨hsize, hlocate.trans (congrArg some hlocation)⟩

end LineIndex
end ScopeTrack
