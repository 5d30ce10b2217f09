/-
# What a location says of an offset

An offset lies on a line of the text: in front of it are the lines that are closed
by a line feed, and then some bytes of its own line (`LineAt`).  Every offset is
found there, and those past the end of the text at its end (`exists_lineAt`).

All that a location tells can be read off the bytes in front of the offset.  The
line counts the line feeds among them.  The column is about the bytes behind the
last of these line feeds: where the offset is between two characters it counts
their UTF-16 code units, and inside a character it counts the bytes
(`LineAt.exact`).
-/

import ScopeTrack.Proofs.Source.LineEnds
import ScopeTrack.Proofs.Text.Bytes

namespace ScopeTrack

namespace Text

/-- Lines that are each closed by a line feed. -/
def closed : List String → String
  | [] => ""
  | line :: lines => line ++ "\n" ++ closed lines

/-- Lines in front of others are closed, each by its line feed. -/
theorem unlines_append_closed (lines : List String) {rest : List String} (h : rest ≠ []) :
    unlines (lines ++ rest) = closed lines ++ unlines rest := by
  induction lines with
  | nil => rw [List.nil_append, closed, String.empty_append]
  | cons line lines ih =>
      have hne : lines ++ rest ≠ [] := List.append_ne_nil_of_right_ne_nil lines h
      rw [List.cons_append, unlines_cons line hne, ih, closed]
      simp only [String.append_assoc]

theorem closed_concat (lines : List String) (line : String) :
    closed (lines ++ [line]) = closed lines ++ line ++ "\n" := by
  induction lines with
  | nil => simp [closed]
  | cons first lines ih =>
      rw [List.cons_append, closed, closed, ih]
      simp only [String.append_assoc]

/-- Closed lines have a line feed each. -/
theorem count_closed {lines : List String} (h : ∀ line ∈ lines, SingleLine line) :
    (bytes (closed lines)).count feed = lines.length := by
  induction lines with
  | nil => rfl
  | cons line lines ih =>
      obtain ⟨hline, hlines⟩ := List.forall_mem_cons.1 h
      rw [closed, bytes_append, bytes_append, bytes_feed, List.count_append, List.count_append,
        List.count_eq_zero.2 hline.feed_not_mem, ih hlines, List.length_cons]
      simp
      omega

/-- Closed lines end in a line feed, if there are any. -/
theorem closed_eq_or (lines : List String) :
    closed lines = "" ∨ ∃ text, closed lines = text ++ "\n" := by
  rcases List.eq_nil_or_concat lines with rfl | ⟨init, last, rfl⟩
  · exact .inl rfl
  · rw [List.concat_eq_append, closed_concat]
    exact .inr ⟨_, rfl⟩

/-- What is behind the last `x` of a list that ends in `x`, if it is not empty, and
goes on without one. -/
theorem takeWhile_reverse_append {α : Type} [BEq α] [LawfulBEq α] {x : α} {front own : List α}
    (hfront : front = [] ∨ ∃ init, front = init ++ [x]) (hown : x ∉ own) :
    (front ++ own).reverse.takeWhile (· != x) = own.reverse := by
  have hkept : ∀ y ∈ own.reverse, (y != x) = true := by
    intro y hy
    rw [bne_iff_ne]
    rintro rfl
    exact hown (List.mem_reverse.1 hy)
  have hstop : front.reverse.takeWhile (· != x) = [] := by
    rcases hfront with rfl | ⟨init, rfl⟩
    · rfl
    · simp
  rw [List.reverse_append, List.takeWhile_append_of_pos hkept, hstop, List.append_nil]

/-- Two ways to cut a text: the shorter front is part of the longer one. -/
theorem exists_of_append_eq_append {a b c d : String} (h : a ++ b = c ++ d)
    (hsize : a.utf8ByteSize ≤ c.utf8ByteSize) : ∃ between, c = a ++ between ∧ b = between ++ d := by
  have hchars := congrArg String.toList h
  rw [String.toList_append, String.toList_append, List.append_eq_append_iff] at hchars
  rcases hchars with ⟨between, hc, hb⟩ | ⟨between, ha, hd⟩
  · refine ⟨String.ofList between, ?_, ?_⟩
    · rw [← String.toList_inj, String.toList_append, String.toList_ofList, hc]
    · rw [← String.toList_inj, String.toList_append, String.toList_ofList, hb]
  · have ha' : a = c ++ String.ofList between := by
      rw [← String.toList_inj, String.toList_append, String.toList_ofList, ha]
    have hle := length_le_byteSize between
    rw [ha', String.utf8ByteSize_append] at hsize
    obtain rfl : between = [] := List.eq_nil_of_length_eq_zero (by omega)
    refine ⟨"", ?_, ?_⟩
    · rw [ha', String.ofList_nil, String.append_empty, String.append_empty]
    · rw [← String.toList_inj, String.toList_append, hd]
      rfl

end Text

namespace LineIndex

/-! ## Columns -/

/-- The bytes of some characters at the start are filled by just these, so their units
are counted. -/
theorem unitsBefore?_of_append (before after : List Char) :
    unitsBefore? (before ++ after) (String.ofList before).utf8ByteSize =
      some (Text.units before) := by
  induction before with
  | nil => cases after <;> rfl
  | cons c before ih =>
      have hpos := c.utf8Size_pos
      have hsize := Text.byteSize_cons c before
      obtain ⟨last, hlast⟩ : ∃ last, (String.ofList (c :: before)).utf8ByteSize = last + 1 :=
        Nat.exists_eq_add_one.2 (by omega)
      have hrest : last + 1 - c.utf8Size = (String.ofList before).utf8ByteSize := by omega
      rw [List.cons_append, hlast, unitsBefore?, if_pos (by omega), hrest, ih]
      rfl

/-- The units of the characters that fill the bytes in front of an offset. -/
theorem unitsBefore?_append (before after : String) :
    unitsBefore? (before ++ after).toList before.utf8ByteSize =
      some (Text.units before.toList) := by
  have hunits := unitsBefore?_of_append before.toList after.toList
  rwa [String.ofList_toList, ← String.toList_append] at hunits

/-- Units are counted only up to the end of a character. -/
theorem exists_of_unitsBefore? {cs : List Char} {offset count : Nat}
    (h : unitsBefore? cs offset = some count) :
    ∃ before after, cs = before ++ after ∧ (String.ofList before).utf8ByteSize = offset := by
  induction cs generalizing offset count with
  | nil =>
      cases offset with
      | zero => exact ⟨[], [], rfl, rfl⟩
      | succ offset => cases h
  | cons c cs ih =>
      cases offset with
      | zero => exact ⟨[], c :: cs, rfl, rfl⟩
      | succ offset =>
          rw [unitsBefore?] at h
          -- The first character is taken off whole, or the offset is inside it.
          split at h
          · obtain ⟨rest, hrest, -⟩ := Option.map_eq_some_iff.1 h
            obtain ⟨before, after, rfl, hsize⟩ := ih hrest
            refine ⟨c :: before, after, rfl, ?_⟩
            rw [Text.byteSize_cons]
            omega
          · cases h

/-- Between two characters, the column is the units in front. -/
theorem column_append (before after : String) :
    column (before ++ after) before.utf8ByteSize = Text.units before.toList := by
  rw [column, unitsBefore?_append]
  rfl

/-- Inside a character no units are counted. -/
theorem unitsBefore?_of_not_isValid {text : String} {offset : Nat}
    (h : ¬ (String.Pos.Raw.mk offset).IsValid text) : unitsBefore? text.toList offset = none := by
  cases hunits : unitsBefore? text.toList offset with
  | none => rfl
  | some count =>
      obtain ⟨before, after, htext, hsize⟩ := exists_of_unitsBefore? hunits
      refine absurd (String.Pos.Raw.isValid_iff_exists_append.2
        ⟨String.ofList before, String.ofList after, ?_, ?_⟩) h
      · rw [← String.ofList_append, ← htext, String.ofList_toList]
      · rw [String.Pos.Raw.ext_iff, String.byteIdx_rawEndPos, hsize]

/-- Inside a character, the column is the bytes in front. -/
theorem column_of_not_isValid {line : String} {offset : Nat}
    (h : ¬ (String.Pos.Raw.mk offset).IsValid line) : column line offset = offset := by
  rw [column, unitsBefore?_of_not_isValid h, Option.getD_none]

/-- A column is no greater than the number of bytes in front of it.  Between characters
it is a number of units, and inside a character it is the number of bytes itself. -/
theorem column_le (line : String) (offset : Nat) : column line offset ≤ offset := by
  by_cases h : (String.Pos.Raw.mk offset).IsValid line
  · obtain ⟨before, after, rfl, hoffset⟩ := String.Pos.Raw.isValid_iff_exists_append.1 h
    obtain rfl : offset = before.utf8ByteSize := congrArg String.Pos.Raw.byteIdx hoffset
    have hunits := Text.units_le_byteSize before.toList
    rw [String.ofList_toList] at hunits
    rwa [column_append]
  · exact Nat.le_of_eq (column_of_not_isValid h)

/-! ## The line of an offset -/

/-- An offset of a text that lies on a line, so many bytes inside it; the lines in
front are closed by line feeds. -/
structure LineAt (text : String) (offset : Nat) (earlier : List String) (line : String)
    (inside : Nat) : Prop where
  text_eq : ∃ later, text = Text.closed earlier ++ (line ++ later)
  offset_eq : offset = (Text.closed earlier).utf8ByteSize + inside
  inside_le : inside ≤ line.utf8ByteSize
  earlier_single : ∀ other ∈ earlier, Text.SingleLine other
  line_single : Text.SingleLine line

/-- An offset is found on the line that it lies on, and past the end at the end. -/
theorem exists_find_eq {lines : List String} (hlines : lines ≠ []) (first offset : Nat) :
    ∃ earlier line later inside, lines = earlier ++ line :: later ∧
      inside ≤ line.utf8ByteSize ∧
      min offset (Text.unlines lines).utf8ByteSize =
        (Text.closed earlier).utf8ByteSize + inside ∧
      find first lines offset = (first + earlier.length, column line inside) := by
  induction lines generalizing first offset with
  | nil => exact absurd rfl hlines
  | cons line rest ih =>
      cases rest with
      | nil =>
          refine ⟨[], line, [], min offset line.utf8ByteSize, rfl, Nat.min_le_right _ _, ?_, rfl⟩
          rw [Text.unlines_singleton]
          exact (Nat.zero_add _).symm
      | cons next rest =>
          have hsize := Text.byteSize_unlines_cons line (List.cons_ne_nil next rest)
          rw [find]
          -- The offset is on the first line, or it is looked for in the rest, without the
          -- line and its feed.
          split
          · refine ⟨[], line, next :: rest, offset, rfl, ‹_›, ?_, rfl⟩
            have hzero : (Text.closed []).utf8ByteSize = 0 := rfl
            omega
          · obtain ⟨earlier, found, later, inside, hsplit, hle, hoffset, hfind⟩ :=
              ih (List.cons_ne_nil next rest) (first + 1) (offset - (line.utf8ByteSize + 1))
            refine ⟨line :: earlier, found, later, inside, ?_, hle, ?_, ?_⟩
            · rw [hsplit, List.cons_append]
            · have hfeed : "\n".utf8ByteSize = 1 := rfl
              rw [Text.closed, String.utf8ByteSize_append, String.utf8ByteSize_append, hfeed]
              omega
            · rw [hfind, List.length_cons, Nat.add_assoc first, Nat.add_comm 1]

/-- **Every offset lies on a line**, those past the end as the end does. -/
theorem exists_lineAt (text : String) (offset : Nat) :
    ∃ earlier line inside, LineAt text (min offset text.utf8ByteSize) earlier line inside ∧
      find 1 (Text.lines text) offset = (1 + earlier.length, column line inside) := by
  obtain ⟨earlier, line, later, inside, hlines, hle, hoffset, hfind⟩ :=
    exists_find_eq (Text.lines_ne_nil text) 1 offset
  rw [Text.unlines_lines] at hoffset
  have hsingle : ∀ other ∈ earlier ++ line :: later, Text.SingleLine other := by
    intro other hother
    rw [← hlines] at hother
    exact Text.singleLine_of_mem_lines hother
  refine ⟨earlier, line, inside, ⟨?_, hoffset, hle, ?_, ?_⟩, hfind⟩
  · have htext := Text.unlines_lines text
    rw [hlines, Text.unlines_append_closed earlier (List.cons_ne_nil line later)] at htext
    cases later with
    | nil => exact ⟨"", by rw [← htext, Text.unlines_singleton, String.append_empty]⟩
    | cons next later =>
        refine ⟨"\n" ++ Text.unlines (next :: later), ?_⟩
        rw [← htext, Text.unlines_cons line (List.cons_ne_nil next later), String.append_assoc]
  · exact fun other hother => hsingle other (List.mem_append_left _ hother)
  · exact hsingle line (List.mem_append_right _ List.mem_cons_self)

namespace LineAt

variable {text : String} {offset : Nat} {earlier : List String} {line : String} {inside : Nat}

/-- The bytes in front of the offset: the lines that are closed, and what is in
front on its own line. -/
theorem take_bytes (h : LineAt text offset earlier line inside) :
    (Text.bytes text).take offset =
      Text.bytes (Text.closed earlier) ++ (Text.bytes line).take inside := by
  obtain ⟨later, htext⟩ := h.text_eq
  have hle := h.inside_le
  rw [htext, h.offset_eq, Text.bytes_append, Text.bytes_append, ← Text.length_bytes,
    List.take_length_add_append, List.take_append_of_le_length]
  rwa [Text.length_bytes]

/-- There is no line feed between the start of a line and the offset. -/
theorem feed_not_mem_take (h : LineAt text offset earlier line inside) :
    Text.feed ∉ (Text.bytes line).take inside :=
  fun hfeed => h.line_single.feed_not_mem (List.mem_of_mem_take hfeed)

/-- The line feeds in front of the offset close the lines before its own. -/
theorem count_feed (h : LineAt text offset earlier line inside) :
    ((Text.bytes text).take offset).count Text.feed = earlier.length := by
  rw [h.take_bytes, List.count_append, Text.count_closed h.earlier_single,
    List.count_eq_zero.2 h.feed_not_mem_take, Nat.add_zero]

/-- Behind the last line feed in front of the offset are the bytes in front on its
own line. -/
theorem bytes_since_feed (h : LineAt text offset earlier line inside) :
    (((Text.bytes text).take offset).reverse.takeWhile (· != Text.feed)).length = inside := by
  have hfront : Text.bytes (Text.closed earlier) = [] ∨
      ∃ init, Text.bytes (Text.closed earlier) = init ++ [Text.feed] := by
    rcases Text.closed_eq_or earlier with hnone | ⟨init, hinit⟩
    · exact .inl (by rw [hnone]; rfl)
    · exact .inr ⟨Text.bytes init, by rw [hinit, Text.bytes_append, Text.bytes_feed]⟩
  have hle := h.inside_le
  rw [← Text.length_bytes] at hle
  rw [h.take_bytes, Text.takeWhile_reverse_append hfront h.feed_not_mem_take, List.length_reverse,
    List.length_take_of_le hle]

/-- To cut the text at the offset is to cut its line. -/
theorem split (h : LineAt text offset earlier line inside) {before after : String}
    (htext : text = before ++ after) (hsize : before.utf8ByteSize = offset) :
    ∃ piece rest, line = piece ++ rest ∧ piece.utf8ByteSize = inside ∧
      before = Text.closed earlier ++ piece := by
  obtain ⟨later, hlater⟩ := h.text_eq
  have hoffset := h.offset_eq
  have hle := h.inside_le
  obtain ⟨piece, rfl, hpiece⟩ :=
    Text.exists_of_append_eq_append (hlater.symm.trans htext) (by omega)
  rw [String.utf8ByteSize_append] at hsize
  obtain ⟨rest, rfl, -⟩ := Text.exists_of_append_eq_append hpiece.symm (by omega)
  exact ⟨piece, rest, rfl, by omega, rfl⟩

/-- The offset is between two characters of the text just if it is on its line. -/
theorem isValid_iff (h : LineAt text offset earlier line inside) :
    (String.Pos.Raw.mk offset).IsValid text ↔ (String.Pos.Raw.mk inside).IsValid line := by
  rw [String.Pos.Raw.isValid_iff_exists_append, String.Pos.Raw.isValid_iff_exists_append]
  constructor
  · rintro ⟨before, after, htext, hsize⟩
    obtain ⟨piece, rest, hline, hpiece, -⟩ :=
      h.split htext (congrArg String.Pos.Raw.byteIdx hsize).symm
    exact ⟨piece, rest, hline, String.Pos.Raw.ext hpiece.symm⟩
  · rintro ⟨piece, rest, hline, hsize⟩
    obtain ⟨later, htext⟩ := h.text_eq
    refine ⟨Text.closed earlier ++ piece, rest ++ later, ?_, String.Pos.Raw.ext ?_⟩
    · rw [htext, hline]
      simp only [String.append_assoc]
    · have hinside : inside = piece.utf8ByteSize := congrArg String.Pos.Raw.byteIdx hsize
      rw [String.byteIdx_rawEndPos, String.utf8ByteSize_append, h.offset_eq, hinside]

end LineAt

/-- What a location has to say of an offset that is not past the end of the
text. -/
structure Exact (text : String) (offset : Nat) (location : Location) : Prop where
  /-- The line counts the line feeds in front of the offset. -/
  line : location.line.toNat = 1 + ((Text.bytes text).take offset).count Text.feed
  /-- Between two characters, the column counts the UTF-16 code units behind the
  last line feed in front of the offset. -/
  units : ∀ before after, text = before ++ after → before.utf8ByteSize = offset →
    location.column.toNat = Text.units (before.toList.reverse.takeWhile (· != '\n'))
  /-- Inside a character, the column counts the bytes behind that line feed. -/
  bytes : ¬ (String.Pos.Raw.mk offset).IsValid text →
    location.column.toNat =
      (((Text.bytes text).take offset).reverse.takeWhile (· != Text.feed)).length

/-- The characters behind the last line feed of closed lines and some more text
without one. -/
theorem takeWhile_closed (earlier : List String) {piece : String} (h : Text.SingleLine piece) :
    (Text.closed earlier ++ piece).toList.reverse.takeWhile (· != '\n') = piece.toList.reverse := by
  have hfront : (Text.closed earlier).toList = [] ∨
      ∃ init, (Text.closed earlier).toList = init ++ ['\n'] := by
    rcases Text.closed_eq_or earlier with hnone | ⟨init, hinit⟩
    · exact .inl (by rw [hnone]; rfl)
    · exact .inr ⟨init.toList, by rw [hinit, String.toList_append]; rfl⟩
  rw [String.toList_append]
  exact Text.takeWhile_reverse_append hfront h

/-- **A location is exact** if its line and its column are those of the line on
which the offset lies. -/
theorem LineAt.exact {text : String} {offset : Nat} {earlier : List String} {line : String}
    {inside : Nat} (h : LineAt text offset earlier line inside) {location : Location}
    (hline : location.line.toNat = 1 + earlier.length)
    (hcolumn : location.column.toNat = column line inside) : Exact text offset location := by
  refine ⟨?_, ?_, ?_⟩
  · rw [hline, h.count_feed]
  · intro before after htext hsize
    obtain ⟨piece, rest, rfl, rfl, rfl⟩ := h.split htext hsize
    have hsingle : Text.SingleLine piece := by
      intro hfeed
      apply h.line_single
      rw [String.toList_append]
      exact List.mem_append_left _ hfeed
    rw [hcolumn, column_append, takeWhile_closed earlier hsingle, Text.units_reverse]
  · intro hinvalid
    rw [hcolumn, h.bytes_since_feed]
    exact column_of_not_isValid fun hvalid => hinvalid (h.isValid_iff.2 hvalid)

/-- The column that is found is the column of the location, as far as columns can be
numbered. -/
theorem column_location {text : String} (hsize : text.utf8ByteSize < UInt32.size) (offset : Nat) :
    ((ofText text).location offset).column.toNat = (find 1 (Text.lines text) offset).2 := by
  obtain ⟨earlier, line, inside, h, hfind⟩ := exists_lineAt text offset
  have hoffset := h.offset_eq
  have hle := column_le line inside
  have hlt : (find 1 (Text.lines text) offset).2 < UInt32.size := by
    rw [hfind]
    change column line inside < UInt32.size
    omega
  exact UInt32.toNat_ofNat_of_lt' hlt

/-- **Every location is exact**: it tells of the offset, or of the end of the text
if the offset is past it. -/
theorem exact_location {text : String} (hsize : text.utf8ByteSize < UInt32.size - 1)
    (offset : Nat) :
    Exact text (min offset text.utf8ByteSize) ((ofText text).location offset) := by
  obtain ⟨earlier, line, inside, h, hfind⟩ := exists_lineAt text offset
  apply h.exact
  · rw [line_location (lineCount_lt hsize), hfind]
  · rw [column_location (by omega), hfind]

end LineIndex
end ScopeTrack
