/-
# Where the lines of an instrumented text stand

An instrumented text is the lines of the header, and then each line of the source
text followed by the patches of the sites on it (`apply_eq`).  So the line of a
given number stands after the header, the lines before it, and the patches of the
sites on those (`drop_position`), and reading the lines at these positions gives
back the source text (`unlines_at_positions`).

`instrument_splices` puts this together for every program: what is collected from
it can always be patched, so instrumenting never fails, and the lines of the output
are told by the analysis of that program and by nothing else.
-/

import ScopeTrack.Proofs.Patch.Output
import ScopeTrack.Proofs.Track.Patchable

namespace ScopeTrack
namespace Patch

/-- The lines of the header, the empty line among them. -/
def heading (table tableText : String) : List String :=
  [autogenMark, "let " ++ table ++ " = " ++ Text.trim tableText ++ ";", headerEnd] ++ [""]

/-- The lines of a source text, each followed by the patches of the sites on
it. -/
def body (source : String) (sites : List UpdateSite) : List String :=
  interleave (fun number => (onLine sites number).map UpdateSite.patch) 1 (Text.lines source)

/-- The position, counted from 1, that a line of the source text has in the
instrumented text. -/
def position (sites : List UpdateSite) (number : Nat) : Nat :=
  headerLines + number + countBefore sites number

/-- The lines, from the one of index `i` on. -/
theorem interleave_eq_of_getElem? {patches : Nat → List String} {first i : Nat}
    {lines : List String} {line : String} (h : lines[i]? = some line) :
    interleave patches first lines =
      interleave patches first (lines.take i) ++
        line :: (patches (first + i) ++
          interleave patches (first + i + 1) (lines.drop (i + 1))) := by
  obtain ⟨hi, rfl⟩ := List.getElem?_eq_some_iff.1 h
  have hsplit : lines = lines.take i ++ lines[i] :: lines.drop (i + 1) := by
    rw [← List.drop_eq_getElem_cons hi, List.take_append_drop]
  have hlength : (lines.take i).length = i := List.length_take_of_le (by omega)
  calc interleave patches first lines
      = interleave patches first (lines.take i ++ lines[i] :: lines.drop (i + 1)) := by
        rw [← hsplit]
    _ = _ := by rw [interleave_append, hlength, interleave]

variable {source : String} {sites : List UpdateSite}
  (fits : ∀ site ∈ sites, site.Fits (LineIndex.ofText source).lineCount)
include fits

theorem countBefore_first : countBefore sites 1 = 0 := by
  apply List.countP_eq_zero.2
  intro site hsite
  have := (fits site hsite).pos
  rw [decide_eq_true_iff]
  omega

theorem countBefore_all :
    countBefore sites (1 + (LineIndex.ofText source).lineCount) = sites.length := by
  apply List.countP_eq_length.2
  intro site hsite
  have := (fits site hsite).le
  rw [decide_eq_true_iff]
  omega

/-- **The size of a patched text**: its lines and the sites. -/
theorem length_body :
    (body source sites).length = (LineIndex.ofText source).lineCount + sites.length := by
  have hlength := length_interleave_onLine sites 1 (Text.lines source)
  have hfirst := countBefore_first fits
  have hall := countBefore_all fits
  change countBefore sites (1 + (Text.lines source).length) = _ at hall
  change _ = (Text.lines source).length + _
  rw [body]
  omega

/-- **The position of a line**: the header, the lines before it and the patches
of the sites on those are in front of it, and the patches of the sites on it come
next. -/
theorem drop_position (table tableText : String) {i : Nat} {line : String}
    (h : (Text.lines source)[i]? = some line) :
    ∃ rest, (heading table tableText ++ body source sites).drop (position sites (i + 1) - 1) =
      line :: ((onLine sites (i + 1)).map UpdateSite.patch ++ rest) := by
  obtain ⟨hi, -⟩ := List.getElem?_eq_some_iff.1 h
  have htake : ((Text.lines source).take i).length = i := List.length_take_of_le (by omega)
  have hlength := length_interleave_onLine sites 1 ((Text.lines source).take i)
  have hfirst := countBefore_first fits
  rw [htake, hfirst, Nat.add_comm 1 i] at hlength
  rw [body, interleave_eq_of_getElem? h, ← List.append_assoc, Nat.add_comm 1 i]
  refine ⟨_, List.drop_left' ?_⟩
  have hheading : (heading table tableText).length = headerLines := rfl
  rw [List.length_append, hheading, position]
  omega

/-- **The source text is read off at the positions of its lines.**  -/
theorem unlines_at_positions (table tableText : String) :
    Text.unlines ((List.range (LineIndex.ofText source).lineCount).map fun i =>
      (heading table tableText ++ body source sites).getD (position sites (i + 1) - 1) "") =
      source := by
  have hlines : ((List.range (LineIndex.ofText source).lineCount).map fun i =>
      (heading table tableText ++ body source sites).getD (position sites (i + 1) - 1) "") =
      Text.lines source := by
    apply List.ext_getElem
    · rw [List.length_map, List.length_range]
      rfl
    · intro i _ hi
      obtain ⟨rest, hdrop⟩ := drop_position fits table tableText (List.getElem?_eq_getElem hi)
      rw [List.getElem_map, List.getElem_range, List.getD_eq_getElem?_getD, ← List.head?_drop,
        hdrop]
      rfl
  rw [hlines, Text.unlines_lines]

/-- Every part of an instrumented text is a single line, so its lines are found again
where they were put. -/
theorem singleLine_of_mem {table tableText : String} (htable : Text.SingleLine table)
    (htext : Text.SingleLine tableText) :
    ∀ part ∈ heading table tableText ++ body source sites, Text.SingleLine part := by
  intro part hpart
  rw [List.mem_append] at hpart
  rcases hpart with hpart | hpart
  · have hdeclared : Text.SingleLine ("let " ++ table ++ " = " ++ Text.trim tableText ++ ";") := by
      have hleft : Text.SingleLine ("let " ++ table ++ " = ") :=
        Text.singleLine_append (Text.singleLine_append (by decide) htable) (by decide)
      have hright := Text.singleLine_trim htext
      exact Text.singleLine_append (Text.singleLine_append hleft hright) (by decide)
    simp only [heading, List.cons_append, List.nil_append, List.mem_cons, List.not_mem_nil,
      or_false] at hpart
    rcases hpart with rfl | rfl | rfl | rfl
    · decide
    · exact hdeclared
    · decide
    · decide
  · rcases mem_interleave hpart with hline | ⟨number, hpatch⟩
    · exact Text.singleLine_of_mem_lines hline
    · obtain ⟨site, hsite, rfl⟩ := List.mem_map.1 hpatch
      have hmem := (onLine_perm sites number).mem_iff.1 hsite
      exact (fits site (List.mem_filter.1 hmem).1).patch

/-- **What patching gives**: the header, and then the lines with the patches. -/
theorem apply_eq (table tableText : String) :
    apply table tableText source sites =
      .ok (Text.unlines (heading table tableText ++ body source sites)) := by
  have hbounded : ∀ site ∈ sites, 1 ≤ site.line ∧ site.line ≤ (Text.lines source).length :=
    fun site hsite => ⟨(fits site hsite).pos, (fits site hsite).le⟩
  -- The body is not empty: it has the lines of the source, one at least.
  have hbody : body source sites ≠ [] := by
    have hlength := length_body fits
    have hpos := LineIndex.lineCount_pos source
    intro hnil
    rw [hnil, List.length_nil] at hlength
    omega
  have hheading : Text.unlines (heading table tableText) = header table tableText ++ "\n" := by
    rw [heading, Text.unlines_append (by simp) (by simp)]
    exact String.append_empty
  have hbreaks : header table tableText ++ "\n" ++ "\n" = header table tableText ++ "\n\n" := by
    rw [String.append_assoc]
    rfl
  rw [apply, splice, spliceLines_eq hbounded, Text.unlines_append (by simp [heading]) hbody,
    hheading, hbreaks]
  rfl

end Patch

/-- The instrumented text is the source text with a header in front and with the
patches of the sites between its lines. -/
structure Output.Splices (source tableName : String) (out : Output) : Prop where
  lineCount : out.analysis.lineCount = (Text.lines source).length
  /-- There is a line for each line of the source text and for each site, and the
  header. -/
  length : (Text.lines out.instrumented).length =
    out.analysis.lineCount + out.analysis.sites.length + Patch.headerLines
  header : (Text.lines out.instrumented).take Patch.headerLines =
    [autogenMark, "let " ++ tableName ++ " = " ++ Text.trim out.tableText ++ ";",
      Patch.headerEnd, ""]
  /-- At the position of a line stands that line, and right after it the patches
  of the sites on it, from the first to the last. -/
  line : ∀ number line, 1 ≤ number → (Text.lines source)[number - 1]? = some line →
    ∃ (here : List UpdateSite) (rest : List String),
      here.Perm (out.analysis.sites.filter fun site => site.line == number) ∧
      here.Pairwise (fun a b => a.precedes b = true) ∧
      (Text.lines out.instrumented).drop (Patch.position out.analysis.sites number - 1) =
        line :: (here.map UpdateSite.patch ++ rest)
  /-- The lines at these positions are the source text. -/
  source : Text.unlines ((List.range out.analysis.lineCount).map fun i =>
    (Text.lines out.instrumented).getD (Patch.position out.analysis.sites (i + 1) - 1) "") = source

/-- An output splices if the lines of its instrumented text are those of the
header and the patched lines of the source text. -/
theorem Output.splices_of_lines {source tableName : String} {out : Output}
    (fits : ∀ site ∈ out.analysis.sites, site.Fits (LineIndex.ofText source).lineCount)
    (hcount : out.analysis.lineCount = (LineIndex.ofText source).lineCount)
    (hlines : Text.lines out.instrumented =
      Patch.heading tableName out.tableText ++ Patch.body source out.analysis.sites) :
    out.Splices source tableName := by
  refine ⟨hcount, ?_, ?_, ?_, ?_⟩
  · have hbody := Patch.length_body fits
    have hheading : (Patch.heading tableName out.tableText).length = Patch.headerLines := rfl
    rw [hlines, List.length_append]
    omega
  · rw [hlines]
    exact List.take_left' rfl
  · intro number line hnumber hline
    obtain ⟨rest, hdrop⟩ := Patch.drop_position fits tableName out.tableText hline
    rw [Nat.sub_add_cancel hnumber, ← hlines] at hdrop
    exact ⟨_, rest, Patch.onLine_perm _ number, Patch.onLine_pairwise _ number, hdrop⟩
  · rw [hlines, hcount]
    exact Patch.unlines_at_positions fits tableName out.tableText

/-- What can be patched is patched. -/
theorem Output.splices_of_patchable {source tableName : String} {t : Tracker}
    (h : t.Patchable source tableName) (htable : Text.SingleLine tableName) :
    ∃ out, Output.ofAnalysis tableName source (.ofTracker t) = .ok out ∧
      out.Splices source tableName := by
  have happly := Patch.apply_eq h.sites tableName t.table.text
  have hlines := Text.lines_unlines
    (List.append_ne_nil_of_left_ne_nil (List.cons_ne_nil _ _) (Patch.body source t.sites))
    (Patch.singleLine_of_mem h.sites htable (Table.singleLine_text h.table))
  have hcount : (Analysis.ofTracker t).lineCount = (LineIndex.ofText source).lineCount :=
    congrArg LineIndex.lineCount h.lines
  have hout : Output.ofAnalysis tableName source (.ofTracker t) =
      (Patch.apply tableName t.table.text source t.sites).map fun instrumented =>
        ⟨.ofTracker t, t.table.text, (Analysis.ofTracker t).scopesJson.compact, instrumented⟩ := by
    rw [ofAnalysis]
    rfl
  rw [hout, happly]
  exact ⟨_, rfl, Output.splices_of_lines h.sites hcount hlines⟩

/-- **Instrumenting a program never fails and never touches a line of it**,
whatever the spans of the program are.  The output is made from the program, so the
sites between whose lines the source text is found are those that its analysis has
collected, and the table in the header is the one that the analysis has filled. -/
theorem instrument_splices {program : Node} (isProgram : program.IsProgram)
    (hnames : Node.NamesSingleLine program.nodes) {source tableName : String}
    (hsize : source.utf8ByteSize < UInt32.size - 1) (htable : TableName.isValid tableName = true)
    (file : String) :
    ∃ out, (instrument tableName file source (.ok program)).value = .ok out ∧
      out.MadeFrom tableName source program ∧ out.Splices source tableName := by
  have hname := TableName.singleLine_of_isValid htable
  obtain ⟨t, hvisit, h⟩ := Tracker.visit_patchable isProgram hnames hsize hname
  obtain ⟨out, hout, splices⟩ := Output.splices_of_patchable h hname
  have hvalue : (instrument tableName file source (.ok program)).value = .ok out := by
    simp only [instrument, analyze, Analysis.ofProgram_of_visit hvisit]
    exact hout
  obtain ⟨_, ⟨⟩, made⟩ := instrument_eq_ok_iff.1 hvalue
  exact ⟨out, hvalue, made, splices⟩

/-- `x = 1`, with spans that go past the end of the text. -/
def strayStatement : Node :=
  ⟨.other, .program, ⟨0, 90⟩, [
    ⟨.statement, .expressionStatement, ⟨0, 90⟩, [
      ⟨.value, .assignment, ⟨0, 90⟩, [
        ⟨.subject, .identifier "x", ⟨0, 1⟩, []⟩,
        ⟨.value, .other, ⟨4, 90⟩, []⟩]⟩]⟩]⟩

/-- The end of the text is the end of the statement: the table has the variable, and
the patch that writes it follows the only line. -/
theorem instrument_splices_stray :
    strayStatement.IsProgram ∧ Node.NamesSingleLine strayStatement.nodes ∧
      TableName.isValid "state" = true ∧
      ∃ out, (instrument "state" unnamedSource "x = 1" (.ok strayStatement)).value = .ok out ∧
        out.MadeFrom "state" "x = 1" strayStatement ∧ out.Splices "x = 1" "state" ∧
        Text.lines out.instrumented =
          ["/* autogen added */", "let state = \x7b\"Program:x\":null\x7d;",
            "/* end autogen added */", "", "x = 1",
            "state[\"Program:x\"] = x; /* autogen added */"] := by
  have isProgram : strayStatement.IsProgram := ⟨rfl, by decide⟩
  have hnames : Node.NamesSingleLine strayStatement.nodes := by
    intro m hm name hform
    simp only [strayStatement, Node.nodes, Node.nodesIn, List.nil_append, List.append_nil,
      List.cons_append, List.mem_cons, List.not_mem_nil, or_false] at hm
    rcases hm with rfl | rfl | rfl | rfl | rfl <;> cases hform
    decide
  have htable : TableName.isValid "state" = true := by decide +kernel
  have hsize : "x = 1".utf8ByteSize < UInt32.size - 1 := by decide
  obtain ⟨out, hvalue, made, splices⟩ :=
    instrument_splices isProgram hnames hsize htable unnamedSource
  have htext : (instrument "state" unnamedSource "x = 1" (.ok strayStatement)).value.toOption.map
      (fun out => Text.lines out.instrumented) =
        some ["/* autogen added */", "let state = \x7b\"Program:x\":null\x7d;",
          "/* end autogen added */", "", "x = 1",
          "state[\"Program:x\"] = x; /* autogen added */"] := by
    decide +kernel
  rw [hvalue] at htext
  exact ⟨isProgram, hnames, htable, out, hvalue, made, splices, Option.some.inj htext⟩

end ScopeTrack
