/-
# Where patches land

A site belongs to a construct, but its patch is put at the end of a line, so what
else ends on that line decides where the patch lands.

| what ends on the line of the change | where the patch lands |
| --- | --- |
| the function around the change | behind the function |
| the whole program | behind the program |
| a part of a construct, which goes on | in that construct |
| the same, and something that follows goes on too | in what follows |

So a patch is inside the function whose variable it copies just if that function
ends on a later line (`Analysis.sites_inside_owners`), and it is between statements
just if the construct that it lands in holds statements
(`Analysis.sites_between_statements`).
-/

import ScopeTrack.Proofs.Patch.Point
import ScopeTrack.Proofs.Track.Recorded
import ScopeTrack.Proofs.Tree.Layout

namespace ScopeTrack

/-- The text with the patch of the site has the patch at the point, on a line of
its own. -/
def Patch.PutsAt (source : String) (site : UpdateSite) (point : Nat) : Prop :=
  ∃ before after, source = before ++ after ∧ before.utf8ByteSize = point ∧
    splice (Text.lines source) [site] = .ok (before ++ "\n" ++ site.patch ++ after)

/-- A construct goes on after a line on which `part`, its child around `n`, ends;
the children after that one are given too. -/
structure Node.GoesOn (lines : LineIndex) (number : Nat) (around part : Node)
    (after : List Node) (n : Node) : Prop where
  children : ∃ before, around.children = before ++ part :: after
  holds : n ∈ part.nodes
  starts : around.span.start ≤ n.span.start
  ends : lines.lineOf part.span.stop ≤ number
  goesOn : number < lines.lineOf around.span.stop

namespace Tracker

section

variable {program n : Node} {t : Tracker} {source tableName : String} {site : UpdateSite}
  (delivered : program.Delivered) (hcount : (LineIndex.ofText source).lineCount < UInt32.size)
  (arrives : Arrives (start source tableName) program t n) (records : t.Records n site)
include delivered arrives records

/-- A site is on the line where its construct ends. -/
theorem Arrives.line_of_records : site.line = (LineIndex.ofText source).lineOf n.span.stop := by
  rw [UpdateSite.line, (arrives.location_of_records delivered records).1]
  rfl

include hcount

/-- That is a line of the text, so the patch finds its place. -/
theorem Arrives.line_bounds :
    1 ≤ site.line ∧ site.line ≤ (LineIndex.ofText source).lineCount := by
  rw [arrives.line_of_records delivered records]
  exact LineIndex.location_line_bounds hcount n.span.stop

/-- The patch is put behind that line, at the end of it. -/
theorem Arrives.putsAt_point : Patch.PutsAt source site (site.point source) := by
  obtain ⟨hpos, hle⟩ := arrives.line_bounds delivered hcount records
  exact Patch.splice_at_point hpos hle

/-- A patch lands behind the construct that it belongs to. -/
theorem Arrives.stop_le_point (laid : program.LaidOut source) :
    n.span.stop ≤ site.point source := by
  obtain ⟨hpos, hle⟩ := arrives.line_bounds delivered hcount records
  have hbound := laid.stop_le_size arrives.mem_nodes
  have hline := arrives.line_of_records delivered records
  exact (LineIndex.lineOf_le_iff hcount hpos hle hbound).1 (by omega)

/-- **A patch lands inside a function around the change** just if the function
ends on a later line. -/
theorem Arrives.surrounds_point_iff (laid : program.LaidOut source) {f : Node}
    (hf : f ∈ program.nodes) (hfunction : f.form.isFunction = true) (hn : n ∈ f.nodes) :
    f.span.Surrounds (site.point source) ↔
      site.line < (LineIndex.ofText source).lineOf f.span.stop := by
  obtain ⟨hpos, hle⟩ := arrives.line_bounds delivered hcount records
  obtain ⟨-, hchanging⟩ := arrives.location_of_records delivered records
  have hstop := arrives.stop_le_point delivered hcount records laid
  have hstart := laid.functions f hf hfunction n hn
  have hnonempty := laid.changing n arrives.mem_nodes hchanging
  have hend := laid.lineEnd_lt_stop_iff hcount hpos hle hf
  unfold Span.Surrounds
  rw [← hend]
  unfold UpdateSite.point at hstop ⊢
  omega

/-- A patch lands in nothing that is in the construct it belongs to. -/
theorem Arrives.not_surrounds_of_mem (laid : program.LaidOut source) {m : Node}
    (hm : m ∈ n.nodes) : ¬m.span.Surrounds (site.point source) := by
  rintro ⟨-, hlt⟩
  have hstop := arrives.stop_le_point delivered hcount records laid
  have hinner := laid.stops n arrives.mem_nodes m hm
  omega

/-- A construct that goes on after the line is around the patch, and below it
only what follows on that line can be. -/
theorem Arrives.surrounds_of_goesOn (laid : program.LaidOut source) {around part : Node}
    {after : List Node} (haround : around ∈ program.nodes)
    (goesOn : around.GoesOn (LineIndex.ofText source) site.line part after n) :
    around.span.Surrounds (site.point source) ∧
      ∀ k ∈ Node.nodesIn around.children, k.span.Surrounds (site.point source) →
        k ∈ Node.nodesIn after := by
  obtain ⟨hpos, hle⟩ := arrives.line_bounds delivered hcount records
  obtain ⟨-, hchanging⟩ := arrives.location_of_records delivered records
  have hstop := arrives.stop_le_point delivered hcount records laid
  have hnonempty := laid.changing n arrives.mem_nodes hchanging
  have hstarts := goesOn.starts
  have hends := goesOn.ends
  -- The change ends at or before the point, so it starts before it, and `around` does.
  have hstart : n.span.start ≤ site.point source := by omega
  refine ⟨⟨by omega, (laid.lineEnd_lt_stop_iff hcount hpos hle haround).2 goesOn.goesOn⟩, ?_⟩
  intro k hk hsurrounds
  obtain ⟨before, hchildren⟩ := goesOn.children
  obtain ⟨child, hchild, hmem⟩ := Node.mem_nodesIn.1 hk
  have hin : child ∈ program.nodes :=
    Node.mem_nodes_trans haround (Node.mem_nodes_of_child hchild (Node.mem_nodes_self child))
  have hkin : k ∈ program.nodes := Node.mem_nodes_trans hin hmem
  have hordered := laid.ordered around haround
  rw [hchildren, List.pairwise_append] at hordered
  rw [hchildren, List.mem_append, List.mem_cons] at hchild
  rcases hchild with hbefore | hpart | hafter
  · -- What comes before `part` comes before the change in it.
    have hprecedes := hordered.2.2 child hbefore part List.mem_cons_self k hmem n goesOn.holds
    exact absurd hsurrounds (laid.not_surrounds_of_precedes hcount hpos hle hkin
      (Form.isIdentifier_of_isChanging hchanging) hprecedes hstart)
  · -- What is in `part` does not stop after it.
    rw [← hpart] at hends
    have hinner := laid.stops child hin k hmem
    have hlater := laid.lineEnd_lt_stop_iff hcount hpos hle hin
    obtain ⟨-, hlt⟩ := hsurrounds
    unfold UpdateSite.point at hlt
    omega
  · exact Node.mem_nodesIn.2 ⟨child, hafter, hmem⟩

end

end Tracker

/-- Around a construct that ends on a line, the whole tree ends there too, or
something goes on, provided that nothing around the construct starts after it. -/
theorem Node.exists_goesOn {lines : LineIndex} {number : Nat} {n : Node} (tree : Node)
    (hn : n ∈ tree.nodes) (hends : lines.lineOf n.span.stop ≤ number)
    (hstarts : ∀ m ∈ tree.nodes, n ∈ m.nodes → m.span.start ≤ n.span.start) :
    lines.lineOf tree.span.stop ≤ number ∨
      ∃ around ∈ tree.nodes, ∃ part after, around.GoesOn lines number part after n := by
  induction tree using Node.induction with
  | node role form span children ih =>
      let tree : Node := ⟨role, form, span, children⟩
      have hwhole := hn
      rw [nodes_eq, List.mem_cons] at hn
      rcases hn with rfl | hn
      · exact .inl hends
      obtain ⟨child, hchild, hn⟩ := mem_nodesIn.1 hn
      have hbelow : ∀ m ∈ child.nodes, m ∈ tree.nodes := fun m hm => mem_nodes_of_child hchild hm
      rcases ih child hchild hn fun m hm => hstarts m (hbelow m hm) with
        hpart | ⟨around, haround, part, after, goesOn⟩
      · rcases Nat.lt_or_ge number (lines.lineOf span.stop) with hlater | hline
        · obtain ⟨before, after, hsplit⟩ := List.append_of_mem hchild
          exact .inr ⟨tree, mem_nodes_self tree, child, after, ⟨before, hsplit⟩, hn,
            hstarts tree (mem_nodes_self tree) hwhole, hpart, hlater⟩
        · exact .inl hline
      · exact .inr ⟨around, hbelow around haround, part, after, goesOn⟩

namespace Analysis

/-- Every site of an analysis is recorded at a node that the traversal comes to. -/
theorem sites_recorded {program : Node} (delivered : program.Delivered)
    (source tableName : String) :
    ∃ a log, ofProgram tableName source program = .ok (a, log) ∧
      ∀ site ∈ a.sites, ∃ t n, Tracker.Arrives (.start source tableName) program t n ∧
        t.Records n site := by
  obtain ⟨t, hvisit, -⟩ := Tracker.visit_delivered delivered source tableName
  refine ⟨ofTracker t, t.log, ofProgram_of_visit hvisit, ?_⟩
  intro site hsite
  exact Tracker.exists_records_of_visit program _ t hvisit hsite List.not_mem_nil

/-- The declarator of `oneLineFunction`. -/
def oneLineDeclarator : Node :=
  ⟨.other, .declarator, ⟨20, 29⟩, [
    ⟨.subject, .identifier "b", ⟨20, 21⟩, []⟩,
    ⟨.value, .other, ⟨24, 29⟩, [
      ⟨.other, .identifier "a", ⟨24, 25⟩, []⟩,
      ⟨.other, .other, ⟨28, 29⟩, []⟩]⟩]⟩

/-- `function f(a) { let b = a + 1; }` -/
def oneLineFunction : Node :=
  ⟨.other, .program, ⟨0, 32⟩, [
    ⟨.statement, .function .declaration (some "f"), ⟨0, 32⟩, [
      ⟨.other, .identifier "f", ⟨9, 10⟩, []⟩,
      ⟨.parameter, .identifier "a", ⟨11, 12⟩, []⟩,
      ⟨.body, .statementList, ⟨14, 32⟩, [
        ⟨.other, .variableDeclaration, ⟨16, 30⟩, [oneLineDeclarator]⟩]⟩]⟩]⟩

/-- **A patch lands inside the function whose variable it copies just if the
function ends on a later line** than the change.  The function that owns the
innermost scope when a site is recorded is one of the functions around the
change, and a patch is put at the end of the line on which the change ends. -/
theorem sites_inside_owners {program : Node} (delivered : program.Delivered) {source : String}
    (laid : program.LaidOut source) (hcount : (LineIndex.ofText source).lineCount < UInt32.size)
    (tableName : String) :
    ∃ a log, ofProgram tableName source program = .ok (a, log) ∧
      (∀ site ∈ a.sites, ∃ t n, Tracker.Arrives (.start source tableName) program t n ∧
        t.Records n site) ∧
      ∀ t n site, Tracker.Arrives (.start source tableName) program t n → t.Records n site →
        Patch.PutsAt source site (site.point source) ∧
        ∀ owner, t.owner? = some owner →
          (∃ f ∈ program.nodes, f.form.isFunction = true ∧ n ∈ f.nodes ∧ f.span = owner) ∧
          (owner.Surrounds (site.point source) ↔
            site.line < (LineIndex.ofText source).lineOf owner.stop) := by
  obtain ⟨a, log, hanalysis, hrecorded⟩ := sites_recorded delivered source tableName
  refine ⟨a, log, hanalysis, hrecorded, ?_⟩
  intro t n site arrives records
  refine ⟨arrives.putsAt_point delivered hcount records, ?_⟩
  intro owner howner
  have hn := arrives.form_ne_program delivered records
  obtain ⟨f, hf, hfunction, hin, rfl⟩ := arrives.owner_around delivered hn howner
  exact ⟨⟨f, hf, hfunction, hin, rfl⟩,
    arrives.surrounds_point_iff delivered hcount records laid hf hfunction hin⟩

/-- A function on one line has its patch behind it, where its variables are not
known. -/
theorem sites_inside_owners_oneLineFunction :
    oneLineFunction.Delivered ∧
      oneLineFunction.LaidOut "function f(a) { let b = a + 1; }" ∧
      ∃ t site, Tracker.Arrives (.start "function f(a) { let b = a + 1; }" "state")
          oneLineFunction t oneLineDeclarator ∧
        t.Records oneLineDeclarator site ∧ site.key = some "Program:f:b" ∧
        t.owner? = some ⟨0, 32⟩ ∧
        ¬Span.Surrounds ⟨0, 32⟩ (site.point "function f(a) { let b = a + 1; }") := by
  have delivered : oneLineFunction.Delivered := ⟨⟨rfl, by decide⟩, by decide⟩
  have laid : oneLineFunction.LaidOut "function f(a) { let b = a + 1; }" :=
    ⟨by decide, by decide, by decide, by decide, by decide +kernel⟩
  obtain ⟨-, -, -, -, hsites⟩ := sites_inside_owners delivered laid (by decide +kernel) "state"
  let site : UpdateSite := ⟨⟨1, 29⟩, 0, some "Program:f:b",
    UpdateSite.writeBack "state" "Program:f:b" "b"⟩
  obtain ⟨t, arrives, records, howner⟩ :
      ∃ t, Tracker.Arrives (.start "function f(a) { let b = a + 1; }" "state") oneLineFunction t
          oneLineDeclarator ∧
        t.Records oneLineDeclarator site ∧ t.owner? = some ⟨0, 32⟩ := by
    refine ⟨_, .inside rfl (List.nil_append [_]).symm rfl <|
      .inside rfl (show _ = [_, _] ++ [_] from rfl) rfl <|
      .inside rfl (List.nil_append [_]).symm rfl <|
      .inside rfl (List.nil_append [_]).symm rfl (.here _ _), ⟨⟨_, rfl, ?_⟩, ?_⟩, rfl⟩
    · decide +kernel
    · decide +kernel
  obtain ⟨-, howners⟩ := hsites t oneLineDeclarator site arrives records
  obtain ⟨-, hinside⟩ := howners ⟨0, 32⟩ howner
  refine ⟨delivered, laid, t, site, arrives, records, rfl, howner, ?_⟩
  rw [hinside]
  decide +kernel

/-- The first declarator of `twoLineDeclaration`. -/
def twoLineFirst : Node :=
  ⟨.other, .declarator, ⟨4, 9⟩, [
    ⟨.subject, .identifier "a", ⟨4, 5⟩, []⟩,
    ⟨.value, .other, ⟨8, 9⟩, []⟩]⟩

/-- The second declarator of `twoLineDeclaration`. -/
def twoLineSecond : Node :=
  ⟨.other, .declarator, ⟨15, 20⟩, [
    ⟨.subject, .identifier "b", ⟨15, 16⟩, []⟩,
    ⟨.value, .other, ⟨19, 20⟩, []⟩]⟩

/-- `let a = 1,` and `    b = 2;` on the next line. -/
def twoLineDeclaration : Node :=
  ⟨.statement, .variableDeclaration, ⟨0, 21⟩, [twoLineFirst, twoLineSecond]⟩

/-- The program that is a `twoLineDeclaration`. -/
def twoLineProgram : Node :=
  ⟨.other, .program, ⟨0, 21⟩, [twoLineDeclaration]⟩

/-- **A patch lands between statements just if what it lands in holds
statements.**  It lands behind all that ends on its line.  Where the program ends
on that line, it lands behind the program.  Otherwise something around the change
goes on after the line.  If nothing that follows on the line goes on too, this is
the innermost construct around the patch; if something does, what is innermost is
found there. -/
theorem sites_between_statements {program : Node} (delivered : program.Delivered)
    {source : String} (laid : program.LaidOut source)
    (hcount : (LineIndex.ofText source).lineCount < UInt32.size) (tableName : String) :
    ∃ a log, ofProgram tableName source program = .ok (a, log) ∧
      (∀ site ∈ a.sites, ∃ t n, Tracker.Arrives (.start source tableName) program t n ∧
        t.Records n site) ∧
      ∀ t n site, Tracker.Arrives (.start source tableName) program t n → t.Records n site →
        let lines := LineIndex.ofText source
        let point := site.point source
        Patch.PutsAt source site point ∧
        (∀ m ∈ n.nodes, ¬m.span.Surrounds point) ∧
        (lines.lineOf program.span.stop ≤ site.line → program.BetweenStatements point) ∧
        ((∀ m ∈ program.nodes, n ∈ m.nodes → m.span.start ≤ n.span.start) →
          lines.lineOf program.span.stop ≤ site.line ∨
            ∃ around ∈ program.nodes, ∃ part after,
              around.GoesOn lines site.line part after n) ∧
        ∀ around ∈ program.nodes, ∀ part after, around.GoesOn lines site.line part after n →
          ((∀ m ∈ Node.nodesIn after, ¬m.span.Surrounds point) →
            program.InnermostAt point around ∧
              (program.BetweenStatements point ↔ around.form.holdsStatements = true)) ∧
          ∀ m ∈ Node.nodesIn after, m.span.Surrounds point →
            (program.BetweenStatements point ↔ m.BetweenStatements point) := by
  obtain ⟨a, log, hanalysis, hrecorded⟩ := sites_recorded delivered source tableName
  refine ⟨a, log, hanalysis, hrecorded, ?_⟩
  intro t n site arrives records lines point
  obtain ⟨hpos, hle⟩ := arrives.line_bounds delivered hcount records
  have hline := arrives.line_of_records delivered records
  refine ⟨arrives.putsAt_point delivered hcount records, ?_, ?_, ?_, ?_⟩
  · intro m hm
    exact arrives.not_surrounds_of_mem delivered hcount records laid hm
  · exact laid.betweenStatements_of_last hcount hpos hle
  · exact Node.exists_goesOn program arrives.mem_nodes (Nat.le_of_eq hline.symm)
  · intro around haround part after goesOn
    obtain ⟨hsurrounds, hfollows⟩ :=
      arrives.surrounds_of_goesOn delivered hcount records laid haround goesOn
    constructor
    · intro hafter
      -- Only what comes behind the part could go on after the line, and by assumption it
      -- does not.
      have hbelow : ∀ k ∈ Node.nodesIn around.children, ¬k.span.Surrounds point :=
        fun k hk hpoint => hafter k (hfollows k hk hpoint) hpoint
      exact ⟨⟨haround, hsurrounds, hbelow⟩,
        (laid.betweenStatements_iff hcount hpos hle haround hsurrounds).trans
          (Node.betweenStatements_self_iff hsurrounds hbelow)⟩
    · intro m hm hpoint
      obtain ⟨before, hchildren⟩ := goesOn.children
      obtain ⟨child, hchild, hin⟩ := Node.mem_nodesIn.1 hm
      have hbelow : child ∈ around.children := by
        rw [hchildren]
        exact List.mem_append_right _ (List.mem_cons_of_mem _ hchild)
      -- The innermost node is in `m`, so the question is that of `m` alone.
      have hmem : m ∈ program.nodes :=
        Node.mem_nodes_trans haround (Node.mem_nodes_of_child hbelow hin)
      exact laid.betweenStatements_iff hcount hpos hle hmem hpoint

/-- A declaration that goes on after a line is cut in two by the patch for its
first variable. -/
theorem sites_between_statements_twoLineProgram :
    twoLineProgram.Delivered ∧ twoLineProgram.LaidOut "let a = 1,\n    b = 2;" ∧
      ∃ t site, Tracker.Arrives (.start "let a = 1,\n    b = 2;" "state") twoLineProgram t
          twoLineFirst ∧
        t.Records twoLineFirst site ∧ site.key = some "Program:a" ∧
        twoLineProgram.InnermostAt (site.point "let a = 1,\n    b = 2;") twoLineDeclaration ∧
        ¬twoLineProgram.BetweenStatements (site.point "let a = 1,\n    b = 2;") := by
  have delivered : twoLineProgram.Delivered := ⟨⟨rfl, by decide⟩, by decide⟩
  have laid : twoLineProgram.LaidOut "let a = 1,\n    b = 2;" :=
    ⟨by decide, by decide, by decide, by decide, by decide +kernel⟩
  obtain ⟨-, -, -, -, hsites⟩ :=
    sites_between_statements delivered laid (by decide +kernel) "state"
  let site : UpdateSite := ⟨⟨1, 9⟩, 0, some "Program:a",
    UpdateSite.writeBack "state" "Program:a" "a"⟩
  obtain ⟨t, arrives, records⟩ :
      ∃ t, Tracker.Arrives (.start "let a = 1,\n    b = 2;" "state") twoLineProgram t
          twoLineFirst ∧ t.Records twoLineFirst site := by
    refine ⟨_, .inside rfl (List.nil_append [_]).symm rfl <|
      .inside rfl (List.nil_append [_, _]).symm rfl (.here _ _), ⟨⟨_, rfl, ?_⟩, ?_⟩⟩
    · decide +kernel
    · decide +kernel
  have haround : twoLineDeclaration ∈ twoLineProgram.nodes :=
    Node.mem_nodes_of_child List.mem_cons_self (Node.mem_nodes_self twoLineDeclaration)
  have goesOn : twoLineDeclaration.GoesOn (LineIndex.ofText "let a = 1,\n    b = 2;") site.line
      twoLineFirst [twoLineSecond] twoLineFirst :=
    ⟨⟨[], rfl⟩, Node.mem_nodes_self twoLineFirst, by decide, by decide +kernel, by decide +kernel⟩
  obtain ⟨-, -, -, -, hlands⟩ := hsites t twoLineFirst site arrives records
  obtain ⟨hinnermost, hbetween⟩ :=
    (hlands twoLineDeclaration haround twoLineFirst [twoLineSecond] goesOn).1 (by decide +kernel)
  refine ⟨delivered, laid, t, site, arrives, records, rfl, hinnermost, ?_⟩
  rw [hbetween]
  decide

end Analysis
end ScopeTrack
