/-
# What is collected can be patched

Whatever the spans of a program are, what a traversal collects can be put into
the source text: every site is on a line of the text, its patch is a single line,
and the table holds no values (`Tracker.Patchable`).  This is kept by each node
that is entered or left, and so by the whole traversal (`visit_patchable`).
-/

import ScopeTrack.Proofs.Patch.Splice
import ScopeTrack.Proofs.Source.Lines
import ScopeTrack.Proofs.Text.SingleLine
import ScopeTrack.Proofs.Track.Collected
import ScopeTrack.Proofs.Track.Invariant

namespace ScopeTrack

/-- The names of the identifiers among some nodes hold no line feed. -/
def Node.NamesSingleLine (ns : List Node) : Prop :=
  ∀ m ∈ ns, ∀ name, m.form = .identifier name → Text.SingleLine name

/-- A site whose patch can be put between the lines of a text of so many lines. -/
structure UpdateSite.Fits (lineCount : Nat) (site : UpdateSite) : Prop where
  pos : 1 ≤ site.line
  le : site.line ≤ lineCount
  patch : Text.SingleLine site.patch

/-- The patch for a target whose name is a single line is one too. -/
theorem UpdateSite.singleLine_patch_make {table : String} (htable : Text.SingleLine table)
    {ns : List Node} (hnames : Node.NamesSingleLine ns) {target : Target} (h : target.From ns)
    (location : Location) (sequence : Nat) (scope : String) :
    Text.SingleLine (make table location sequence scope target).patch := by
  cases target with
  | named name =>
      obtain ⟨m, hm, hform⟩ := h
      have hname := hnames m hm name hform
      have hkey := Json.singleLine_quote (Table.key scope name)
      have hplace : Text.SingleLine (table ++ "[" ++ Json.quote (Table.key scope name)) :=
        Text.singleLine_append (Text.singleLine_append htable (by decide)) hkey
      have hwritten := Text.singleLine_append
        (Text.singleLine_append hplace (by decide : Text.SingleLine "] = ")) hname
      exact Text.singleLine_append (Text.singleLine_append hwritten (by decide)) (by decide)
  | unresolved label =>
      have hlabel : ∀ label ∈ Target.labels, Text.SingleLine label := by decide
      exact Text.singleLine_append (Text.singleLine_append (by decide) (hlabel label h)) (by decide)

namespace Tracker

/-- All that is collected can be put into the source text. -/
structure Patchable (source tableName : String) (t : Tracker) : Prop where
  lines : t.lines = LineIndex.ofText source
  tableName : t.tableName = tableName
  table : ∀ entry ∈ t.table.entries, entry.2 = .null
  sites : ∀ site ∈ t.sites, site.Fits (LineIndex.ofText source).lineCount

variable {source tableName : String} {t t₁ : Tracker} {q : Spot}

section

variable (hsize : source.utf8ByteSize < UInt32.size - 1) (htable : Text.SingleLine tableName)
include hsize htable

/-- Entering a node whose names are single lines collects only what fits. -/
theorem Entered.patchable (entered : Entered t q t₁) (h : t.Patchable source tableName)
    (hnames : Node.NamesSingleLine q.node.nodes) : t₁.Patchable source tableName := by
  refine ⟨entered.lines.trans h.lines, entered.tableName.trans h.tableName, ?_, ?_⟩
  · intro entry hentry
    rw [entered.table, Table.entries_registerAll, List.mem_append] at hentry
    rcases hentry with hentry | hentry
    · exact h.table entry hentry
    · obtain ⟨key, -, rfl⟩ := List.mem_map.1 hentry
      rfl
  · intro site hsite
    rw [entered.sites, Change.foldl_record, List.mem_append] at hsite
    rcases hsite with hsite | hsite
    · exact h.sites site hsite
    · obtain ⟨i, hi, rfl⟩ := List.mem_mapIdx.1 hsite
      have hchange := Spot.changes_from q _ (List.getElem_mem hi)
      have hcount := LineIndex.lineCount_lt hsize
      have hbounds := LineIndex.location_line_bounds hcount (q.changes[i]).stop
      have hname : Text.SingleLine t.tableName := h.tableName ▸ htable
      refine ⟨?_, ?_, UpdateSite.singleLine_patch_make hname hnames hchange _ _ _⟩
      · rw [UpdateSite.line, Change.location_site, h.lines]
        exact hbounds.1
      · rw [UpdateSite.line, Change.location_site, h.lines]
        exact hbounds.2

end

/-- Leaving a node does not touch what is collected. -/
theorem Patchable.leave (h : t.Patchable source tableName) (n : Node) :
    (t.leaveNode n).Patchable source tableName := by
  obtain ⟨chain, bound, log, hleave⟩ := leaveNode_eq t n
  rw [hleave]
  exact ⟨h.lines, h.tableName, h.table, h.sites⟩

/-- **What a traversal collects can be patched**, whatever the spans of the
program are. -/
theorem visit_patchable {program : Node} (isProgram : program.IsProgram)
    (hnames : Node.NamesSingleLine program.nodes) (hsize : source.utf8ByteSize < UInt32.size - 1)
    (htable : Text.SingleLine tableName) :
    ∃ t, (start source tableName).visit program = .ok t ∧ t.Patchable source tableName := by
  have hstart : ∀ log, Patchable source tableName { start source tableName with log := log } := by
    intro log
    refine ⟨rfl, rfl, ?_, ?_⟩
    · intro entry hentry
      cases hentry
    · intro site hsite
      cases hsite
  obtain ⟨t, hvisit, h⟩ := visit_program_of_invariant isProgram hstart
    (fun m hm scope standing t t₁ _ h _ entered => by
      have hbelow : m ∈ program.nodes := Node.mem_nodes_of_below hm
      exact entered.patchable hsize htable h fun k hk => hnames k (Node.mem_nodes_trans hbelow hk))
    (fun m _ t h => h.leave m)
  exact ⟨t.leaveNode program, hvisit, h.leave program⟩

end Tracker
end ScopeTrack
