/-
# What a traversal collects

The tracking table and the update sites of an analysis are read off the spots of
the program, in the order in which they start.  The keys of the table are those
of the spots without repetitions (`Analysis.keys_ofProgram`), and each change at
a spot has one site, at the location where the changing construct ends and under
the key of the scope around it (`Analysis.sites_ofProgram`).
-/

import ScopeTrack.Proofs.Table.Registration
import ScopeTrack.Proofs.Track.Program

namespace ScopeTrack

namespace Change

/-- The site of a change, with its place in the order of collection. -/
def site (lines : LineIndex) (tableName : String) (sequence : Nat) (change : Change) :
    UpdateSite :=
  UpdateSite.make tableName (lines.location change.stop) sequence change.scope change.target

theorem location_site (lines : LineIndex) (tableName : String) (sequence : Nat)
    (change : Change) :
    (change.site lines tableName sequence).location = lines.location change.stop := by
  unfold site UpdateSite.make
  cases change.target <;> rfl

theorem sequence_site (lines : LineIndex) (tableName : String) (sequence : Nat)
    (change : Change) : (change.site lines tableName sequence).sequence = sequence := by
  unfold site UpdateSite.make
  cases change.target <;> rfl

/-- The key of a site is there just if the target is known. -/
theorem key_site (lines : LineIndex) (tableName : String) (sequence : Nat) (change : Change) :
    (change.site lines tableName sequence).key =
      change.target.name?.map (Table.key change.scope) := by
  unfold site UpdateSite.make
  cases change.target <;> rfl

/-- **Recording changes adds one site for each**, numbered on from the sites that
are there. -/
theorem foldl_record (lines : LineIndex) (tableName : String) (changes : List Change)
    (sites : List UpdateSite) :
    changes.foldl (record lines tableName) sites =
      sites ++ changes.mapIdx fun i => site lines tableName (sites.length + i) := by
  induction changes generalizing sites with
  | nil => simp
  | cons change changes ih =>
      have hrecord : record lines tableName sites change =
          sites ++ [change.site lines tableName sites.length] := rfl
      rw [List.foldl_cons, hrecord, ih, List.mapIdx_cons, List.append_assoc]
      simp [Nat.add_assoc, Nat.add_comm 1]

end Change

namespace Analysis

/-- `const f = (a) => { x = a; [b] = a; };` -/
def assigningArrow : Node :=
  ⟨.other, .program, ⟨0, 37⟩, [
    ⟨.statement, .variableDeclaration, ⟨0, 37⟩, [
      ⟨.other, .declarator, ⟨6, 36⟩, [
        ⟨.subject, .identifier "f", ⟨6, 7⟩, []⟩,
        ⟨.value, .function .arrow none, ⟨10, 36⟩, [
          ⟨.parameter, .identifier "a", ⟨11, 12⟩, []⟩,
          ⟨.body, .statementList, ⟨17, 36⟩, [
            ⟨.other, .expressionStatement, ⟨19, 25⟩, [
              ⟨.value, .assignment, ⟨19, 24⟩, [
                ⟨.subject, .identifier "x", ⟨19, 20⟩, []⟩,
                ⟨.value, .identifier "a", ⟨23, 24⟩, []⟩]⟩]⟩,
            ⟨.other, .expressionStatement, ⟨26, 34⟩, [
              ⟨.value, .assignment, ⟨26, 33⟩, [
                ⟨.subject, .arrayPattern, ⟨26, 29⟩, [
                  ⟨.subject, .identifier "b", ⟨27, 28⟩, []⟩]⟩,
                ⟨.value, .identifier "a", ⟨32, 33⟩, []⟩]⟩]⟩]⟩]⟩]⟩]⟩]⟩

/-- **The table holds what the structure of the program asks for.**  Its keys are
those of the spots, each at its first place, and every value is null. -/
theorem keys_ofProgram {program : Node} (delivered : program.Delivered)
    (source tableName : String) :
    ∃ a log, ofProgram tableName source program = .ok (a, log) ∧
      a.table.keys = ((program.spots Scope.globalName .plain).flatMap Spot.keys).eraseDups ∧
      ∀ entry ∈ a.table.entries, entry.2 = .null := by
  obtain ⟨t, hvisit, completes⟩ := Tracker.visit_delivered delivered source tableName
  have hentries : (ofTracker t).table.entries = _ :=
    (congrArg Table.entries completes.table).trans (Table.entries_registerAll_empty _)
  refine ⟨ofTracker t, t.log, ofProgram_of_visit hvisit, ?_, ?_⟩
  · rw [Table.keys, hentries, List.map_map]
    exact List.map_id _
  · intro entry hentry
    rw [hentries] at hentry
    obtain ⟨key, -, rfl⟩ := List.mem_map.1 hentry
    rfl

/-- The scope of the arrow function is named by the declarator, and its parameter and
the variable that it assigns have keys there. -/
theorem keys_ofProgram_assigningArrow :
    assigningArrow.Delivered ∧
      ∃ a log, ofProgram "state" "" assigningArrow = .ok (a, log) ∧
        a.table.keys = ["Program:f", "Program:f:a", "Program:f:x"] := by
  have delivered : assigningArrow.Delivered := ⟨⟨rfl, by decide⟩, by decide⟩
  obtain ⟨a, log, hanalysis, hkeys, -⟩ := keys_ofProgram delivered "" "state"
  exact ⟨delivered, a, log, hanalysis, hkeys.trans (by decide)⟩

/-- **Every change has its site.**  The sites are those of the changes at the
spots, in order: the locations are those of the ends of the changing constructs,
the sequence counts up from 0, and the key is that of the target in the scope of
the spot, and none if the target is not known. -/
theorem sites_ofProgram {program : Node} (delivered : program.Delivered)
    (source tableName : String) :
    ∃ a log, ofProgram tableName source program = .ok (a, log) ∧
      let changes := (program.spots Scope.globalName .plain).flatMap Spot.changes
      a.sites.map UpdateSite.location =
          changes.map (fun change => (LineIndex.ofText source).location change.stop) ∧
        a.sites.map UpdateSite.sequence = List.range changes.length ∧
        a.sites.map UpdateSite.key =
          changes.map (fun change => change.target.name?.map (Table.key change.scope)) := by
  obtain ⟨t, hvisit, completes⟩ := Tracker.visit_delivered delivered source tableName
  refine ⟨ofTracker t, t.log, ofProgram_of_visit hvisit, ?_⟩
  intro changes
  -- Sites are numbered in the order of the changes, from 0 on.
  have hsites : (ofTracker t).sites =
      changes.mapIdx (Change.site (LineIndex.ofText source) tableName) := by
    refine completes.sites.trans ?_
    rw [Change.foldl_record]
    simp [changes]
  rw [hsites]
  refine ⟨?_, ?_, ?_⟩
  · apply List.ext_getElem <;> simp [Change.location_site]
  · apply List.ext_getElem <;> simp [Change.sequence_site]
  · apply List.ext_getElem <;> simp [Change.key_site]

/-- The function belongs to the global scope, its assignments to its own. -/
theorem sites_ofProgram_assigningArrow :
    assigningArrow.Delivered ∧
      ∃ a log, ofProgram "state" "" assigningArrow = .ok (a, log) ∧
        a.sites.map UpdateSite.sequence = [0, 1, 2] ∧
        a.sites.map UpdateSite.key = [some "Program:f", some "Program:f:x", none] := by
  have delivered : assigningArrow.Delivered := ⟨⟨rfl, by decide⟩, by decide⟩
  obtain ⟨a, log, hanalysis, -, hsequence, hkeys⟩ := sites_ofProgram delivered "" "state"
  exact ⟨delivered, a, log, hanalysis, hsequence.trans (by decide), hkeys.trans (by decide)⟩

end Analysis
end ScopeTrack
