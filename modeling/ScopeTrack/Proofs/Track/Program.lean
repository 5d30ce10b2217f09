/-
# Going through a whole program

A traversal of a program starts with the global scope alone and ends with no
scope at all: what lies between is told by the spots of the program.  Everything
that the traversal collects is then a function of these spots
(`Tracker.Completes`, `Tracker.visit_delivered`).

`Tracker.Arrives` relates a traversal to the nodes that it comes to, each with
the tracker of that moment.  At every node below the program the tracker is ready
for it (`Arrives.ready_of_program`).
-/

import ScopeTrack.Proofs.Track.Visit
import ScopeTrack.Track.Analysis

namespace ScopeTrack

/-- An analysis is what the tracker has collected when it is through. -/
theorem Analysis.ofProgram_of_visit {source tableName : String} {program : Node} {t : Tracker}
    (h : (Tracker.start source tableName).visit program = .ok t) :
    ofProgram tableName source program = .ok (ofTracker t, t.log) := by
  rw [ofProgram, h]
  rfl

namespace Tracker

/-- What a traversal of a program ends with. -/
structure Completes (source tableName : String) (program : Node) (t : Tracker) : Prop where
  lines : t.lines = LineIndex.ofText source
  frames : t.chain.frames = []
  archive : t.chain.archive.map Scope.Frame.heading =
    (program.spotsLeft Scope.globalName .plain).filterMap Spot.closes? ++ [(Scope.globalName, none)]
  table : t.table =
    (Table.empty.registerAll ((program.spots Scope.globalName .plain).flatMap Spot.keys)).2
  sites : t.sites = ((program.spots Scope.globalName .plain).flatMap Spot.changes).foldl
    (Change.record (LineIndex.ofText source) tableName) []
  bound : ∀ span, t.bound.lookup span = program.bodilessBindings.lookup span
  stated : t.stated = []

/-- Entering a program is only told in the log. -/
theorem enterNode_program {t : Tracker} {program : Node} (h : program.form = .program)
    {frame : Scope.Frame} {outer : List Scope.Frame} (hframes : t.chain.frames = frame :: outer) :
    ∃ log, t.enterNode program = .ok { t with log := log } := by
  have hshape : program.shape? = some .program := by simp [Node.shape?, h]
  refine ⟨(t.note .debug ("enter: curr scope: " ++ frame.name)).log, ?_⟩
  simp only [enterNode, hshape, enter, Scope.Chain.current_of_frames hframes]
  rfl

/-- Leaving a program closes the scope that is left alone. -/
theorem leaveNode_program {t : Tracker} {program : Node} (h : program.form = .program)
    {frame : Scope.Frame} (hframes : t.chain.frames = [frame]) :
    ∃ log, t.leaveNode program =
      { t with chain := ⟨[], t.chain.archive ++ [frame]⟩, log := log } := by
  have hshape : program.shape? = some .program := by simp [Node.shape?, h]
  obtain ⟨log, hclosed⟩ := setClosed_eq t t.chain.closeGlobal?
  refine ⟨log, ?_⟩
  simp only [leaveNode, hshape, leave, hclosed]
  simp [Scope.Chain.closeGlobal?, hframes]

/-- A program opens no scope and hands nothing on, so its children are in the global
scope and have plain standings. -/
theorem spots_of_program {program : Node} (h : program.form = .program) :
    program.spots Scope.globalName .plain =
        ⟨Scope.globalName, .plain, program⟩ ::
          Node.spotsIn Scope.globalName none program.children ∧
      program.spotsLeft Scope.globalName .plain =
        Node.spotsLeftIn Scope.globalName none program.children ++
          [⟨Scope.globalName, .plain, program⟩] := by
  have hopen : Spot.opened? ⟨Scope.globalName, .plain, program⟩ = none := by
    simp [Spot.opened?, h]
  have hhanded : Spot.handed ⟨Scope.globalName, .plain, program⟩ = none := by
    simp [Spot.handed, h]
  rw [Node.spots_eq, Node.spotsLeft_eq, Spot.inner_of_not_opened hopen, hhanded]
  exact ⟨rfl, rfl⟩

/-- The tracker that has entered a program is ready for what is in it. -/
theorem ready_of_delivered {program : Node} (delivered : program.Delivered)
    (source tableName : String) (log : List Record) :
    Ready { start source tableName with log := log } Scope.globalName
      (Node.nodesIn program.children) (Node.notesIn none program.children) := by
  refine ⟨⟨Scope.Frame.global, [], rfl, rfl, ?_⟩, ?_, ?_, delivered.single⟩
  · intro span _
    simp [Scope.Frame.global]
  · intro span _
    rw [Node.notesIn_none]
    rfl
  · have hdistinct := delivered.distinct
    rw [Node.functionSpans_eq, delivered.form] at hdistinct
    exact hdistinct

/-- **Every delivered program is gone through**, and the traversal collects what
the spots of the program say. -/
theorem visit_delivered {program : Node} (delivered : program.Delivered)
    (source tableName : String) :
    ∃ t, (start source tableName).visit program = .ok t ∧ Completes source tableName program t := by
  have hform := delivered.form
  obtain ⟨log, henter⟩ := enterNode_program (t := start source tableName) hform rfl
  obtain ⟨t, hvisits, advances⟩ := visitAll_of_ready program.children
    (ready_of_delivered delivered source tableName log)
  obtain ⟨frame, frame', outer, hframes, hframes', hext⟩ := advances.frames
  cases hframes
  obtain ⟨closed, harchive, hclosed⟩ := advances.archive
  obtain ⟨log', hleave⟩ := leaveNode_program hform hframes'
  obtain ⟨hspots, hspotsLeft⟩ := spots_of_program hform
  refine ⟨t.leaveNode program, visit_of_steps henter hvisits, ?_⟩
  rw [hleave]
  refine ⟨advances.lines, rfl, ?_, ?_, ?_, ?_, ?_⟩
  · have hheading : frame'.heading = (Scope.globalName, none) := by
      rw [Scope.Frame.heading, hext.name, hext.owner]
      rfl
    have hcloses : Spot.closes? ⟨Scope.globalName, .plain, program⟩ = none := by
      simp [Spot.closes?, Spot.opened?, hform]
    change (t.chain.archive ++ [frame']).map Scope.Frame.heading = _
    rw [harchive, hspotsLeft, List.filterMap_append]
    simp [hclosed, hheading, hcloses, start, Scope.Chain.new]
  · have hkeys : Spot.keys ⟨Scope.globalName, .plain, program⟩ = [] := by simp [Spot.keys, hform]
    rw [hspots, List.flatMap_cons, hkeys]
    exact advances.table
  · have hchanges : Spot.changes ⟨Scope.globalName, .plain, program⟩ = [] := by
      simp [Spot.changes, hform]
    rw [hspots, List.flatMap_cons, hchanges]
    exact advances.sites
  · intro span
    have hbodiless : Spot.bodiless? ⟨Scope.globalName, .plain, program⟩ = none := by
      simp [Spot.bodiless?, hform]
    rw [Node.bodilessBindings, hspots, List.filterMap_cons_none hbodiless]
    refine (advances.bound span).trans ?_
    split
    · rfl
    · next h => exact (lookup_bodiless_eq_none h).symm
  · apply List.eq_nil_iff_forall_not_mem.2
    intro span hspan
    exact absurd ((advances.stated span).1 hspan).1 List.not_mem_nil

/-! ## Every node on the way -/

/-- The traversal of a tree from a tracker comes to a node with a tracker: the
tree itself, or a node that is come to in a child, once the tree is entered and
the children before that one are gone through. -/
inductive Arrives : Tracker → Node → Tracker → Node → Prop
  | here (t : Tracker) (n : Node) : Arrives t n t n
  | inside {t t₁ t₂ t' : Tracker} {n child n' : Node} {before after : List Node}
      (entered : t.enterNode n = .ok t₁) (children : n.children = before ++ child :: after)
      (visited : t₁.visitAll before = .ok t₂) (arrives : Arrives t₂ child t' n') :
      Arrives t n t' n'

/-- A tracker that is ready for some trees is ready for each when it comes to
it, and the spots of that tree are among the spots of all. -/
theorem Ready.of_visited {t t₂ : Tracker} {scope : String} {handed : Handed} {child : Node}
    {before after : List Node}
    (ready : t.Ready scope (Node.nodesIn (before ++ child :: after))
      (Node.notesIn handed (before ++ child :: after)))
    (visited : t.visitAll before = .ok t₂) :
    ∃ standing, t₂.Ready scope child.nodes (child.notesAt standing) ∧
      child.spots scope standing <:+: Node.spotsIn scope handed (before ++ child :: after) := by
  induction before generalizing t handed with
  | nil =>
      cases visited
      exact ⟨handed.standingOf child, ready.head, List.infix_append [] _ _⟩
  | cons n before ih =>
      obtain ⟨t₁, hvisit, advances⟩ := visit_of_ready n t scope _ ready.head
      rw [visitAll, hvisit] at visited
      obtain ⟨standing, hready, hpart⟩ := ih (ready.tail advances) visited
      exact ⟨standing, hready, hpart.trans (List.suffix_append _ _).isInfix⟩

/-- **At every node that a traversal comes to, the tracker is ready for it.**  -/
theorem Arrives.ready {t t' : Tracker} {n n' : Node} (arrives : Arrives t n t' n')
    {scope : String} {standing : Standing} (ready : t.Ready scope n.nodes (n.notesAt standing)) :
    ∃ scope' standing', t'.Ready scope' n'.nodes (n'.notesAt standing') ∧
      n'.spots scope' standing' <:+: n.spots scope standing := by
  induction arrives generalizing scope standing with
  | here t n => exact ⟨scope, standing, ready, List.infix_rfl⟩
  | @inside t t₁ t₂ t' n child n' before after entered children visited _ ih =>
      let q : Spot := ⟨scope, standing, n⟩
      obtain ⟨t₁', henter, hentered⟩ := enterNode_of_ready (q := q) ready
      obtain rfl : t₁' = t₁ := Except.ok.inj (henter.symm.trans entered)
      have hready := hentered.ready ready
      simp only [q, children] at hready
      obtain ⟨standing₁, hchild, hpart⟩ := hready.of_visited visited
      obtain ⟨scope', standing', hready', hpart'⟩ := ih hchild
      refine ⟨scope', standing', hready', hpart'.trans (hpart.trans ?_)⟩
      rw [Node.spots_eq, children]
      exact (List.suffix_cons _ _).isInfix

/-- At every node below a program, the tracker is ready for it. -/
theorem Arrives.ready_of_program {program n : Node} {t : Tracker} {source tableName : String}
    (delivered : program.Delivered) (arrives : Arrives (start source tableName) program t n)
    (hn : n.form ≠ .program) :
    ∃ scope standing, t.Ready scope n.nodes (n.notesAt standing) ∧
      n.spots scope standing <:+: program.spots Scope.globalName .plain := by
  cases arrives with
  | here => exact absurd delivered.form hn
  | @inside _ t₁ t₂ _ _ child _ before after entered children visited arrives =>
      obtain ⟨log, henter⟩ := enterNode_program (t := start source tableName) delivered.form rfl
      obtain rfl := Except.ok.inj (henter.symm.trans entered)
      have hready := ready_of_delivered delivered source tableName log
      rw [children] at hready
      obtain ⟨standing₁, hchild, hpart⟩ := hready.of_visited visited
      obtain ⟨scope', standing', hready', hpart'⟩ := arrives.ready hchild
      refine ⟨scope', standing', hready', hpart'.trans (hpart.trans ?_)⟩
      rw [(spots_of_program delivered.form).1, children]
      exact (List.suffix_cons _ _).isInfix

end Tracker
end ScopeTrack
