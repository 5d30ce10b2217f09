/-
# What a traversal keeps, whatever the spans

If spans do not tell functions apart, scopes may be opened and closed in other
places than the spots say.  A traversal of a program still succeeds: only owned
scopes are closed before the end of the program, so the global scope stays open
(`Scope.Chain.Grounded`).

What each node keeps when it is entered and when it is left, a whole traversal
keeps (`visit_of_invariant`, and for programs `visit_program_of_invariant`).
-/

import ScopeTrack.Proofs.Track.Program
import ScopeTrack.Proofs.Tree.Names

namespace ScopeTrack

/-- Some open scope belongs to no function. -/
def Scope.Chain.Grounded (c : Scope.Chain) : Prop :=
  ∃ frame ∈ c.frames, frame.owner = none

theorem Scope.Chain.Grounded.exists_frames {c : Scope.Chain} (grounded : c.Grounded) :
    ∃ frame outer, c.frames = frame :: outer := by
  obtain ⟨ground, hmem, -⟩ := grounded
  exact List.exists_cons_of_ne_nil (List.ne_nil_of_mem hmem)

/-- **Leaving a function keeps the ground**, because the scope that it closes is owned,
and the ground is not. -/
theorem Scope.Chain.Grounded.leave {c c' : Scope.Chain} (grounded : c.Grounded) {owner : Span}
    {frame : Scope.Frame} (h : c.leave? owner = some (frame, c')) : c'.Grounded := by
  obtain ⟨ground, hmem, hground⟩ := grounded
  unfold Scope.Chain.leave? at h
  split at h
  · cases h
  · next first outer hframes =>
      split at h
      · next howner =>
          cases h
          rw [hframes, List.mem_cons] at hmem
          -- The scope that is closed has an owner, so it is not the ground.
          rcases hmem with rfl | hmem
          · rw [hground] at howner
            cases howner
          · exact ⟨ground, hmem, hground⟩
      · cases h

namespace Tracker

/-! ## The global scope stays open -/

section

variable {t t₁ : Tracker} {q : Spot}

/-- Entering a node keeps the ground. -/
theorem Entered.grounded (entered : Entered t q t₁) (h : t.chain.Grounded) :
    t₁.chain.Grounded := by
  obtain ⟨ground, hmem, hground⟩ := h
  cases hopen : q.opened? with
  | some name =>
      refine ⟨ground, ?_, hground⟩
      rw [entered.opened name hopen]
      exact List.mem_cons_of_mem _ hmem
  | none =>
      obtain ⟨frame, frame₁, outer, hframes, hframes₁, hext⟩ := entered.kept hopen
      rw [hframes, List.mem_cons] at hmem
      rcases hmem with rfl | hmem
      · refine ⟨frame₁, ?_, hext.owner.trans hground⟩
        rw [hframes₁]
        exact List.mem_cons_self
      · refine ⟨ground, ?_, hground⟩
        rw [hframes₁]
        exact List.mem_cons_of_mem _ hmem

/-- Below a program, a grounded tracker enters every node.  The spot takes its
scope and its binding from the tracker. -/
theorem enterNode_of_grounded (grounded : t.chain.Grounded) {n : Node}
    (hprogram : n.form ≠ .program) :
    ∃ scope standing t₁, t.enterNode n = .ok t₁ ∧ Entered t ⟨scope, standing, n⟩ t₁ ∧
      t₁.chain.Grounded := by
  obtain ⟨frame, outer, hframes⟩ := grounded.exists_frames
  let standing : Standing := ((t.bound.lookup n.span).map Standing.bound).getD .plain
  have hbinding : t.bound.lookup n.span = standing.binding? := by
    cases hbound : t.bound.lookup n.span <;> simp [standing, hbound, Standing.binding?]
  obtain ⟨t₁, henter, entered⟩ := enterNode_of_current (q := ⟨frame.name, standing, n⟩) hframes
    rfl hprogram fun _ => hbinding
  exact ⟨frame.name, standing, t₁, henter, entered, entered.grounded grounded⟩

/-- Leaving a node below a program keeps the ground. -/
theorem leaveNode_grounded (grounded : t.chain.Grounded) {n : Node} (hprogram : n.form ≠ .program) :
    (t.leaveNode n).chain.Grounded := by
  cases hbody : n.form.hasBody with
  | false =>
      rw [leaveNode_of_not_hasBody t hprogram hbody]
      exact grounded
  | true =>
      obtain ⟨log, hleave⟩ := leaveNode_of_hasBody t hbody
      rw [hleave]
      cases hclosed : t.chain.leave? n.span with
      | none => exact grounded
      | some closed => exact grounded.leave hclosed

/-- Leaving a node, be it a program, touches only the chain, the notes and the
log. -/
theorem leaveNode_eq (t : Tracker) (n : Node) :
    ∃ chain bound log, t.leaveNode n = { t with chain := chain, bound := bound, log := log } := by
  by_cases hprogram : n.form = .program
  · have hshape : n.shape? = some .program := by simp [Node.shape?, hprogram]
    obtain ⟨log, hclosed⟩ := setClosed_eq t t.chain.closeGlobal?
    simp only [leaveNode, hshape, leave, hclosed]
    exact ⟨_, t.bound, log, rfl⟩
  · exact leaveNode_kept t hprogram

end

/-! ## The rule for invariants -/

/-- Going through some trees, if each of them can be gone through and keeps `P`. -/
theorem visitAll_of_invariant_of {P : Tracker → Prop} (ns : List Node)
    (ih : ∀ n ∈ ns, ∀ t, P t → ∃ t', t.visit n = .ok t' ∧ P t') {t : Tracker} (h : P t) :
    ∃ t', t.visitAll ns = .ok t' ∧ P t' := by
  induction ns generalizing t with
  | nil => exact ⟨t, rfl, h⟩
  | cons n ns ihs =>
      obtain ⟨t₁, hvisit, h₁⟩ := ih n List.mem_cons_self t h
      obtain ⟨t₂, hvisits, h₂⟩ := ihs (fun m hm => ih m (List.mem_cons_of_mem _ hm)) h₁
      refine ⟨t₂, ?_, h₂⟩
      rw [visitAll, hvisit]
      exact hvisits

/-- **What each node of a tree keeps, a visit keeps.**  If every node can be
entered where `P` holds, and `P` holds after it is entered and after it is left,
then the visit of the tree succeeds, and `P` holds in the end. -/
theorem visit_of_invariant {P : Tracker → Prop} (n : Node)
    (enter : ∀ m ∈ n.nodes, ∀ t, P t → ∃ t', t.enterNode m = .ok t' ∧ P t')
    (leave : ∀ m ∈ n.nodes, ∀ t, P t → P (t.leaveNode m)) (t : Tracker) (h : P t) :
    ∃ t', t.visit n = .ok t' ∧ P t' := by
  induction n using Node.induction generalizing t with
  | node role form span children ih =>
      let n : Node := ⟨role, form, span, children⟩
      have hbelow : ∀ child ∈ children, ∀ m ∈ child.nodes, m ∈ n.nodes :=
        fun child hchild m hm => Node.mem_nodes_of_child hchild hm
      obtain ⟨t₁, henter, h₁⟩ := enter n (Node.mem_nodes_self n) t h
      obtain ⟨t₂, hvisits, h₂⟩ := visitAll_of_invariant_of children
        (fun child hchild => ih child hchild
          (fun m hm => enter m (hbelow child hchild m hm))
          (fun m hm => leave m (hbelow child hchild m hm))) h₁
      exact ⟨t₂.leaveNode n, visit_of_steps henter hvisits,
        leave n (Node.mem_nodes_self n) t₂ h₂⟩

/-- **What each node of some trees keeps, going through them keeps.**  -/
theorem visitAll_of_invariant {P : Tracker → Prop} (ns : List Node)
    (enter : ∀ m ∈ Node.nodesIn ns, ∀ t, P t → ∃ t', t.enterNode m = .ok t' ∧ P t')
    (leave : ∀ m ∈ Node.nodesIn ns, ∀ t, P t → P (t.leaveNode m)) {t : Tracker} (h : P t) :
    ∃ t', t.visitAll ns = .ok t' ∧ P t' := by
  refine visitAll_of_invariant_of ns (fun n hn => visit_of_invariant n ?_ ?_) h
  · exact fun m hm => enter m (Node.mem_nodesIn.2 ⟨n, hn, hm⟩)
  · exact fun m hm => leave m (Node.mem_nodesIn.2 ⟨n, hn, hm⟩)

/-- **Every program is gone through, whatever its spans are**, and what each node
below the program keeps holds when only the program is left to be closed. -/
theorem visit_program_of_invariant {P : Tracker → Prop} {program : Node}
    (isProgram : program.IsProgram) {source tableName : String}
    (initial : ∀ log, P { start source tableName with log := log })
    (enter : ∀ m ∈ Node.nodesIn program.children, ∀ scope standing t t₁,
      t.chain.Grounded → P t → t.enterNode m = .ok t₁ → Entered t ⟨scope, standing, m⟩ t₁ → P t₁)
    (leave : ∀ m ∈ Node.nodesIn program.children, ∀ t, P t → P (t.leaveNode m)) :
    ∃ t, (start source tableName).visit program = .ok (t.leaveNode program) ∧ P t := by
  obtain ⟨log, henter⟩ := enterNode_program (t := start source tableName) isProgram.form rfl
  let entered : Tracker := { start source tableName with log := log }
  -- The ground is kept along with `P`, as entering needs an open scope.
  have hstart : entered.chain.Grounded ∧ P entered :=
    ⟨⟨Scope.Frame.global, List.mem_cons_self, rfl⟩, initial log⟩
  have henters : ∀ m ∈ Node.nodesIn program.children, ∀ t : Tracker, t.chain.Grounded ∧ P t →
      ∃ t', t.enterNode m = .ok t' ∧ t'.chain.Grounded ∧ P t' := by
    rintro m hm t ⟨grounded, h⟩
    obtain ⟨scope, standing, t₁, hm₁, hentered, grounded₁⟩ :=
      enterNode_of_grounded grounded (isProgram.single m hm)
    exact ⟨t₁, hm₁, grounded₁, enter m hm scope standing t t₁ grounded h hm₁ hentered⟩
  have hleaves : ∀ m ∈ Node.nodesIn program.children, ∀ t : Tracker, t.chain.Grounded ∧ P t →
      (t.leaveNode m).chain.Grounded ∧ P (t.leaveNode m) := by
    rintro m hm t ⟨grounded, h⟩
    exact ⟨leaveNode_grounded grounded (isProgram.single m hm), leave m hm t h⟩
  obtain ⟨t, hvisits, -, h⟩ := visitAll_of_invariant program.children henters hleaves hstart
  exact ⟨t, visit_of_steps henter hvisits, h⟩

end Tracker
end ScopeTrack
