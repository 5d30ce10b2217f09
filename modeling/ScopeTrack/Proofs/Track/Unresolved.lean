/-
# Assignments whose targets are not known

Each assignment to no known variable is reported once.  One that is a statement
is reported when the statement is entered, and is then a stated assignment, so
that it is not reported again when it is entered itself.  Any other is reported
when it is entered.

What is stated is always the assignment that comes next: a traversal comes to an
assignment that is a statement with that one alone stated, to any other node with
nothing stated, and it leaves every node with nothing stated
(`visit_reports`).  So spans do not matter, and the reports are those of the edges
of the program in order (`Analysis.unresolved_ofProgram`).
-/

import ScopeTrack.Proofs.Track.Invariant
import ScopeTrack.Proofs.Tree.Edges

namespace ScopeTrack

namespace Tracker

/-- The reports on assignments whose targets are not known. -/
def unresolved (t : Tracker) : List Diagnostic :=
  t.diagnostics.filter fun d => d.kind = .unresolvedTarget

theorem unresolved_congr {t t₁ : Tracker} (h : t₁.diagnostics = t.diagnostics) :
    t₁.unresolved = t.unresolved := by
  rw [unresolved, h]
  rfl

/-- Diagnostics of other kinds add no report on a target. -/
theorem unresolved_of_diagnostics_append {t t₁ : Tracker} {reported : List Diagnostic}
    (h : t₁.diagnostics = t.diagnostics ++ reported)
    (kinds : ∀ d ∈ reported, d.kind ≠ .unresolvedTarget) : t₁.unresolved = t.unresolved := by
  have hnone : (reported.filter fun d => d.kind = .unresolvedTarget) = [] := by
    apply List.filter_eq_nil_iff.2
    intro d hd
    simpa using kinds d hd
  rw [unresolved, h, List.filter_append, hnone, List.append_nil]
  rfl

/-- A report on a target is the last of them, at the place where its span starts. -/
theorem unresolved_of_report {t t₁ : Tracker} {span : Span} {message : String}
    (h : t₁.diagnostics = (t.report .unresolvedTarget span message).diagnostics) :
    t₁.unresolved =
      t.unresolved ++ [⟨.unresolvedTarget, t.lines.location span.start, message⟩] := by
  rw [unresolved, h]
  simp [report, unresolved]

/-- From one tracker to another, the assignments among some edges have been
reported if their targets are not known, and the children of the given edges are
stated in the end. -/
structure Reported (t : Tracker) (edges stated : List Edge) (t₁ : Tracker) : Prop where
  lines : t₁.lines = t.lines
  unresolved : t₁.unresolved = t.unresolved ++ Edge.reports t.lines edges
  stated : t₁.stated = stated.map fun e => e.child.span

/-- **Reports add up along the way**: those of the first part come before those of the
second, and what is stated in the end is what the second part leaves. -/
theorem Reported.trans {t t₁ t₂ : Tracker} {edges₁ edges₂ stated₁ stated₂ : List Edge}
    (h₁ : Reported t edges₁ stated₁ t₁) (h₂ : Reported t₁ edges₂ stated₂ t₂) :
    Reported t (edges₁ ++ edges₂) stated₂ t₂ := by
  refine ⟨h₂.lines.trans h₁.lines, ?_, h₂.stated⟩
  rw [h₂.unresolved, h₁.unresolved, h₁.lines, Edge.reports_append, List.append_assoc]

/-- Leaving a node reports nothing. -/
theorem Reported.leave {t t₁ : Tracker} {edges stated : List Edge}
    (h : Reported t edges stated t₁) (n : Node) : Reported t edges stated (t₁.leaveNode n) := by
  obtain ⟨chain, bound, log, hleave⟩ := leaveNode_eq t₁ n
  rw [hleave]
  exact ⟨h.lines, h.unresolved, h.stated⟩

/-! ## Entering a node -/

section

variable {t t₁ : Tracker} {e : Edge}

/-- Nodes that are no assignments and state none report nothing. -/
theorem Reported.idle (hlines : t₁.lines = t.lines) (hunresolved : t₁.unresolved = t.unresolved)
    (hstated : t₁.stated = t.stated) (hchild : e.child.form ≠ .assignment)
    (hbelow : Edge.statedIn e.child e.child.children = [])
    (stated : t.stated = e.stated.map fun e => e.child.span) :
    Reported t (e.unstated ++ Edge.statedIn e.child e.child.children)
      (Edge.statedIn e.child e.child.children) t₁ := by
  have hown := Edge.isStated_eq_false hchild
  have hknown := Edge.isUnresolved_eq_false hchild
  rw [Edge.stated_eq_nil hown] at stated
  refine ⟨hlines, ?_, ?_⟩
  · simp [hunresolved, Edge.reports, Edge.unstated, hbelow, hown, hknown]
  · rw [hstated, stated, hbelow]

/-- A statement reports the assignment that it states. -/
theorem Reported.statement {assignment : Node} (hlines : t₁.lines = t.lines)
    (hsome : e.child.statedAssignment? = some assignment)
    (hdiagnostics : t₁.diagnostics =
      if assignment.target.isResolved then t.diagnostics
      else (t.report .unresolvedTarget e.child.span
        (Diagnostic.unresolvedTargetMessage assignment.target)).diagnostics)
    (hstated : t₁.stated = [assignment.span]) :
    Reported t (e.unstated ++ [⟨e.child, assignment⟩]) [⟨e.child, assignment⟩] t₁ := by
  obtain ⟨-, ha⟩ := Node.statedAssignment?_eq_some hsome
  obtain ⟨hform, hrole⟩ := Node.isExpression_of_stated hsome
  have hown : e.isStated = false := Edge.isStated_eq_false (by simp [hform])
  have hknown : e.isUnresolved = false := Edge.isUnresolved_eq_false (by simp [hform])
  have hexpression : Edge.isExpression ⟨e.child, assignment⟩ = true := by
    simp [Edge.isExpression, hform, hrole]
  refine ⟨hlines, ?_, hstated⟩
  cases hr : assignment.target.isResolved with
  | true =>
      rw [hr, if_pos rfl] at hdiagnostics
      have hreports : Edge.reports t.lines [e, ⟨e.child, assignment⟩] = [] := by
        simp [Edge.reports, Edge.isUnresolved, ha, hr, hform]
      rw [unresolved_congr hdiagnostics]
      simp [Edge.unstated, hown, hreports]
  | false =>
      rw [hr, if_neg (by simp)] at hdiagnostics
      have hreports : Edge.reports t.lines [e, ⟨e.child, assignment⟩] =
          [Edge.diagnostic t.lines ⟨e.child, assignment⟩] := by
        simp [Edge.reports, Edge.isUnresolved, ha, hr, hform]
      rw [unresolved_of_report hdiagnostics]
      simp [Edge.unstated, hown, hreports, Edge.diagnostic, Edge.reportStart, hexpression]

/-- An assignment reports itself unless it is stated. -/
theorem Reported.assignment (hlines : t₁.lines = t.lines) (hform : e.child.form = .assignment)
    (stated : t.stated = e.stated.map fun e => e.child.span)
    (hdiagnostics : t₁.diagnostics =
      if e.child.target.isResolved ∨ t.stated.contains e.child.span then t.diagnostics
      else (t.report .unresolvedTarget e.child.span
        (Diagnostic.unresolvedTargetMessage e.child.target)).diagnostics)
    (hstated : t₁.stated = t.stated.filter fun other => other ≠ e.child.span) :
    Reported t e.unstated [] t₁ := by
  -- A stated assignment has been reported with its statement; any other one is reported
  -- here.
  cases hown : e.isStated with
  | true =>
      rw [Edge.stated, hown, if_pos rfl] at stated
      rw [if_pos (.inr (by simp [stated]))] at hdiagnostics
      refine ⟨hlines, ?_, ?_⟩
      · rw [unresolved_congr hdiagnostics]
        simp [Edge.unstated, hown, Edge.reports]
      · simp [hstated, stated]
  | false =>
      have hexpression : e.isExpression = false := by
        simpa [Edge.isStated, hform] using hown
      rw [Edge.stated_eq_nil hown, List.map_nil] at stated
      refine ⟨hlines, ?_, ?_⟩
      · cases hr : e.child.target.isResolved with
        | true =>
            rw [if_pos (.inl hr)] at hdiagnostics
            rw [unresolved_congr hdiagnostics]
            simp [Edge.unstated, hown, Edge.reports, Edge.isUnresolved, hr]
        | false =>
            rw [if_neg (by simp [hr, stated])] at hdiagnostics
            rw [unresolved_of_report hdiagnostics]
            simp [Edge.unstated, hown, Edge.reports, Edge.isUnresolved, hr, hform,
              Edge.diagnostic, Edge.reportStart, hexpression]
      · simp [hstated, stated]

/-- **Entering a node reports it, unless it is stated, and the assignment that it
states.**  -/
theorem reported_of_enterNode (grounded : t.chain.Grounded) (hprogram : e.child.form ≠ .program)
    (single : e.child.form = .expressionStatement → e.child.children.length ≤ 1)
    (stated : t.stated = e.stated.map fun e => e.child.span)
    (henter : t.enterNode e.child = .ok t₁) :
    Reported t (e.unstated ++ Edge.statedIn e.child e.child.children)
      (Edge.statedIn e.child e.child.children) t₁ := by
  have hbelow := Edge.map_statedAssignment? single
  obtain ⟨frame, outer, hframes⟩ := grounded.exists_frames
  cases enters_of_enterNode hframes hprogram henter with
  | passes _ hchild hnone =>
      rw [hnone] at hbelow
      exact .idle rfl rfl rfl hchild hbelow.symm stated
  | opens scope reported log hfunction kinds =>
      have hchild : e.child.form ≠ .assignment := by
        intro hform
        rw [hform] at hfunction
        cases hfunction
      have hstatement : e.child.form ≠ .expressionStatement := by
        intro hform
        rw [hform] at hfunction
        cases hfunction
      exact .idle rfl (unresolved_of_diagnostics_append rfl kinds) rfl hchild
        (Edge.statedIn_of_not_statement hstatement _) stated
  | declares sites bound log hform =>
      exact .idle rfl rfl rfl (by simp [hform])
        (Edge.statedIn_of_not_statement (by simp [hform]) _) stated
  | states assignment sites bound log hsome =>
      obtain ⟨hform, -⟩ := Node.isExpression_of_stated hsome
      -- A statement is not stated itself, so no other assignment is stated when it comes.
      have hown : e.isStated = false := Edge.isStated_eq_false (by simp [hform])
      rw [Edge.stated_eq_nil hown, List.map_nil] at stated
      rw [← hbelow, hsome]
      exact .statement rfl hsome rfl (by simp [stated])
  | assigns log hform =>
      rw [Edge.statedIn_of_not_statement (by simp [hform]), List.append_nil]
      exact .assignment rfl hform stated rfl rfl

end

/-! ## Going through a tree -/

/-- Going through the children of a node, if each of them can be gone through from where
its own assignment is the stated one.  Only the child of a statement can be stated, and
a statement has no other child, so no stated assignment is left over for a later one. -/
theorem visitAll_reports_of (parent : Node) (ns : List Node)
    (ih : ∀ n ∈ ns, ∀ t : Tracker, t.chain.Grounded →
      t.stated = (Edge.stated ⟨parent, n⟩).map (fun e => e.child.span) →
      ∃ t', t.visit n = .ok t' ∧ t'.chain.Grounded ∧
        Reported t (Edge.unstated ⟨parent, n⟩ ++ n.edges) [] t')
    (single : parent.form = .expressionStatement → ns.length ≤ 1) {t : Tracker}
    (grounded : t.chain.Grounded)
    (stated : t.stated = (Edge.statedIn parent ns).map fun e => e.child.span) :
    ∃ t', t.visitAll ns = .ok t' ∧ t'.chain.Grounded ∧
      Reported t (Edge.unstatedIn parent ns) [] t' := by
  induction ns generalizing t with
  | nil => exact ⟨t, rfl, grounded, rfl, by simp [Edge.unstatedIn, Edge.reports], stated⟩
  | cons n ns ihs =>
      -- A statement has one child, and other nodes state none: only the first can be stated.
      have hrest : Edge.statedIn parent ns = [] := by
        by_cases hform : parent.form = .expressionStatement
        · have hlength := single hform
          rw [List.length_cons] at hlength
          rw [List.eq_nil_of_length_eq_zero (by omega : ns.length = 0)]
          rfl
        · exact Edge.statedIn_of_not_statement hform ns
      rw [Edge.statedIn, List.flatMap_cons, ← Edge.statedIn, hrest, List.append_nil] at stated
      obtain ⟨t₁, hvisit, grounded₁, hfirst⟩ := ih n List.mem_cons_self t grounded stated
      obtain ⟨t₂, hvisits, grounded₂, hothers⟩ :=
        ihs (fun m hm => ih m (List.mem_cons_of_mem _ hm))
          (fun hform => Nat.le_of_succ_le (single hform)) grounded₁
          (by rw [hfirst.stated, hrest])
      refine ⟨t₂, ?_, grounded₂, ?_⟩
      · rw [visitAll, hvisit]
        exact hvisits
      · rw [Edge.unstatedIn, List.flatMap_cons, ← Edge.unstatedIn]
        exact hfirst.trans hothers

/-- **Going through a tree reports each assignment once.**  The root is left out
if it has been stated, and everything below it is reported in order. -/
theorem visit_reports (parent n : Node) (hprogram : ∀ m ∈ n.nodes, m.form ≠ .program)
    (single : Node.StatementsSingle n.nodes) (t : Tracker) (grounded : t.chain.Grounded)
    (stated : t.stated = (Edge.stated ⟨parent, n⟩).map fun e => e.child.span) :
    ∃ t', t.visit n = .ok t' ∧ t'.chain.Grounded ∧
      Reported t (Edge.unstated ⟨parent, n⟩ ++ n.edges) [] t' := by
  induction n using Node.induction generalizing parent t with
  | node role form span children ih =>
      let n : Node := ⟨role, form, span, children⟩
      have hown : n.form ≠ .program := hprogram n (Node.mem_nodes_self n)
      have hsingle := single n (Node.mem_nodes_self n)
      obtain ⟨_, _, t₁, henter, -, grounded₁⟩ := enterNode_of_grounded grounded hown
      have hentered := reported_of_enterNode (e := ⟨parent, n⟩) grounded hown hsingle stated henter
      obtain ⟨t₂, hvisits, grounded₂, hbelow⟩ := visitAll_reports_of n children
        (fun child hchild => ih child hchild n
          (fun m hm => hprogram m (Node.mem_nodes_of_child hchild hm))
          (fun m hm => single m (Node.mem_nodes_of_child hchild hm)))
        hsingle grounded₁ hentered.stated
      refine ⟨t₂.leaveNode n, visit_of_steps henter hvisits, leaveNode_grounded grounded₂ hown, ?_⟩
      have hedges : n.edges = Edge.statedIn n children ++ Edge.unstatedIn n children := by
        rw [Node.edges_eq, Edge.statedIn_append_unstatedIn hsingle]
      rw [hedges, ← List.append_assoc]
      exact (hentered.trans hbelow).leave n

end Tracker

namespace Analysis

/-- `f = () => { g(h().i = 1); this.x = [y] = 2; };` -/
def unknownTargets : Node :=
  ⟨.other, .program, ⟨0, 46⟩, [
    ⟨.statement, .expressionStatement, ⟨0, 46⟩, [
      ⟨.value, .assignment, ⟨0, 45⟩, [
        ⟨.subject, .identifier "f", ⟨0, 1⟩, []⟩,
        ⟨.value, .function .arrow none, ⟨4, 45⟩, [
          ⟨.body, .statementList, ⟨10, 45⟩, [
            ⟨.other, .expressionStatement, ⟨12, 25⟩, [
              ⟨.value, .call, ⟨12, 24⟩, [
                ⟨.other, .identifier "g", ⟨12, 13⟩, []⟩,
                ⟨.other, .assignment, ⟨14, 23⟩, [
                  ⟨.subject, .member (.property "i"), ⟨14, 19⟩, [
                    ⟨.subject, .call, ⟨14, 17⟩, [
                      ⟨.other, .identifier "h", ⟨14, 15⟩, []⟩]⟩,
                    ⟨.other, .identifier "i", ⟨18, 19⟩, []⟩]⟩,
                  ⟨.value, .other, ⟨22, 23⟩, []⟩]⟩]⟩]⟩,
            ⟨.other, .expressionStatement, ⟨26, 43⟩, [
              ⟨.value, .assignment, ⟨26, 42⟩, [
                ⟨.subject, .member (.property "x"), ⟨26, 32⟩, [
                  ⟨.subject, .thisExpression, ⟨26, 30⟩, []⟩,
                  ⟨.other, .identifier "x", ⟨31, 32⟩, []⟩]⟩,
                ⟨.value, .assignment, ⟨35, 42⟩, [
                  ⟨.subject, .arrayPattern, ⟨35, 38⟩, [
                    ⟨.subject, .identifier "y", ⟨36, 37⟩, []⟩]⟩,
                  ⟨.value, .other, ⟨41, 42⟩, []⟩]⟩]⟩]⟩]⟩]⟩]⟩]⟩]⟩

/-- **Every assignment to no known variable is reported once.**  The reports are
those of the edges to such assignments, in order, and these assignments are all
there are in the program: each is reported where its statement starts if it is
the expression of a statement, and else where it starts itself. -/
theorem unresolved_ofProgram {program : Node} (isProgram : program.IsProgram)
    (single : Node.StatementsSingle program.nodes) (source tableName : String) :
    ∃ a log, ofProgram tableName source program = .ok (a, log) ∧
      let edges := program.edges.filter Edge.isUnresolved
      a.diagnostics.filter (fun d => d.kind = .unresolvedTarget) =
          edges.map (Edge.diagnostic (LineIndex.ofText source)) ∧
        edges.map Edge.child =
          program.nodes.filter (fun n => n.form = .assignment && !n.target.isResolved) := by
  obtain ⟨log, henter⟩ :=
    Tracker.enterNode_program (t := .start source tableName) isProgram.form rfl
  let entered : Tracker := { Tracker.start source tableName with log := log }
  have hstatement : program.form ≠ .expressionStatement := by simp [isProgram.form]
  have hbelow : ∀ child ∈ program.children, ∀ m ∈ child.nodes,
      m ∈ Node.nodesIn program.children := fun child hchild m hm =>
    Node.mem_nodesIn.2 ⟨child, hchild, hm⟩
  obtain ⟨t, hvisits, -, hreported⟩ := Tracker.visitAll_reports_of program program.children
    (fun child hchild => Tracker.visit_reports program child
      (fun m hm => isProgram.single m (hbelow child hchild m hm))
      (fun m hm => single m (Node.mem_nodes_of_child hchild hm)))
    (fun hform => absurd hform hstatement) (t := entered)
    ⟨Scope.Frame.global, List.mem_cons_self, rfl⟩
    (by rw [Edge.statedIn_of_not_statement hstatement]; rfl)
  -- A program is no statement: nothing right below it is stated.
  have hedges : Edge.statedIn program program.children ++ Edge.unstatedIn program program.children =
      program.edges := by
    rw [Node.edges_eq]
    exact Edge.statedIn_append_unstatedIn fun hform => absurd hform hstatement
  rw [Edge.statedIn_of_not_statement hstatement, List.nil_append] at hedges
  have hfinal := (hreported.leave program).unresolved
  rw [hedges] at hfinal
  refine ⟨.ofTracker (t.leaveNode program), (t.leaveNode program).log,
    ofProgram_of_visit (Tracker.visit_of_steps henter hvisits), hfinal, ?_⟩
  rw [Node.nodes_eq, List.filter_cons_of_neg (by simp [isProgram.form]), ← Node.map_child_edges,
    List.filter_map]
  rfl

/-- Nested, stated and chained assignments are reported in the order in which
they start. -/
theorem unresolved_ofProgram_unknownTargets :
    unknownTargets.IsProgram ∧ Node.StatementsSingle unknownTargets.nodes ∧
      ∃ a log, ofProgram "state" "f = () => { g(h().i = 1); this.x = [y] = 2; };"
          unknownTargets = .ok (a, log) ∧
        (a.diagnostics.filter fun d => d.kind = .unresolvedTarget) =
          [⟨.unresolvedTarget, ⟨1, 14⟩,
              "cannot resolve the variable written by this assignment " ++
                "(<unresolved:CallExpression>)"⟩,
            ⟨.unresolvedTarget, ⟨1, 26⟩,
              "cannot resolve the variable written by this assignment " ++
                "(<unresolved:ThisExpression>)"⟩,
            ⟨.unresolvedTarget, ⟨1, 35⟩,
              "cannot resolve the variable written by this assignment " ++
                "(<unresolved:DestructuringAssignment>)"⟩] := by
  have isProgram : unknownTargets.IsProgram := ⟨rfl, by decide⟩
  have single : Node.StatementsSingle unknownTargets.nodes := by
    unfold Node.StatementsSingle
    decide
  obtain ⟨a, log, hanalysis, hreports, -⟩ := unresolved_ofProgram isProgram single
    "f = () => { g(h().i = 1); this.x = [y] = 2; };" "state"
  refine ⟨isProgram, single, a, log, hanalysis, ?_⟩
  rw [hreports]
  decide +kernel

end Analysis
end ScopeTrack
