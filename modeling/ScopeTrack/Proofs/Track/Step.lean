/-
# What entering a node does

One equation for each operation of the tracker: from a tracker in which a scope
is open, the operation succeeds, and the tracker that it leaves is the old one
with the fields changed that are named.  Only the log is left open.

`Tracker.enterNode` and `Tracker.leaveNode` take a node as a whole, so that a
visit enters, goes through the children, and leaves (`visit_eq`).  All that
entering can do, whatever the node, is `Tracker.Enters` (`enters_of_enterNode`).
-/

import ScopeTrack.Proofs.Tree.Spot
import ScopeTrack.Track.Tracker

namespace ScopeTrack

theorem Scope.Chain.current_of_frames {c : Scope.Chain} {frame : Scope.Frame}
    {outer : List Scope.Frame} (h : c.frames = frame :: outer) : c.current = .ok frame := by
  simp [Scope.Chain.current, h]

/-- Replacing the innermost scope leaves those around it and the archive. -/
theorem Scope.Chain.setCurrent_of_frames {c : Scope.Chain} {frame : Scope.Frame}
    {outer : List Scope.Frame} (h : c.frames = frame :: outer) (other : Scope.Frame) :
    c.setCurrent other = .ok ⟨other :: outer, c.archive⟩ := by
  simp [Scope.Chain.setCurrent, h]

/-- The sites with one more for a change. -/
def Change.record (lines : LineIndex) (tableName : String) (sites : List UpdateSite)
    (change : Change) : List UpdateSite :=
  UpdateSite.record tableName sites (lines.location change.stop) change.scope change.target

namespace Tracker

/-- Enters a node, whatever its shape. -/
def enterNode (t : Tracker) (n : Node) : Except Error Tracker :=
  match n.shape? with
  | some shape => t.enter n.span shape
  | none => .ok t

/-- Leaves a node, whatever its shape. -/
def leaveNode (t : Tracker) (n : Node) : Tracker :=
  match n.shape? with
  | some shape => t.leave n.span shape
  | none => t

/-- **A visit enters, goes through the children, and leaves.**  -/
theorem visit_eq (t : Tracker) (n : Node) :
    t.visit n = do
      let t ← t.enterNode n
      let t ← t.visitAll n.children
      return t.leaveNode n := by
  obtain ⟨role, form, span, children⟩ := n
  rw [visit]
  unfold enterNode leaveNode
  cases Node.shape? ⟨role, form, span, children⟩ with
  | some shape => rfl
  | none => exact (bind_pure (t.visitAll children)).symm

/-- **Going through a tree** is entering it, going through its children, and leaving it.
A node that is passed over is entered and left without a change, so this holds of every
node. -/
theorem visit_of_steps {t t₁ t₂ : Tracker} {n : Node} (henter : t.enterNode n = .ok t₁)
    (hvisits : t₁.visitAll n.children = .ok t₂) : t.visit n = .ok (t₂.leaveNode n) := by
  rw [visit_eq, henter]
  change (t₁.visitAll n.children).bind _ = _
  rw [hvisits]
  rfl

/-- A visit that succeeds has gone these three steps. -/
theorem steps_of_visit {t t' : Tracker} {n : Node} (h : t.visit n = .ok t') :
    ∃ t₁ t₂, t.enterNode n = .ok t₁ ∧ t₁.visitAll n.children = .ok t₂ ∧ t' = t₂.leaveNode n := by
  rw [visit_eq] at h
  cases henter : t.enterNode n with
  | error e =>
      rw [henter] at h
      cases h
  | ok t₁ =>
      rw [henter] at h
      change (t₁.visitAll n.children).bind _ = _ at h
      cases hvisits : t₁.visitAll n.children with
      | error e =>
          rw [hvisits] at h
          cases h
      | ok t₂ =>
          rw [hvisits] at h
          exact ⟨t₁, t₂, rfl, hvisits, (Except.ok.inj h).symm⟩

variable {t : Tracker} {frame : Scope.Frame} {outer : List Scope.Frame}

/-- Opening a scope puts a frame in front and registers the parameters in it. -/
theorem openScope_eq (h : t.chain.frames = frame :: outer) (span : Span) (name : Option String)
    (parameters : List String) :
    ∃ log, t.openScope span name parameters = .ok { t with
      chain :=
        ⟨{ name := Scope.childName frame.name (name.getD anonymousName), owner := some span } ::
          frame :: outer, t.chain.archive⟩
      table := (t.table.registerAll (parameters.map
        (Table.key (Scope.childName frame.name (name.getD anonymousName))))).2
      diagnostics := (t.nameOrAnonymous span name).2.diagnostics
      log := log } := by
  cases name <;>
    exact ⟨_, by
      simp [openScope, nameOrAnonymous, report, note, Scope.Chain.enter,
        Scope.Chain.current, h, bind, Except.bind, pure, Except.pure, setTable,
        Table.registerParameters]
      rfl⟩

/-- What is reported when a scope is opened is not about an assignment. -/
theorem openScope_reports (h : t.chain.frames = frame :: outer) (span : Span)
    (name : Option String) (parameters : List String) :
    ∃ scope reported log, (∀ d ∈ reported, d.kind ≠ .unresolvedTarget) ∧
      t.openScope span name parameters = .ok { t with
        chain := ⟨{ name := scope, owner := some span } :: frame :: outer, t.chain.archive⟩
        table := (t.table.registerAll (parameters.map (Table.key scope))).2
        diagnostics := t.diagnostics ++ reported
        log := log } := by
  obtain ⟨log, hopen⟩ := openScope_eq h span name parameters
  cases name with
  | some name => exact ⟨_, [], log, by simp, by simpa [nameOrAnonymous] using hopen⟩
  | none =>
      exact ⟨_, [⟨.anonymousScope, t.lines.location span.start, Diagnostic.anonymousScopeMessage⟩],
        log, by simp, hopen⟩

/-- **Entering a function** changes nothing, or opens its scope; what it reports
then is not about an assignment. -/
theorem enterFunction_cases (h : t.chain.frames = frame :: outer) (span : Span)
    (form : FunctionForm) (own : Option String) (parameters : List String) :
    t.enterFunction span form own parameters = .ok t ∨
      ∃ scope reported log, (∀ d ∈ reported, d.kind ≠ .unresolvedTarget) ∧
        t.enterFunction span form own parameters = .ok { t with
          chain := ⟨{ name := scope, owner := some span } :: frame :: outer, t.chain.archive⟩
          table := (t.table.registerAll (parameters.map (Table.key scope))).2
          diagnostics := t.diagnostics ++ reported
          log := log } := by
  unfold enterFunction
  split
  · exact .inr (openScope_reports h span own parameters)
  · next binding _ =>
      cases own with
      | some _ => exact .inr (openScope_reports h span binding parameters)
      | none =>
          let told := t.report .notDeanonymized span (Diagnostic.notDeanonymizedMessage binding)
          obtain ⟨scope, reported, log, hkinds, hopen⟩ :=
            openScope_reports (t := told) h span binding parameters
          refine .inr ⟨scope, ⟨.notDeanonymized, t.lines.location span.start,
            Diagnostic.notDeanonymizedMessage binding⟩ :: reported, log, ?_, ?_⟩
          · simpa using hkinds
          · simpa [told, report, note] using hopen
  · exact .inr (openScope_reports h span _ parameters)
  · exact .inl rfl

/-- Recording some variables of one scope changes only the sites and the log. -/
theorem foldl_recordSite (t : Tracker) (span : Span) (scope : String) (names : List String) :
    ∃ log, names.foldl (fun t name => t.recordSite span scope (.named name)) t = { t with
      sites := (Change.ofNames scope span.stop names).foldl
        (Change.record t.lines t.tableName) t.sites
      log := log } := by
  induction names generalizing t with
  | nil => exact ⟨t.log, rfl⟩
  | cons name names ih =>
      obtain ⟨log, h⟩ := ih (t.recordSite span scope (.named name))
      exact ⟨log, by rw [List.foldl_cons, h]; rfl⟩

/-- Noting a function changes only the notes. -/
theorem noteBound_eq (t : Tracker) (bound : Option BoundFunction) :
    t.noteBound bound = { t with bound := (t.noteBound bound).bound } := by
  cases bound <;> rfl

/-- Entering a declarator declares and registers its variables, records a site
for each if it has an initializer, and notes the function that it binds. -/
theorem enterDeclarator_eq (h : t.chain.frames = frame :: outer) (span : Span)
    (names : List String) (initialized : Bool) (bound : Option BoundFunction) :
    ∃ log, t.enterDeclarator span names initialized bound = .ok { t with
      chain := ⟨frame.declareAll names :: outer, t.chain.archive⟩
      table := (t.table.registerAll (names.map (Table.key frame.name))).2
      sites := (if initialized then Change.ofNames frame.name span.stop names else []).foldl
        (Change.record t.lines t.tableName) t.sites
      bound := (t.noteBound bound).bound
      log := log } := by
  cases initialized with
  | false =>
      exact ⟨_, by
        simp [enterDeclarator, Scope.Chain.current_of_frames h, Scope.Chain.setCurrent_of_frames h,
          bind, Except.bind, pure, Except.pure, setTable, Table.registerDeclarator]
        rw [noteBound_eq]
        cases bound <;> rfl⟩
  | true =>
      -- The sites are recorded after the names are registered, which they do not depend on.
      let added := (t.table.registerAll (names.map (Table.key frame.name))).1
      let table := (t.table.registerAll (names.map (Table.key frame.name))).2
      let declared := { t with chain := ⟨frame.declareAll names :: outer, t.chain.archive⟩ }
      obtain ⟨log, hr⟩ := foldl_recordSite (declared.setTable added table) span frame.name names
      refine ⟨log, ?_⟩
      simp only [enterDeclarator, Scope.Chain.current_of_frames h,
        Scope.Chain.setCurrent_of_frames h, bind, Except.bind, pure, Except.pure,
        Table.registerDeclarator, if_true]
      rw [hr, noteBound_eq]
      cases bound <;> rfl

/-- Entering a statement that is an assignment states the assignment, records a
site, and notes the function that is bound. -/
theorem enterStatement_eq (h : t.chain.frames = frame :: outer) (span assignment : Span)
    (target : Target) (bound : Option BoundFunction) :
    ∃ log, t.enterStatement span assignment target bound = .ok { t with
      stated := assignment :: t.stated.filter fun other => other ≠ assignment
      sites := Change.record t.lines t.tableName t.sites ⟨frame.name, span.stop, target⟩
      diagnostics :=
        if target.isResolved then t.diagnostics
        else (t.report .unresolvedTarget span
          (Diagnostic.unresolvedTargetMessage target)).diagnostics
      bound := (t.noteBound bound).bound
      log := log } := by
  cases hr : target.isResolved <;>
    exact ⟨_, by
      simp [enterStatement, hr, report, note, recordSite, Change.record,
        Scope.Chain.current_of_frames h, bind, Except.bind, pure, Except.pure]
      rw [noteBound_eq]
      cases bound <;> rfl⟩

/-- Entering an assignment registers its target and takes it from the stated
ones. -/
theorem enterAssignment_eq (h : t.chain.frames = frame :: outer) (span : Span) (target : Target) :
    ∃ log, t.enterAssignment span target = .ok { t with
      table := (t.table.registerAll (target.name?.toList.map (Table.key frame.name))).2
      stated := t.stated.filter fun other => other ≠ span
      diagnostics :=
        if target.isResolved ∨ t.stated.contains span then t.diagnostics
        else (t.report .unresolvedTarget span
          (Diagnostic.unresolvedTargetMessage target)).diagnostics
      log := log } := by
  by_cases hr : target.isResolved ∨ t.stated.contains span
  all_goals
    exact ⟨_, by
      simp only [enterAssignment, Scope.Chain.current_of_frames h, bind, Except.bind, pure,
        Except.pure, hr, if_true, if_false, Table.registerAssignment, setTable, report, note]
      rfl⟩

/-! ## Entering any node -/

/-- **All that entering a node below a program can do** to a tracker whose
innermost scope is `frame`. -/
inductive Enters (t : Tracker) (frame : Scope.Frame) (outer : List Scope.Frame) (n : Node) :
    Tracker → Prop
  /-- Nothing. -/
  | passes (declarator : n.form ≠ .declarator) (assignment : n.form ≠ .assignment)
      (stated : n.statedAssignment? = none) : Enters t frame outer n t
  /-- A function opens a scope. -/
  | opens (scope : String) (reported : List Diagnostic) (log : List Record)
      (function : n.form.isFunction = true)
      (kinds : ∀ d ∈ reported, d.kind ≠ .unresolvedTarget) :
      Enters t frame outer n { t with
        chain := ⟨{ name := scope, owner := some n.span } :: frame :: outer, t.chain.archive⟩
        table := (t.table.registerAll (n.parameterNames.map (Table.key scope))).2
        diagnostics := t.diagnostics ++ reported
        log := log }
  /-- A declarator declares its variables. -/
  | declares (sites : List UpdateSite) (bound : List (Span × Option String)) (log : List Record)
      (form : n.form = .declarator) :
      Enters t frame outer n { t with
        chain := ⟨frame.declareAll n.declaredNames :: outer, t.chain.archive⟩
        table := (t.table.registerAll (n.declaredNames.map (Table.key frame.name))).2
        sites := sites
        bound := bound
        log := log }
  /-- A statement states its assignment. -/
  | states (assignment : Node) (sites : List UpdateSite) (bound : List (Span × Option String))
      (log : List Record) (stated : n.statedAssignment? = some assignment) :
      Enters t frame outer n { t with
        stated := assignment.span :: t.stated.filter fun other => other ≠ assignment.span
        sites := sites
        diagnostics :=
          if assignment.target.isResolved then t.diagnostics
          else (t.report .unresolvedTarget n.span
            (Diagnostic.unresolvedTargetMessage assignment.target)).diagnostics
        bound := bound
        log := log }
  /-- An assignment registers its target. -/
  | assigns (log : List Record) (form : n.form = .assignment) :
      Enters t frame outer n { t with
        table := (t.table.registerAll (n.target.name?.toList.map (Table.key frame.name))).2
        stated := t.stated.filter fun other => other ≠ n.span
        diagnostics :=
          if n.target.isResolved ∨ t.stated.contains n.span then t.diagnostics
          else (t.report .unresolvedTarget n.span
            (Diagnostic.unresolvedTargetMessage n.target)).diagnostics
        log := log }

/-- Whatever entering a node gives, it is one of the cases of `Enters`: entering
succeeds where a scope is open, so there is no other result. -/
theorem enters_of_enterNode {t₁ : Tracker} (hframes : t.chain.frames = frame :: outer) {n : Node}
    (hprogram : n.form ≠ .program) (h : t.enterNode n = .ok t₁) : Enters t frame outer n t₁ := by
  unfold enterNode at h
  cases hform : n.form with
  | program => exact absurd hform hprogram
  | function form own =>
      -- A function passes if it has no body or is not bound.
      have passes : Enters t frame outer n t :=
        .passes (by simp [hform]) (by simp [hform])
          (Node.statedAssignment?_eq_none (by simp [hform]))
      cases hshape : n.shape? with
      | none =>
          rw [hshape] at h
          cases h
          exact passes
      | some shape =>
          obtain rfl : shape = .function form own n.parameterNames := by
            cases form <;> simp_all [Node.shape?]
          rw [hshape] at h
          -- Entering gives one result, so the tracker is the one that is told.
          rcases enterFunction_cases hframes n.span form own n.parameterNames with
            hsame | ⟨scope, reported, log, hkinds, hopen⟩
          · cases hsame.symm.trans h
            exact passes
          · cases hopen.symm.trans h
            exact .opens scope reported log (by rw [hform]; rfl) hkinds
  | declarator =>
      obtain ⟨log, hdeclare⟩ := enterDeclarator_eq hframes n.span n.declaredNames
        (n.child? .value).isSome (n.boundFunction? Node.declaredName?)
      simp only [Node.shape?, hform] at h
      cases hdeclare.symm.trans h
      exact .declares _ _ log hform
  | expressionStatement =>
      cases hs : n.statedAssignment? with
      | none =>
          simp only [Node.shape?, hform, hs, Option.map_none] at h
          cases h
          exact .passes (by simp [hform]) (by simp [hform]) hs
      | some assignment =>
          simp only [Node.shape?, hform, hs, Option.map_some] at h
          obtain ⟨log, hstate⟩ := enterStatement_eq hframes n.span assignment.span
            assignment.target (assignment.boundFunction? Node.assignedName?)
          cases hstate.symm.trans h
          exact .states assignment _ _ log hs
  | assignment =>
      simp only [Node.shape?, hform] at h
      obtain ⟨log, hassign⟩ := enterAssignment_eq hframes n.span n.target
      cases hassign.symm.trans h
      exact .assigns log hform
  | _ =>
      simp only [Node.shape?, hform] at h
      cases h
      exact .passes (by simp [hform]) (by simp [hform])
        (Node.statedAssignment?_eq_none (by simp [hform]))

end Tracker
end ScopeTrack
