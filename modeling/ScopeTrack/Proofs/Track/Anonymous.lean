/-
# Scopes without a name

A function that opens a scope without a name is reported where it starts, and its
scope gets the anonymous name.  Nothing else is reported as such: a traversal
reports each spot that opens a scope without a name, in order, and no other
(`visit_tells`).

A function that is named nowhere opens such a scope.  But so does a function
expression with a name of its own that is bound under no name, although the report
says that it has none.  These two kinds are all (`Analysis.anonymous_ofProgram`).
-/

import Mathlib.Data.List.Nodup
import ScopeTrack.Proofs.Track.Invariant
import ScopeTrack.Proofs.Tree.FunctionNames

namespace ScopeTrack

namespace Spot

/-- The report on a function whose scope has no name. -/
def anonymousReport (lines : LineIndex) (q : Spot) : Diagnostic :=
  ⟨.anonymousScope, lines.location q.node.span.start, Diagnostic.anonymousScopeMessage⟩

/-- What is reported at a spot on scopes without a name. -/
def anonymousReports (lines : LineIndex) (q : Spot) : List Diagnostic :=
  if q.opened? = some none then [q.anonymousReport lines] else []

end Spot

namespace Tracker

/-- The reports on scopes without a name. -/
def anonymous (t : Tracker) : List Diagnostic :=
  t.diagnostics.filter fun d => d.kind = .anonymousScope

/-- From one tracker to another, just those of some spots have been reported that
open a scope without a name. -/
structure Tells (t : Tracker) (spots : List Spot) (t₁ : Tracker) : Prop where
  lines : t₁.lines = t.lines
  anonymous : t₁.anonymous = t.anonymous ++ spots.flatMap (Spot.anonymousReports t.lines)

theorem Tells.refl (t : Tracker) : Tells t [] t :=
  ⟨rfl, by simp⟩

/-- **What is told adds up along the way**, the reports on the first spots before those
on the second. -/
theorem Tells.trans {t t₁ t₂ : Tracker} {spots₁ spots₂ : List Spot} (h₁ : Tells t spots₁ t₁)
    (h₂ : Tells t₁ spots₂ t₂) : Tells t (spots₁ ++ spots₂) t₂ := by
  refine ⟨h₂.lines.trans h₁.lines, ?_⟩
  rw [h₂.anonymous, h₁.anonymous, h₁.lines, List.flatMap_append, List.append_assoc]

/-- Leaving a node reports nothing. -/
theorem Tells.leave {t t₁ : Tracker} {spots : List Spot} (h : Tells t spots t₁) (n : Node) :
    Tells t spots (t₁.leaveNode n) := by
  obtain ⟨chain, bound, log, hleave⟩ := leaveNode_eq t₁ n
  rw [hleave]
  exact ⟨h.lines, h.anonymous⟩

/-! ## Entering a node -/

section

variable {t t₁ : Tracker} {q : Spot} {frame : Scope.Frame} {outer : List Scope.Frame}

/-- A spot that opens no scope without a name, and where nothing of the kind is
reported. -/
theorem Tells.silent (hopen : q.opened? ≠ some none) (hlines : t₁.lines = t.lines)
    (h : t₁.anonymous = t.anonymous) : Tells t [q] t₁ := by
  refine ⟨hlines, ?_⟩
  rw [h]
  simp [Spot.anonymousReports, hopen]

theorem anonymous_congr (h : t₁.diagnostics = t.diagnostics) : t₁.anonymous = t.anonymous := by
  rw [anonymous, h]
  rfl

/-- A report counts only if it is on a scope without a name. -/
theorem anonymous_of_report {kind : DiagnosticKind} {span : Span} {message : String}
    (h : t₁.diagnostics = (t.report kind span message).diagnostics) :
    t₁.anonymous = t.anonymous ++
      if kind = .anonymousScope then [⟨kind, t.lines.location span.start, message⟩] else [] := by
  rw [anonymous, h]
  by_cases hkind : kind = .anonymousScope <;> simp [report, anonymous, hkind]

/-- Opening a scope reports it if it has no name. -/
theorem Tells.opening (hframes : t.chain.frames = frame :: outer) {name : Option String}
    (hopen : q.opened? = some name)
    (h : t.openScope q.node.span name q.node.parameterNames = .ok t₁) : Tells t [q] t₁ := by
  obtain ⟨log, heq⟩ := openScope_eq hframes q.node.span name q.node.parameterNames
  obtain rfl := Except.ok.inj (heq.symm.trans h)
  cases name with
  | some name => exact .silent (by simp [hopen]) rfl (anonymous_congr rfl)
  | none =>
      refine ⟨rfl, (anonymous_of_report (t := t) rfl).trans ?_⟩
      simp [Spot.anonymousReports, hopen, Spot.anonymousReport]

/-- Entering a function with a body. -/
theorem Tells.function (hframes : t.chain.frames = frame :: outer) {form : FunctionForm}
    {own : Option String} (hform : q.node.form = .function form own) (hs : form ≠ .signature)
    (hbound : t.bound.lookup q.node.span = q.standing.binding?)
    (h : t.enterFunction q.node.span form own q.node.parameterNames = .ok t₁) :
    Tells t [q] t₁ := by
  by_cases hd : form = .declaration
  · subst hd
    rw [enterFunction_declaration] at h
    exact .opening hframes (by simp [Spot.opened?, hform]) h
  · rw [← Spot.opened?_of_function hform hd hs] at hbound
    cases hopen : q.opened? with
    | none =>
        rw [enterFunction_unbound hd (hbound.trans hopen)] at h
        obtain rfl := Except.ok.inj h
        exact .silent (by simp [hopen]) rfl rfl
    | some name =>
        unfold enterFunction at h
        rw [hbound, hopen] at h
        cases form with
        | declaration => exact absurd rfl hd
        | signature => exact absurd rfl hs
        | arrow => exact .opening hframes hopen h
        | expression =>
            cases own with
            | some _ => exact .opening hframes hopen h
            | none =>
                let told := t.report .notDeanonymized q.node.span
                  (Diagnostic.notDeanonymizedMessage name)
                -- The report on a missing name comes first, and is of another kind.
                have htold : told.anonymous = t.anonymous :=
                  (anonymous_of_report rfl).trans (List.append_nil _)
                have htells : Tells told [q] t₁ := .opening (t := told) hframes hopen h
                exact ⟨htells.lines, htells.anonymous.trans (by rw [htold]; rfl)⟩

/-- **Entering a node reports it if it opens a scope without a name.**  -/
theorem tells_of_enterNode
    (ready : t.Ready q.scope q.node.nodes (q.node.notesAt q.standing))
    (henter : t.enterNode q.node = .ok t₁) : Tells t [q] t₁ := by
  obtain ⟨frame, outer, hframes, -⟩ := ready.current
  have hprogram := ready.single _ (Node.mem_nodes_self q.node)
  cases hf : q.node.form.isFunction with
  | true =>
      -- The binding that the tracker has noted is the one that the standing says.
      have hbound : t.bound.lookup q.node.span = q.standing.binding? := by
        rw [ready.noted _ (Node.span_mem_functionSpans hf), Node.lookup_notesAt_of_function hf,
          if_pos rfl]
      cases hform : q.node.form with
      | function form own =>
          unfold enterNode at henter
          by_cases hs : form = .signature
          · have hshape : q.node.shape? = none := by simp [Node.shape?, hform, hs]
            rw [hshape] at henter
            obtain rfl := Except.ok.inj henter
            exact .silent (by simp [Spot.opened?, hform, hs]) rfl rfl
          · have hshape : q.node.shape? = some (.function form own q.node.parameterNames) := by
              cases form <;> simp_all [Node.shape?]
            rw [hshape] at henter
            exact .function hframes hform hs hbound henter
      | _ => simp [Form.isFunction, hform] at hf
  | false =>
      -- What is no function opens no scope, so nothing is to be told.
      have hopen : q.opened? ≠ some none := by
        intro hopen
        have := Form.isFunction_of_hasBody (Spot.hasBody_of_opened hopen)
        rw [hf] at this
        cases this
      cases enters_of_enterNode hframes hprogram henter with
      | passes => exact .silent hopen rfl rfl
      | opens scope reported log hfunction =>
          rw [hf] at hfunction
          cases hfunction
      | declares => exact .silent hopen rfl rfl
      | states =>
          refine .silent hopen rfl ?_
          split
          · exact anonymous_congr rfl
          · exact (anonymous_of_report rfl).trans (List.append_nil _)
      | assigns =>
          refine .silent hopen rfl ?_
          split
          · exact anonymous_congr rfl
          · exact (anonymous_of_report rfl).trans (List.append_nil _)

end

/-! ## Going through a tree -/

/-- Going through some trees tells what their spots do, if it is so for each of them. -/
theorem visitAll_tells_of (ns : List Node)
    (ih : ∀ n ∈ ns, ∀ t scope standing, t.Ready scope n.nodes (n.notesAt standing) →
      ∀ t', t.visit n = .ok t' → Tells t (n.spots scope standing) t')
    {t t' : Tracker} {scope : String} {handed : Handed}
    (ready : t.Ready scope (Node.nodesIn ns) (Node.notesIn handed ns))
    (h : t.visitAll ns = .ok t') : Tells t (Node.spotsIn scope handed ns) t' := by
  induction ns generalizing t handed with
  | nil =>
      obtain rfl := Except.ok.inj h
      exact .refl t
  | cons n ns ihs =>
      obtain ⟨t₁, hvisit, advances⟩ := visit_of_ready n t scope _ ready.head
      rw [visitAll, hvisit] at h
      rw [Node.spotsIn]
      exact (ih n List.mem_cons_self t scope _ ready.head t₁ hvisit).trans
        (ihs (fun m hm => ih m (List.mem_cons_of_mem _ hm)) (ready.tail advances) h)

/-- **Going through a tree reports the scopes without a name**, in order. -/
theorem visit_tells (n : Node) (t : Tracker) (scope : String) (standing : Standing)
    (ready : t.Ready scope n.nodes (n.notesAt standing)) (t' : Tracker)
    (h : t.visit n = .ok t') : Tells t (n.spots scope standing) t' := by
  induction n using Node.induction generalizing t scope standing t' with
  | node role form span children ih =>
      let q : Spot := ⟨scope, standing, ⟨role, form, span, children⟩⟩
      obtain ⟨t₁, t₂, henter, hvisits, rfl⟩ := steps_of_visit h
      obtain ⟨t₁', henter', entered⟩ := enterNode_of_ready (q := q) ready
      obtain rfl : t₁' = t₁ := Except.ok.inj (henter'.symm.trans henter)
      have hown : Tells t [q] t₁' := tells_of_enterNode ready henter
      have hbelow := visitAll_tells_of children ih (entered.ready ready) hvisits
      rw [Node.spots_eq]
      exact (hown.trans hbelow).leave q.node

/-- A traversal of a program reports the scopes without a name, in order. -/
theorem visit_program_tells {program : Node} (delivered : program.Delivered)
    {source tableName : String} {t : Tracker}
    (h : (start source tableName).visit program = .ok t) :
    Tells (start source tableName) (program.spots Scope.globalName .plain) t := by
  obtain ⟨t₁, t₂, henter, hvisits, rfl⟩ := steps_of_visit h
  obtain ⟨log, henter'⟩ := enterNode_program (t := start source tableName) delivered.form rfl
  obtain rfl := Except.ok.inj (henter'.symm.trans henter)
  have hroot : Tells (start source tableName) [⟨Scope.globalName, .plain, program⟩]
      { start source tableName with log := log } :=
    .silent (by simp [Spot.opened?, delivered.form]) rfl rfl
  have hbelow := visitAll_tells_of program.children (fun n _ => visit_tells n)
    (ready_of_delivered delivered source tableName log) hvisits
  rw [(spots_of_program delivered.form).1]
  exact (hroot.trans hbelow).leave program

end Tracker

namespace Spot

/-- The functions among some spots that open a scope. -/
def functions (spots : List Spot) : List Spot :=
  spots.filter fun q => q.opened?.isSome

/-- The reports on spots are those on the functions among them that are named nowhere or
whose name is overlooked.  Every other spot opens a scope with a name, or none. -/
theorem flatMap_anonymousReports (lines : LineIndex) (spots : List Spot) :
    spots.flatMap (anonymousReports lines) =
      ((functions spots).filter fun q => q.lacksName || q.overlooksName).map
        (anonymousReport lines) := by
  induction spots with
  | nil => rfl
  | cons q spots ih =>
      rw [List.flatMap_cons, ih]
      cases hopen : q.opened?.isSome with
      | false =>
          rw [Option.isSome_eq_false_iff, Option.isNone_iff_eq_none] at hopen
          simp [anonymousReports, functions, hopen]
      | true =>
          -- A scope is anonymous for one of two reasons, and in no other case.
          have hiff := opened?_eq_anonymous_iff hopen
          rw [← Bool.or_eq_true] at hiff
          have hfunctions : functions (q :: spots) = q :: functions spots :=
            List.filter_cons_of_pos hopen
          rw [hfunctions, List.filter_cons, anonymousReports]
          by_cases hnone : q.opened? = some none
          · rw [if_pos hnone, if_pos (hiff.1 hnone)]
            rfl
          · rw [if_neg hnone, if_neg (mt hiff.2 hnone)]
            rfl

/-- In a tree whose functions are told apart by their spans, so are the spots of
functions. -/
theorem eq_of_span {n : Node} (distinct : n.functionSpans.Nodup) {scope : String}
    {standing : Standing} {q r : Spot} (hq : q ∈ n.spots scope standing)
    (hr : r ∈ n.spots scope standing) (hqf : q.node.form.isFunction = true)
    (hrf : r.node.form.isFunction = true) (h : q.node.span = r.node.span) : q = r := by
  rw [Node.functionSpans, ← Node.map_node_spots n scope standing, Node.spansOfFunctions,
    List.filter_map, List.map_map] at distinct
  exact List.inj_on_of_nodup_map distinct (List.mem_filter.2 ⟨hq, hqf⟩)
    (List.mem_filter.2 ⟨hr, hrf⟩) h

end Spot

/-- In one scope, functions with different names have scopes with different names. -/
theorem Scope.childName_inj {parent function other : String} :
    childName parent function = childName parent other ↔ function = other := by
  simp only [childName, ← String.toList_inj, String.toList_append, List.append_cancel_left_eq]

namespace Tracker

section

variable {source tableName : String} {program : Node} {t : Tracker} {q : Spot}
  (completes : Completes source tableName program t)
  (hq : q ∈ Spot.functions (program.spots Scope.globalName .plain))
include completes hq

/-- A function that opens a scope has one in the end. -/
theorem Completes.exists_frame : ∃ frame ∈ t.chain.archive, frame.owner = some q.node.span := by
  obtain ⟨hspot, hopen⟩ := List.mem_filter.1 hq
  obtain ⟨name, hname⟩ := Option.isSome_iff_exists.1 hopen
  have hcloses : q.closes? = some (q.inner, some q.node.span) := by simp [Spot.closes?, hname]
  have hleft := (Node.spotsLeft_perm program Scope.globalName .plain).mem_iff.2 hspot
  have hheading : (q.inner, some q.node.span) ∈ t.chain.archive.map Scope.Frame.heading := by
    rw [completes.archive]
    exact List.mem_append_left _ (List.mem_filterMap.2 ⟨q, hleft, hcloses⟩)
  obtain ⟨frame, hframe, hheading⟩ := List.mem_map.1 hheading
  exact ⟨frame, hframe, congrArg Prod.snd hheading⟩

/-- The scope that a function owns has the name that its spot says. -/
theorem Completes.name_of_owner (delivered : program.Delivered) {frame : Scope.Frame}
    (hframe : frame ∈ t.chain.archive) (howner : frame.owner = some q.node.span) :
    frame.name = q.inner := by
  obtain ⟨hspot, hopen⟩ := List.mem_filter.1 hq
  obtain ⟨name, hname⟩ := Option.isSome_iff_exists.1 hopen
  have hheading : frame.heading ∈ t.chain.archive.map Scope.Frame.heading :=
    List.mem_map_of_mem hframe
  rw [completes.archive, List.mem_append, List.mem_filterMap, List.mem_singleton] at hheading
  rcases hheading with ⟨other, hother, hcloses⟩ | hglobal
  · obtain ⟨name', hname', hheading⟩ := Option.map_eq_some_iff.1 hcloses
    have hspot' := (Node.spotsLeft_perm program Scope.globalName .plain).mem_iff.1 hother
    have hspan : some other.node.span = some q.node.span :=
      (congrArg Prod.snd hheading).trans howner
    -- Two functions with one span are one function.
    obtain rfl : other = q := Spot.eq_of_span delivered.distinct hspot' hspot
      (Form.isFunction_of_hasBody (Spot.hasBody_of_opened hname'))
      (Form.isFunction_of_hasBody (Spot.hasBody_of_opened hname)) (Option.some.inj hspan)
    exact (congrArg Prod.fst hheading).symm
  · have hnone : frame.owner = none := congrArg Prod.snd hglobal
    rw [hnone] at howner
    cases howner

end

end Tracker

/-- The scope that a function opens has the anonymous name just if it goes
without a name, as long as no name in the tree is spelled like it. -/
theorem Spot.inner_eq_anonymous_iff {program : Node} {q : Spot}
    (hq : q ∈ functions (program.spots Scope.globalName .plain))
    (spelled : ∀ n ∈ program.nodes, n.form.name? ≠ some anonymousName) :
    q.inner = Scope.childName q.scope anonymousName ↔
      q.lacksName = true ∨ q.overlooksName = true := by
  obtain ⟨hspot, hopen⟩ := List.mem_filter.1 hq
  rw [← opened?_eq_anonymous_iff hopen]
  obtain ⟨name, hname⟩ := Option.isSome_iff_exists.1 hopen
  rw [inner_of_opened hname, Scope.childName_inj, hname]
  cases name with
  | none => simp
  | some name =>
      obtain ⟨m, hm, hwritten⟩ := Node.exists_of_opened hspot hname
      have hne : name ≠ anonymousName := by
        rintro rfl
        exact spelled m hm hwritten
      simp [hne]

namespace Analysis

/-- The function of `overlookedName`. -/
def overlookedFunction : Node :=
  ⟨.value, .function .expression (some "g"), ⟨7, 22⟩, [
    ⟨.other, .identifier "g", ⟨16, 17⟩, []⟩,
    ⟨.body, .statementList, ⟨20, 22⟩, []⟩]⟩

/-- `o[k] = function g() {};` -/
def overlookedName : Node :=
  ⟨.other, .program, ⟨0, 23⟩, [
    ⟨.statement, .expressionStatement, ⟨0, 23⟩, [
      ⟨.value, .assignment, ⟨0, 22⟩, [
        ⟨.subject, .member .computed, ⟨0, 4⟩, [
          ⟨.subject, .identifier "o", ⟨0, 1⟩, []⟩,
          ⟨.other, .identifier "k", ⟨2, 3⟩, []⟩]⟩,
        overlookedFunction]⟩]⟩]⟩

/-- **Which scopes have no name.**  Of the functions that open a scope, those that
are named nowhere and those whose own name is overlooked are reported to have no
name, in order, each once and where it starts, and no other is.  Each function has
a scope, and it has the anonymous name just if the function is one of these, as
long as no name in the program is spelled like it.  A function whose name is
overlooked does have a name. -/
theorem anonymous_ofProgram {program : Node} (delivered : program.Delivered)
    (spelled : ∀ n ∈ program.nodes, n.form.name? ≠ some anonymousName)
    (source tableName : String) :
    ∃ a log, ofProgram tableName source program = .ok (a, log) ∧
      let functions := Spot.functions (program.spots Scope.globalName .plain)
      a.diagnostics.filter (fun d => d.kind = .anonymousScope) =
          (functions.filter fun q => q.lacksName || q.overlooksName).map
            (Spot.anonymousReport (LineIndex.ofText source)) ∧
        ∀ q ∈ functions,
          (∃ frame ∈ a.scopes, frame.owner = some q.node.span) ∧
          (∀ frame ∈ a.scopes, frame.owner = some q.node.span →
            (frame.name = Scope.childName q.scope anonymousName ↔
              q.lacksName = true ∨ q.overlooksName = true)) ∧
          (q.overlooksName = true → q.lacksName = false) := by
  obtain ⟨t, hvisit, completes⟩ := Tracker.visit_delivered delivered source tableName
  refine ⟨ofTracker t, t.log, ofProgram_of_visit hvisit, ?_, ?_⟩
  · have htells := (Tracker.visit_program_tells delivered hvisit).anonymous
    rw [Spot.flatMap_anonymousReports] at htells
    exact htells
  · intro q hq
    refine ⟨completes.exists_frame hq, ?_, Spot.lacksName_of_overlooksName⟩
    intro frame hframe howner
    rw [completes.name_of_owner hq delivered hframe howner]
    exact Spot.inner_eq_anonymous_iff hq spelled

/-- A function with the name `g` is reported to have none, and its scope is
anonymous. -/
theorem anonymous_ofProgram_overlookedName :
    overlookedName.Delivered ∧
      (∀ n ∈ overlookedName.nodes, n.form.name? ≠ some anonymousName) ∧
      Spot.ownName? ⟨Scope.globalName, .bound none, overlookedFunction⟩ = some "g" ∧
      ∃ a log, ofProgram "state" "o[k] = function g() {};" overlookedName = .ok (a, log) ∧
        a.diagnostics.filter (fun d => d.kind = .anonymousScope) =
          [⟨.anonymousScope, ⟨1, 7⟩, Diagnostic.anonymousScopeMessage⟩] ∧
        ∃ frame ∈ a.scopes, frame.owner = some ⟨7, 22⟩ ∧ frame.name = "Program:<anonymous>" := by
  have delivered : overlookedName.Delivered := ⟨⟨rfl, by decide⟩, by decide⟩
  have spelled : ∀ n ∈ overlookedName.nodes, n.form.name? ≠ some anonymousName := by decide
  obtain ⟨a, log, hanalysis, hreports, hscopes⟩ :=
    anonymous_ofProgram delivered spelled "o[k] = function g() {};" "state"
  refine ⟨delivered, spelled, rfl, a, log, hanalysis, hreports.trans (by decide +kernel), ?_⟩
  have hfunctions : Spot.functions (overlookedName.spots Scope.globalName .plain) =
      [⟨Scope.globalName, .bound none, overlookedFunction⟩] := rfl
  rw [hfunctions] at hscopes
  obtain ⟨⟨frame, hframe, howner⟩, hnamed, -⟩ := hscopes _ List.mem_cons_self
  refine ⟨frame, hframe, howner, ?_⟩
  rw [(hnamed frame hframe howner).2 (.inr rfl)]
  decide

end Analysis
end ScopeTrack
