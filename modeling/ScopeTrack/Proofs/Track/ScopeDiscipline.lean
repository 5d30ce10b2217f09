/-
# Scope discipline

Wherever a traversal of a delivered program comes to a node, going through that
node leaves the scopes that were open as they were, up to variables that the
innermost one declares in addition; it takes the notes on the functions in the
node away, and the assignments in the node from the stated ones
(`visit_keeps_scopes`).  In the end no scope is open, and the archive holds one
scope for each function that opens one, in the order in which they are left, and
the global scope last.

A function without a body is the exception among the notes: it may be bound, but
it is passed over, so its note is not taken away (`bodilessBindings`), and it
opens no scope.  `visit_keeps_bodiless_note` is such a program.
-/

import ScopeTrack.Proofs.Track.Program

namespace ScopeTrack
namespace Tracker

/-- What a part of the spots says of the functions without a body that are in
it is what all spots say. -/
theorem lookup_bodiless_of_part {part all : List Spot} (h : part <:+: all)
    (distinct : (Node.spansOfFunctions (all.map Spot.node)).Nodup) {span : Span}
    (hspan : span ∈ Node.spansOfFunctions (part.map Spot.node)) :
    (all.filterMap Spot.bodiless?).lookup span = (part.filterMap Spot.bodiless?).lookup span := by
  obtain ⟨before, after, rfl⟩ := h
  simp only [List.map_append, Node.spansOfFunctions_append] at distinct
  have hdistinct := List.nodup_append.1 distinct
  have hbefore : span ∉ Node.spansOfFunctions (before.map Spot.node) := fun hb =>
    (List.nodup_append.1 hdistinct.1).2.2 _ hb _ hspan rfl
  have hafter : span ∉ Node.spansOfFunctions (after.map Spot.node) := fun ha =>
    hdistinct.2.2 _ (List.mem_append_right _ hspan) _ ha rfl
  rw [List.filterMap_append, List.filterMap_append, List.lookup_append, List.lookup_append,
    lookup_bodiless_eq_none hbefore, lookup_bodiless_eq_none hafter, Option.none_or, Option.or_none]

theorem eq_nil_of_lookup_eq_none {entries : List (Span × Option String)}
    (h : ∀ span, entries.lookup span = none) : entries = [] := by
  cases entries with
  | nil => rfl
  | cons entry entries =>
      have := h entry.1
      rw [List.lookup_cons_self] at this
      cases this

/-- **A traversal keeps its scopes.**  Going through any node below a delivered
program succeeds, leaves the open scopes as they were, and takes from the notes
and from the stated assignments what belongs to the node; of the functions in the
node, just those without a body that the program binds are noted afterwards.  The
whole traversal succeeds and ends with no scope open and no assignment stated; if
no function without a body is bound, no function is noted either.  The scopes of
the analysis are those of the functions that open one, in the order in which they
are left, and the global scope comes last. -/
theorem visit_keeps_scopes {program : Node} (delivered : program.Delivered)
    (source tableName : String) :
    (∀ t n, Arrives (start source tableName) program t n → n.form ≠ .program →
      ∃ t', t.visit n = .ok t' ∧
        (∃ frame frame' outer, t.chain.frames = frame :: outer ∧
          t'.chain.frames = frame' :: outer ∧ frame.Extends frame') ∧
        (∀ span, t'.bound.lookup span =
          if span ∈ n.functionSpans then program.bodilessBindings.lookup span
          else t.bound.lookup span) ∧
        ∀ span, span ∈ t'.stated ↔ span ∈ t.stated ∧ span ∉ n.assignmentSpans) ∧
    ∃ t, (start source tableName).visit program = .ok t ∧
      t.chain.frames = [] ∧ t.stated = [] ∧
      (∀ span, t.bound.lookup span = program.bodilessBindings.lookup span) ∧
      (program.bodilessBindings = [] → t.bound = []) ∧
      Analysis.ofProgram tableName source program = .ok (.ofTracker t, t.log) ∧
      (Analysis.ofTracker t).scopes.map Scope.Frame.heading =
        (program.spotsLeft Scope.globalName .plain).filterMap Spot.closes? ++
          [(Scope.globalName, none)] := by
  constructor
  · intro t n arrives hn
    obtain ⟨scope, standing, ready, hpart⟩ := arrives.ready_of_program delivered hn
    obtain ⟨t', hvisit, advances⟩ := visit_of_ready n t scope standing ready
    have hnodes := Node.map_node_spots n scope standing
    refine ⟨t', hvisit, advances.frames, ?_, ?_⟩
    · intro span
      have hspans : Node.spansOfFunctions ((n.spots scope standing).map Spot.node) =
          n.functionSpans := congrArg Node.spansOfFunctions hnodes
      rw [advances.bound, hspans]
      by_cases hspan : span ∈ n.functionSpans
      · rw [if_pos hspan, if_pos hspan]
        refine (lookup_bodiless_of_part hpart ?_ (hspans.symm ▸ hspan)).symm
        rw [Node.map_node_spots]
        exact delivered.distinct
      · rw [if_neg hspan, if_neg hspan]
    · intro span
      rw [advances.stated, hnodes]
      rfl
  · obtain ⟨t, hvisit, completes⟩ := visit_delivered delivered source tableName
    refine ⟨t, hvisit, completes.frames, completes.stated, completes.bound, ?_,
      Analysis.ofProgram_of_visit hvisit, completes.archive⟩
    intro hnone
    apply eq_nil_of_lookup_eq_none
    intro span
    rw [completes.bound, hnone]
    rfl

/-- `function inner() {}`, where it stands in `nestedFunctions`. -/
def innerFunction : Node :=
  ⟨.other, .function .declaration (some "inner"), ⟨23, 42⟩, [
    ⟨.other, .identifier "inner", ⟨32, 37⟩, []⟩,
    ⟨.body, .statementList, ⟨40, 42⟩, []⟩]⟩

/-- `const outer = (a) => { function inner() {} };` -/
def nestedFunctions : Node :=
  ⟨.other, .program, ⟨0, 45⟩, [
    ⟨.statement, .variableDeclaration, ⟨0, 45⟩, [
      ⟨.other, .declarator, ⟨6, 44⟩, [
        ⟨.subject, .identifier "outer", ⟨6, 11⟩, []⟩,
        ⟨.value, .function .arrow none, ⟨14, 44⟩, [
          ⟨.parameter, .identifier "a", ⟨15, 16⟩, []⟩,
          ⟨.body, .statementList, ⟨21, 44⟩, [innerFunction]⟩]⟩]⟩]⟩]⟩

section

variable {t t₁ t₂ t' : Tracker} {n earlier child n' : Node} {after : List Node}

/-- The first child is come to as soon as a node is entered. -/
theorem Arrives.first (entered : t.enterNode n = .ok t₁) (children : n.children = child :: after)
    (arrives : Arrives t₁ child t' n') : Arrives t n t' n' :=
  @inside t t₁ t₁ t' n child n' [] after entered children rfl arrives

/-- The second child is come to when the first one is gone through. -/
theorem Arrives.second (entered : t.enterNode n = .ok t₁)
    (children : n.children = earlier :: child :: after)
    (visited : t₁.visitAll [earlier] = .ok t₂) (arrives : Arrives t₂ child t' n') :
    Arrives t n t' n' :=
  @inside t t₁ t₂ t' n child n' [earlier] after entered children visited arrives

end

/-- The way to the inner function: into the declarator, past the name that it declares,
into the arrow function, and past its parameter. -/
theorem exists_arrives_innerFunction :
    ∃ t, Arrives (start "" "state") nestedFunctions t innerFunction ∧
      t.chain.frames.map Scope.Frame.heading =
        [("Program:outer", some ⟨14, 44⟩), ("Program", none)] ∧
      t.bound.lookup ⟨14, 44⟩ = some (some "outer") ∧ t.stated = [] := by
  refine ⟨_, .first rfl rfl <| .first rfl rfl <| .second rfl rfl rfl <| .second rfl rfl rfl <|
    .first rfl rfl <| .here _ _, ?_, ?_, rfl⟩ <;> decide

/-- Going through the inner function leaves the two open scopes, the note on the outer
function and the stated assignments as they are.  In the end scopes are archived from
the inside out. -/
theorem visit_keeps_scopes_nested :
    nestedFunctions.Delivered ∧
      (∃ t t', Arrives (start "" "state") nestedFunctions t innerFunction ∧
        t.visit innerFunction = .ok t' ∧
        t.chain.frames.map Scope.Frame.heading =
          [("Program:outer", some ⟨14, 44⟩), ("Program", none)] ∧
        t'.chain.frames.map Scope.Frame.heading = t.chain.frames.map Scope.Frame.heading ∧
        t'.bound.lookup ⟨14, 44⟩ = some (some "outer") ∧ t'.bound.lookup ⟨23, 42⟩ = none ∧
        ∀ span, span ∉ t'.stated) ∧
      ∃ t, (start "" "state").visit nestedFunctions = .ok t ∧ t.bound = [] ∧
        (Analysis.ofTracker t).scopes.map Scope.Frame.heading =
          [("Program:outer:inner", some ⟨23, 42⟩), ("Program:outer", some ⟨14, 44⟩),
            ("Program", none)] := by
  have delivered : nestedFunctions.Delivered := ⟨⟨rfl, by decide⟩, by decide⟩
  obtain ⟨hinner, t, hvisit, -, -, -, hbound, -, hscopes⟩ := visit_keeps_scopes delivered "" "state"
  refine ⟨delivered, ?_, t, hvisit, hbound (by decide), hscopes.trans (by decide)⟩
  obtain ⟨t, arrives, hopen, houter, hstated⟩ := exists_arrives_innerFunction
  obtain ⟨t', hvisit, ⟨frame, frame', outer, hframes, hframes', same⟩, hnotes, hstated'⟩ :=
    hinner t innerFunction arrives (by decide)
  refine ⟨t, t', arrives, hvisit, hopen, ?_, ?_, ?_, ?_⟩
  · rw [hframes, hframes', List.map_cons, List.map_cons, Scope.Frame.heading, same.name,
      same.owner]
    rfl
  · rw [hnotes, if_neg (by decide), houter]
  · rw [hnotes, if_pos (by decide)]
    decide
  · intro span h
    rw [hstated', hstated] at h
    exact List.not_mem_nil h.1

/-- `x.y = async function g();`, with a function that has no body. -/
def bodilessFunction : Node :=
  ⟨.other, .program, ⟨0, 25⟩, [
    ⟨.statement, .expressionStatement, ⟨0, 25⟩, [
      ⟨.value, .assignment, ⟨0, 25⟩, [
        ⟨.subject, .member (.property "y"), ⟨0, 3⟩, [
          ⟨.subject, .identifier "x", ⟨0, 1⟩, []⟩,
          ⟨.other, .identifier "y", ⟨2, 3⟩, []⟩]⟩,
        ⟨.value, .function .signature (some "g"), ⟨6, 25⟩, [
          ⟨.other, .identifier "g", ⟨21, 22⟩, []⟩]⟩]⟩]⟩]⟩

/-- **A function without a body keeps its note.**  It is bound to `y`, but opens
no scope. -/
theorem visit_keeps_bodiless_note :
    bodilessFunction.Delivered ∧
      ∃ t, (start "" "state").visit bodilessFunction = .ok t ∧
        t.bound.lookup ⟨6, 25⟩ = some (some "y") ∧
        (Analysis.ofTracker t).scopes.map Scope.Frame.heading = [("Program", none)] := by
  have delivered : bodilessFunction.Delivered := ⟨⟨rfl, by decide⟩, by decide⟩
  obtain ⟨t, hvisit, completes⟩ := visit_delivered delivered "" "state"
  refine ⟨delivered, t, hvisit, ?_, completes.archive.trans (by decide)⟩
  rw [completes.bound]
  decide

end Tracker
end ScopeTrack
