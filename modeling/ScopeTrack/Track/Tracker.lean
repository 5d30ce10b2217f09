/-
# The state of a traversal

The tracker goes through a tree, from node to node: it enters each node before
the node's children and leaves it after them.  Entering opens the scopes of
functions, registers variables and collects update sites; leaving closes the
scope that the same function has opened.

| shape entered | effect |
| --- | --- |
| function declaration | opens its scope |
| function expression, arrow | opens its scope if it is bound |
| declarator | declares and registers its names, records a site for each if initialized |
| assignment statement | records a site |
| assignment | registers its target |

A declarator or an assignment statement that binds a function leaves a note of
the function's span in `bound`, which the function finds when it is entered and
takes away when it is left; a function without a body is never entered, and its
note stays.  An assignment statement notes its assignment in
`stated`, so that an unresolved target is reported once, at the statement.
-/

import ScopeTrack.Scope.Chain
import ScopeTrack.Source.LineIndex
import ScopeTrack.Track.Diagnostic
import ScopeTrack.Track.Log
import ScopeTrack.Track.UpdateSite
import ScopeTrack.Tree.Shape

namespace ScopeTrack

/-- What a traversal knows between two steps. -/
structure Tracker where
  lines : LineIndex
  /-- The name of the tracking table in the program. -/
  tableName : String
  chain : Scope.Chain := Scope.Chain.new
  table : Table := Table.empty
  sites : List UpdateSite := []
  diagnostics : List Diagnostic := []
  /-- The functions that are bound and not yet left, with the names that their
  bindings give them. -/
  bound : List (Span × Option String) := []
  /-- The assignments whose statements have been entered, and they not yet. -/
  stated : List Span := []
  log : List Record := []
deriving Repr

namespace Tracker

/-- The tracker before a traversal of a program with the given source text. -/
def start (source tableName : String) : Tracker :=
  { lines := LineIndex.ofText source, tableName := tableName }

/-- Adds a record to the log. -/
def note (t : Tracker) (level : Level) (message : String) : Tracker :=
  { t with log := t.log ++ [⟨level, message⟩] }

/-- Adds a diagnostic at the start of a span. -/
def report (t : Tracker) (kind : DiagnosticKind) (span : Span) (message : String) : Tracker :=
  let diagnostic : Diagnostic := ⟨kind, t.lines.location span.start, message⟩
  { t.note .warn diagnostic.text with diagnostics := t.diagnostics ++ [diagnostic] }

/-- Takes over a table in which the given keys are new. -/
def setTable (t : Tracker) (added : List String) (table : Table) : Tracker :=
  { t with
    table := table
    log := t.log ++ added.map fun key => ⟨.debug, "registered " ++ key⟩ }

/-- Records the site of a change of `target` in `scope` at the end of a span. -/
def recordSite (t : Tracker) (span : Span) (scope : String) (target : Target) : Tracker :=
  let location := t.lines.location span.stop
  let site := UpdateSite.make t.tableName location t.sites.length scope target
  { t.note .debug ("update site at " ++ location.key ++ ": " ++ site.patch) with
    sites := UpdateSite.record t.tableName t.sites location scope target }

/-- Notes the function that a node binds. -/
def noteBound (t : Tracker) : Option BoundFunction → Tracker
  | some ⟨span, binding⟩ =>
    { t with bound := (span, binding) :: t.bound.filter fun entry => entry.1 ≠ span }
  | none => t

/-- The given name, or the anonymous one, which is reported. -/
def nameOrAnonymous (t : Tracker) (span : Span) : Option String → String × Tracker
  | some name => (name, t)
  | none => (anonymousName, t.report .anonymousScope span Diagnostic.anonymousScopeMessage)

/-- Opens the scope of the function at `span` and registers its parameters. -/
def openScope (t : Tracker) (span : Span) (name : Option String) (parameters : List String) :
    Except Error Tracker := do
  let (name, t) := t.nameOrAnonymous span name
  let chain ← t.chain.enter name span
  let frame ← chain.current
  let (added, table) := t.table.registerParameters frame.name parameters
  let t := { t with chain := chain }.setTable added table
  return t.note .debug ("enter: new scope created: " ++ frame.name)

/-- Enters a function.  Expressions and arrows open a scope only if they are
bound, under the name of the binding. -/
def enterFunction (t : Tracker) (span : Span) (form : FunctionForm) (name : Option String)
    (parameters : List String) : Except Error Tracker :=
  match form, t.bound.lookup span with
  | .declaration, _ => t.openScope span name parameters
  | .expression, some binding =>
    let t :=
      if name.isNone then
        t.report .notDeanonymized span (Diagnostic.notDeanonymizedMessage binding)
      else t
    t.openScope span binding parameters
  | .arrow, some binding => t.openScope span binding parameters
  | _, _ => .ok t

/-- Enters a declarator.  Its names are declared and registered in any case, but they
change only where it is a mutation. -/
def enterDeclarator (t : Tracker) (span : Span) (names : List String) (isMutation : Bool)
    (bound : Option BoundFunction) : Except Error Tracker := do
  let frame ← t.chain.current
  let (added, table, declared) := t.table.registerDeclarator frame names
  let chain ← t.chain.setCurrent declared
  let t := { t with chain := chain }.setTable added table
  let t :=
    if isMutation then names.foldl (fun t name => t.recordSite span frame.name (.named name)) t
    else t
  return t.noteBound bound

/-- Enters a statement that is an assignment. -/
def enterStatement (t : Tracker) (span assignment : Span) (target : Target)
    (bound : Option BoundFunction) : Except Error Tracker := do
  let t := { t with stated := assignment :: t.stated.filter fun other => other ≠ assignment }
  let t :=
    if target.isResolved then t
    else t.report .unresolvedTarget span (Diagnostic.unresolvedTargetMessage target)
  let frame ← t.chain.current
  return (t.recordSite span frame.name target).noteBound bound

/-- Enters an assignment. -/
def enterAssignment (t : Tracker) (span : Span) (target : Target) : Except Error Tracker := do
  let frame ← t.chain.current
  let (added, table) := t.table.registerAssignment frame.name target
  let isStated := t.stated.contains span
  let t := { t with stated := t.stated.filter fun other => other ≠ span }.setTable added table
  if target.isResolved ∨ isStated then
    return t
  else
    return t.report .unresolvedTarget span (Diagnostic.unresolvedTargetMessage target)

/-- Enters a node of the given span and shape. -/
def enter (t : Tracker) (span : Span) : Shape → Except Error Tracker
  | .program => do
    let frame ← t.chain.current
    return t.note .debug ("enter: curr scope: " ++ frame.name)
  | .function form name parameters => t.enterFunction span form name parameters
  | shape@(.declarator names _ _) => t.enterDeclarator span names shape.isMutation shape.bound?
  | shape@(.assignmentStatement assignment target _) =>
    t.enterStatement span assignment target shape.bound?
  | .assignment target => t.enterAssignment span target

/-- Takes over a chain in which the given scope has been closed. -/
def setClosed (t : Tracker) (closed : Option (Scope.Frame × Scope.Chain)) : Tracker :=
  match closed with
  | some (frame, chain) =>
    { t with chain := chain }.note .debug ("printScope: " ++ frame.summary)
  | none => t

/-- Leaves a node of the given span and shape. -/
def leave (t : Tracker) (span : Span) : Shape → Tracker
  | .program => t.setClosed t.chain.closeGlobal?
  | .function _ _ _ =>
    let t := { t with bound := t.bound.filter fun entry => entry.1 ≠ span }
    t.setClosed (t.chain.leave? span)
  | _ => t

mutual

/-- Goes through a tree. -/
def visit (t : Tracker) : Node → Except Error Tracker
  | n@⟨_, _, span, children⟩ =>
    match n.shape? with
    | some shape => do
      let t ← t.enter span shape
      let t ← t.visitAll children
      return t.leave span shape
    | none => t.visitAll children

/-- Goes through some trees in order. -/
def visitAll (t : Tracker) : List Node → Except Error Tracker
  | [] => .ok t
  | n :: ns => do
    let t ← t.visit n
    t.visitAll ns

end

end Tracker
end ScopeTrack
