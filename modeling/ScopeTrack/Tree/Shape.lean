/-
# Shapes

The shape of a node is all that the analysis sees of it: of a function its
parameters, of a declarator the names it binds, of an assignment its target.
Nodes without a shape are passed over; their children are not.

A declarator or an assignment statement whose right side is a function, in any
number of parentheses, binds that function.  The binding gives it the declared
name, the assigned name, or the name of the assigned property; other patterns
and targets give none.  A function without a body is bound too, though it has no
shape of its own.
-/

import ScopeTrack.Tree.Binding
import ScopeTrack.Tree.Resolve

namespace ScopeTrack

/-- A function that is bound where it is written. -/
structure BoundFunction where
  span : Span
  /-- The name that the binding gives to the function. -/
  binding : Option String
deriving DecidableEq, Repr

/-- What the analysis sees of a node. -/
inductive Shape where
  | program
  /-- A function, the name that it gives itself, and the names of its parameters. -/
  | function (form : FunctionForm) (name : Option String) (parameters : List String)
  /-- A declarator: the names it binds, and whether it has an initializer. -/
  | declarator (names : List String) (initialized : Bool) (bound : Option BoundFunction)
  /-- A statement that is an assignment, which has the given span. -/
  | assignmentStatement (assignment : Span) (target : Target) (bound : Option BoundFunction)
  /-- An assignment, whether it is a statement or not. -/
  | assignment (target : Target)
deriving DecidableEq, Repr

namespace Shape

/-- Whether a variable changes at nodes of this shape. -/
def isMutation : Shape → Bool
  | declarator _ initialized _ => initialized
  | assignmentStatement _ _ _ => true
  | _ => false

/-- The function that nodes of this shape bind. -/
def bound? : Shape → Option BoundFunction
  | declarator _ _ bound => bound
  | assignmentStatement _ _ bound => bound
  | _ => none

end Shape

namespace Node

mutual

/-- The span of the function that an expression is, parentheses aside. -/
def functionSpan? : Node → Option Span
  | ⟨_, form, span, children⟩ =>
    match form with
    | .function _ _ => some span
    | .parenthesized => functionSpanIn? children
    | _ => none

/-- The span of the function that the first subject among some nodes is. -/
def functionSpanIn? : List Node → Option Span
  | [] => none
  | n :: ns => if n.role = .subject then n.functionSpan? else functionSpanIn? ns

end

/-- The name that a declared pattern gives to a function. -/
def declaredName? (pattern : Node) : Option String :=
  match pattern.form with
  | .identifier name => some name
  | _ => none

/-- The name that the left side of an assignment gives to a function. -/
def assignedName? (left : Node) : Option String :=
  match left.form with
  | .identifier name => some name
  | .member (.property name) => some name
  | _ => none

/-- The function that a declarator or an assignment binds, with the name that
its left side gives. -/
def boundFunction? (n : Node) (nameOf? : Node → Option String) : Option BoundFunction := do
  let value ← n.child? .value
  let span ← value.functionSpan?
  return ⟨span, (n.child? .subject).bind nameOf?⟩

/-- The names that a declarator binds. -/
def declaredNames (declarator : Node) : List String :=
  ((declarator.child? .subject).map boundNames).getD []

/-- The assignment that a statement is. -/
def statedAssignment? (statement : Node) : Option Node :=
  if statement.form = .expressionStatement then
    (statement.child? .value).filter fun value => value.form = .assignment
  else
    none

/-- What the analysis sees of a node; `none` if it passes the node over. -/
def shape? (n : Node) : Option Shape :=
  match n.form with
  | .program => some .program
  | .function .signature _ => none
  | .function form name => some (.function form name n.parameterNames)
  | .declarator =>
    some (.declarator n.declaredNames (n.child? .value).isSome (n.boundFunction? declaredName?))
  | .expressionStatement =>
    n.statedAssignment?.map fun assignment =>
      .assignmentStatement assignment.span assignment.target
        (assignment.boundFunction? assignedName?)
  | .assignment => some (.assignment n.target)
  | _ => none

mutual

/-- The nodes with a shape, with their spans, in the order in which they start. -/
def shapes : Node → List (Span × Shape)
  | n@⟨_, _, span, children⟩ =>
    (n.shape?.toList.map fun shape => (span, shape)) ++ shapesIn children

/-- The nodes with a shape in some trees. -/
def shapesIn : List Node → List (Span × Shape)
  | [] => []
  | n :: ns => n.shapes ++ shapesIn ns

end

end Node
end ScopeTrack
