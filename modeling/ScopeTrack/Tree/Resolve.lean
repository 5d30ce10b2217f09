/-
# What an assignment writes to

An assignment to `a.b.c` changes the object of `a`, so it counts as a change of
the variable `a`: member accesses, by whatever key, and parentheses are taken
off until an identifier is left.  Where something else is left, its label says
what it is.

| left side ends in | label |
| --- | --- |
| `this` | `ThisExpression` |
| `super` | `Super` |
| a call | `CallExpression` |
| any other expression | `Expression` |
| a pattern, as the whole left side | `DestructuringAssignment` |
| anything else, as the whole left side | `TypeAssertion` |
-/

import ScopeTrack.Tree.Node
import ScopeTrack.Tree.Target

namespace ScopeTrack
namespace Node

mutual

/-- The variable that holds the outermost object of an expression. -/
def outermost : Node → Target
  | ⟨_, form, _, children⟩ =>
    match form with
    | .identifier name => .named name
    | .member _ => outermostIn children
    | .parenthesized => outermostIn children
    | .thisExpression => .unresolved "ThisExpression"
    | .superExpression => .unresolved "Super"
    | .call => .unresolved "CallExpression"
    | _ => .unresolved "Expression"

/-- The outermost object of the first subject among some nodes. -/
def outermostIn : List Node → Target
  | [] => .unresolved "Expression"
  | n :: ns => if n.role = .subject then n.outermost else outermostIn ns

end

/-- The variable that is written when a node is the left side of an assignment. -/
def asTarget (left : Node) : Target :=
  match left.form with
  | .identifier name => .named name
  | .member _ => outermostIn left.children
  | .arrayPattern | .objectPattern => .unresolved "DestructuringAssignment"
  | _ => .unresolved "TypeAssertion"

/-- The variable that an assignment writes. -/
def target (assignment : Node) : Target :=
  match assignment.child? .subject with
  | some left => left.asTarget
  | none => .unresolved "TypeAssertion"

end Node
end ScopeTrack
