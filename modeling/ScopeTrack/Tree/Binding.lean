/-
# Names that patterns bind

A pattern binds the identifiers that are reached from it through subjects alone:
the values of properties, the entries of arrays, the left sides of defaults and
what rest elements collect.  Keys, computed keys and default values lie on other
children, so no name comes from them.  The names come in source order, one for
each identifier.
-/

import ScopeTrack.Tree.Node

namespace ScopeTrack

/-- The forms of patterns that hold other patterns. -/
def Form.isPattern : Form → Bool
  | .objectPattern | .arrayPattern | .property | .defaulted | .restElement => true
  | .parameterProperty => true
  | _ => false

namespace Node

mutual

/-- The names that a pattern binds, in source order. -/
def boundNames : Node → List String
  | ⟨_, form, _, children⟩ =>
    match form with
    | .identifier name => [name]
    | form => if form.isPattern then boundNamesIn children else []

/-- The names that the subjects among some nodes bind. -/
def boundNamesIn : List Node → List String
  | [] => []
  | n :: ns => (if n.role = .subject then n.boundNames else []) ++ boundNamesIn ns

end

/-- The parameters of a function; a first one named `this` only states a type
and is left out. -/
def parameters (n : Node) : List Node :=
  match n.children.filter fun child => child.role = .parameter with
  | [] => []
  | first :: rest => if first.form = .identifier "this" then rest else first :: rest

/-- The names that the parameters of a function bind, in source order. -/
def parameterNames (n : Node) : List String :=
  n.parameters.flatMap boundNames

end Node
end ScopeTrack
