/-
# Syntax trees from ESTree documents

An ESTree node is a JSON object with a text `type` and two byte offsets `start`
and `end`.  Whatever members hold nodes, alone or in lists, hold its children;
objects without offsets are no nodes.  The children are put in the order in
which they start.

The expression that is the whole body of an arrow function is wrapped in an
expression statement with the same span, so that an assignment there is a
statement.
-/

import ScopeTrack.Json.Basic
import ScopeTrack.Tree.Node

namespace ScopeTrack
namespace Estree

/-- The type and the span of a node. -/
structure Heading where
  type : String
  span : Span
deriving Repr

/-- The heading among the members of an object, if the object is a node. -/
def heading? (members : List (String × Json)) : Option Heading := do
  let type ← (members.lookup "type").bind Json.text?
  let start ← (members.lookup "start").bind Json.nat?
  let stop ← (members.lookup "end").bind Json.nat?
  return ⟨type, ⟨start, stop⟩⟩

/-- The name of the identifier that a member holds. -/
def identifierName? (members : List (String × Json)) (member : String) : Option String :=
  ((members.lookup member).bind (Json.get? "name")).bind Json.text?

/-- Whether a member holds the value true. -/
def isTrue (members : List (String × Json)) (member : String) : Bool :=
  ((members.lookup member).bind Json.bool?).getD false

/-- The type of the node that a member holds. -/
def typeOf? (members : List (String × Json)) (member : String) : Option String :=
  ((members.lookup member).bind (Json.get? "type")).bind Json.text?

/-- How a member expression accesses its object. -/
def access (members : List (String × Json)) : Access :=
  if isTrue members "computed" then .computed
  else if typeOf? members "property" = some "Identifier" then
    .property ((identifierName? members "property").getD "")
  else .privateName

/-- The form of a node with the given type and members. -/
def form (type : String) (members : List (String × Json)) : Form :=
  match type with
  | "Program" => .program
  | "FunctionDeclaration" => .function .declaration (identifierName? members "id")
  | "FunctionExpression" => .function .expression (identifierName? members "id")
  | "ArrowFunctionExpression" => .function .arrow none
  | "TSDeclareFunction" => .function .signature (identifierName? members "id")
  | "TSEmptyBodyFunctionExpression" => .function .signature (identifierName? members "id")
  | "VariableDeclaration" => .variableDeclaration
  | "VariableDeclarator" => .declarator
  | "ExpressionStatement" => .expressionStatement
  | "AssignmentExpression" => .assignment
  | "Identifier" => .identifier (((members.lookup "name").bind Json.text?).getD "")
  | "MemberExpression" => .member (access members)
  | "ParenthesizedExpression" => .parenthesized
  | "ThisExpression" => .thisExpression
  | "Super" => .superExpression
  | "CallExpression" => .call
  | "ObjectPattern" => .objectPattern
  | "ArrayPattern" => .arrayPattern
  | "Property" => .property
  | "AssignmentPattern" => .defaulted
  | "RestElement" => .restElement
  | "TSParameterProperty" => .parameterProperty
  | "BlockStatement" => .statementList
  | "StaticBlock" => .statementList
  | "SwitchCase" => .statementList
  | "TSModuleBlock" => .statementList
  | _ => .other

/-- The roles of the members in which a node of the given type holds nodes. -/
def roles (type : String) : List (String × Role) :=
  match type with
  | "Program" => [("body", .statement)]
  | "FunctionDeclaration" => [("params", .parameter), ("body", .body)]
  | "FunctionExpression" => [("params", .parameter), ("body", .body)]
  | "ArrowFunctionExpression" => [("params", .parameter), ("body", .body)]
  | "TSDeclareFunction" => [("params", .parameter)]
  | "TSEmptyBodyFunctionExpression" => [("params", .parameter)]
  | "VariableDeclarator" => [("id", .subject), ("init", .value)]
  | "ExpressionStatement" => [("expression", .value)]
  | "AssignmentExpression" => [("left", .subject), ("right", .value)]
  | "MemberExpression" => [("object", .subject)]
  | "ParenthesizedExpression" => [("expression", .subject)]
  | "ObjectPattern" => [("properties", .subject)]
  | "ArrayPattern" => [("elements", .subject)]
  | "Property" => [("value", .subject)]
  | "AssignmentPattern" => [("left", .subject)]
  | "RestElement" => [("argument", .subject)]
  | "TSParameterProperty" => [("parameter", .subject)]
  | _ => []

/-- The role of the nodes in a member. -/
def role (type member : String) : Role :=
  ((roles type).lookup member).getD .other

/-- The expression as a statement of its own. -/
def asStatement (expression : Node) : Node :=
  ⟨expression.role, .expressionStatement, expression.span, [{ expression with role := .value }]⟩

/-- Nodes in the order in which they start. -/
def inOrder (nodes : List Node) : List Node :=
  nodes.mergeSort fun a b => a.span.start ≤ b.span.start

/-- The node with the given parts.  A directive, such as a strict mode marker,
is no statement. -/
def assemble (role : Role) (heading : Heading) (members : List (String × Json))
    (children : List Node) : Node :=
  let isArrowExpression := heading.type = "ArrowFunctionExpression" ∧ isTrue members "expression"
  let wrap := fun child : Node =>
    if isArrowExpression ∧ child.role = .body then asStatement child else child
  let isDirective := ((members.lookup "directive").bind Json.text?).isSome
  { role := if isDirective then .other else role
    form := form heading.type members
    span := heading.span
    children := inOrder (children.map wrap) }

mutual

/-- The nodes that a JSON value holds: itself, or those in a list. -/
def nodes (role : Role) : Json → List Node
  | .obj members =>
    match heading? members with
    | some heading => [assemble role heading members (children heading.type members)]
    | none => []
  | .arr items => nodesIn role items
  | _ => []

/-- The nodes that some JSON values hold. -/
def nodesIn (role : Role) : List Json → List Node
  | [] => []
  | item :: items => nodes role item ++ nodesIn role items

/-- The nodes that the members of a node of the given type hold. -/
def children (type : String) : List (String × Json) → List Node
  | [] => []
  | (member, value) :: members => nodes (role type member) value ++ children type members

end

/-- The syntax tree that an ESTree document holds: one node, a program. -/
def tree? (document : Json) : Option Node :=
  match nodes .other document with
  | [program] => if program.form = .program then some program else none
  | _ => none

/-- What a parser's answer says: the document of the program under `ast`, or the
complaints under `parse_errors`. -/
def parsed? (answer : Json) : Option Parsed :=
  match answer.get? "ast" with
  | some (.obj members) => (tree? (.obj members)).map .ok
  | _ => do
    let reasons ← (answer.get? "parse_errors").bind Json.items?
    return .error (← reasons.mapM Json.text?)

end Estree
end ScopeTrack
