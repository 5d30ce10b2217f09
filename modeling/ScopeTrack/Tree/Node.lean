/-
# Syntax trees

A node has a form, a span, and children in source order.  The forms tell apart
only what the analysis looks at; every other construct is `Form.other`, with its
children kept, so that whatever is nested in it is still found.

Which child is which is said by the child itself, in its role.  The role
`subject` marks the part through which a node reaches a variable:

| node | its subject |
| --- | --- |
| declarator, assignment, default | the left side |
| object and array pattern | each entry |
| property | the value |
| rest element, parameter property | what is bound |
| member access | the object |
| parentheses | what they enclose |
-/

import ScopeTrack.Source.Span

namespace ScopeTrack

/-- The part that a node plays in the node around it. -/
inductive Role where
  /-- One of the statements of a program. -/
  | statement
  /-- A parameter of a function. -/
  | parameter
  /-- The part through which the node around it reaches a variable. -/
  | subject
  /-- The initializer of a declarator, the right side of an assignment, or the
  expression of a statement. -/
  | value
  /-- The body of a function. -/
  | body
  | other
deriving DecidableEq, Repr, Inhabited

/-- How a member of an object is accessed. -/
inductive Access where
  /-- By a plain name, after a dot. -/
  | property (name : String)
  /-- By an expression in brackets. -/
  | computed
  /-- By a private name. -/
  | privateName
deriving DecidableEq, Repr

/-- How a function is written. -/
inductive FunctionForm where
  | declaration
  | expression
  | arrow
  /-- Without a body: an overload, an abstract method or an ambient declaration. -/
  | signature
deriving DecidableEq, Repr

/-- The forms of nodes that the analysis tells apart. -/
inductive Form where
  | program
  /-- A function, with the name that it gives itself. -/
  | function (form : FunctionForm) (name : Option String)
  | variableDeclaration
  /-- One `name = value` of a variable declaration. -/
  | declarator
  | expressionStatement
  | assignment
  | identifier (name : String)
  | member (access : Access)
  | parenthesized
  | thisExpression
  | superExpression
  | call
  | objectPattern
  | arrayPattern
  | property
  /-- A pattern with a default value. -/
  | defaulted
  | restElement
  /-- A constructor's parameter that is a member of the class too. -/
  | parameterProperty
  /-- A block, a static block, a module block or a case of a switch: a place
  where statements follow one another. -/
  | statementList
  | other
deriving DecidableEq, Repr, Inhabited

/-- A node of a syntax tree. -/
structure Node where
  role : Role
  form : Form
  span : Span
  /-- The child nodes in the order in which they start. -/
  children : List Node
deriving Repr, Inhabited

namespace Node

/-- **Induction over syntax trees.**  What holds of a node as soon as it holds of
its children holds of every node. -/
theorem induction {motive : Node → Prop}
    (node : ∀ role form span children, (∀ child ∈ children, motive child) →
      motive ⟨role, form, span, children⟩) (n : Node) : motive n :=
  @Node.rec motive (fun children => ∀ child ∈ children, motive child) node (by simp)
    (fun _ _ head tail => by simpa using ⟨head, tail⟩) n

/-- The first child with a role. -/
def child? (n : Node) (role : Role) : Option Node :=
  n.children.find? fun child => child.role = role

/-- The first statement of a program. -/
def firstStatement? (n : Node) : Option Node :=
  n.child? .statement

/-- The declarators of a variable declaration. -/
def declarators (n : Node) : List Node :=
  n.children.filter fun child => child.form = .declarator

end Node

/-- What the parser made of a source text: the program, or its complaints. -/
abbrev Parsed := Except (List String) Node

end ScopeTrack
