/-
# The nodes of a tree

`Node.nodes` lists a tree from its root on, each node before its children.  What
a whole tree must satisfy is said of this list: a program has the form of a
program at its root and nowhere else (`Node.IsProgram`), and in a tree that a
parser delivers no two functions have the same span (`Node.Delivered`).
-/

import ScopeTrack.Tree.Shape

namespace ScopeTrack

/-- Whether nodes of this form are functions, with or without a body. -/
def Form.isFunction : Form → Bool
  | .function _ _ => true
  | _ => false

/-- Whether nodes of this form are functions with a body. -/
def Form.hasBody : Form → Bool
  | .function .signature _ => false
  | .function _ _ => true
  | _ => false

/-- Whether variables may change where nodes of this form end. -/
def Form.isChanging : Form → Bool
  | .declarator => true
  | .expressionStatement => true
  | _ => false

theorem Form.isFunction_of_hasBody {form : Form} (h : form.hasBody = true) :
    form.isFunction = true := by
  cases form <;> simp_all [hasBody, isFunction]

namespace Node

mutual

/-- The nodes of a tree, each before its children. -/
def nodes : Node → List Node
  | n@⟨_, _, _, children⟩ => n :: nodesIn children

/-- The nodes of some trees in order. -/
def nodesIn : List Node → List Node
  | [] => []
  | n :: ns => n.nodes ++ nodesIn ns

end

/-- A tree is its root and what is below it. -/
theorem nodes_eq (n : Node) : n.nodes = n :: nodesIn n.children := by
  cases n
  rw [nodes]

theorem mem_nodes_self (n : Node) : n ∈ n.nodes := by
  rw [nodes_eq]
  exact List.mem_cons_self

/-- What is in some trees is in one of them. -/
theorem mem_nodesIn {m : Node} {ns : List Node} :
    m ∈ nodesIn ns ↔ ∃ n ∈ ns, m ∈ n.nodes := by
  induction ns with
  | nil => simp [nodesIn]
  | cons n ns ih => simp [nodesIn, ih]

theorem mem_nodes_of_below {n m : Node} (h : m ∈ nodesIn n.children) : m ∈ n.nodes := by
  rw [nodes_eq]
  exact List.mem_cons_of_mem _ h

/-- The spans of the functions in some nodes. -/
def spansOfFunctions (ns : List Node) : List Span :=
  (ns.filter fun n => n.form.isFunction).map Node.span

/-- The spans of the assignments in some nodes. -/
def spansOfAssignments (ns : List Node) : List Span :=
  (ns.filter fun n => n.form = .assignment).map Node.span

/-- The spans of the functions of a tree. -/
def functionSpans (n : Node) : List Span :=
  spansOfFunctions n.nodes

/-- The spans of the assignments of a tree. -/
def assignmentSpans (n : Node) : List Span :=
  spansOfAssignments n.nodes

theorem spansOfFunctions_append (ms ns : List Node) :
    spansOfFunctions (ms ++ ns) = spansOfFunctions ms ++ spansOfFunctions ns := by
  simp [spansOfFunctions]

theorem spansOfAssignments_append (ms ns : List Node) :
    spansOfAssignments (ms ++ ns) = spansOfAssignments ms ++ spansOfAssignments ns := by
  simp [spansOfAssignments]

/-- The functions of a tree are its root, if it is one, and those below it. -/
theorem functionSpans_eq (n : Node) :
    n.functionSpans =
      (if n.form.isFunction then [n.span] else []) ++ spansOfFunctions (nodesIn n.children) := by
  rw [functionSpans, nodes_eq]
  cases h : n.form.isFunction <;> simp [spansOfFunctions, h]

theorem span_mem_functionSpans {n : Node} (h : n.form.isFunction = true) :
    n.span ∈ n.functionSpans := by
  rw [functionSpans_eq, if_pos h]
  exact List.mem_append_left _ List.mem_cons_self

theorem assignmentSpans_eq (n : Node) :
    n.assignmentSpans =
      (if n.form = .assignment then [n.span] else []) ++
        spansOfAssignments (nodesIn n.children) := by
  rw [assignmentSpans, nodes_eq]
  by_cases h : n.form = .assignment <;> simp [spansOfAssignments, h]

/-- What a node has in a role is one of its children. -/
theorem mem_children_of_child? {n child : Node} {role : Role} (h : n.child? role = some child) :
    child ∈ n.children :=
  List.mem_of_find?_eq_some h

/-- Only expression statements state an assignment. -/
theorem statedAssignment?_eq_none {n : Node} (h : n.form ≠ .expressionStatement) :
    n.statedAssignment? = none := by
  rw [statedAssignment?, if_neg h]

/-- What a statement states is an assignment right below it. -/
theorem statedAssignment?_eq_some {n assignment : Node}
    (h : n.statedAssignment? = some assignment) :
    assignment ∈ n.children ∧ assignment.form = .assignment := by
  unfold statedAssignment? at h
  split at h
  · obtain ⟨hc, ha⟩ := Option.filter_eq_some_iff.1 h
    exact ⟨mem_children_of_child? hc, by simpa using ha⟩
  · cases h

/-- What is stated is the expression of a statement. -/
theorem isExpression_of_stated {n assignment : Node} (h : n.statedAssignment? = some assignment) :
    n.form = .expressionStatement ∧ assignment.role = .value := by
  unfold statedAssignment? at h
  split at h
  · next hform =>
      obtain ⟨hc, -⟩ := Option.filter_eq_some_iff.1 h
      exact ⟨hform, by simpa using List.find?_some hc⟩
  · cases h

/-- The assignment that a statement is stands below it. -/
theorem mem_spansOfAssignments_of_stated {n assignment : Node}
    (h : n.statedAssignment? = some assignment) :
    assignment.span ∈ spansOfAssignments (nodesIn n.children) := by
  obtain ⟨hc, ha⟩ := statedAssignment?_eq_some h
  have hmem : assignment ∈ nodesIn n.children :=
    mem_nodesIn.2 ⟨assignment, hc, mem_nodes_self assignment⟩
  exact List.mem_map.2 ⟨assignment, List.mem_filter.2 ⟨hmem, by simpa using ha⟩, rfl⟩

/-- A program: its root, and only its root, has the form of one. -/
structure IsProgram (n : Node) : Prop where
  form : n.form = .program
  single : ∀ m ∈ nodesIn n.children, m.form ≠ .program

/-- A program as a parser delivers it: its functions are told apart by their
spans. -/
structure Delivered (n : Node) : Prop extends IsProgram n where
  distinct : n.functionSpans.Nodup

end Node
end ScopeTrack
