/-
# The edges of a tree

An edge is a node together with one of its children.  `Node.edges` lists the
edges below a node, each before those below its child, so their children are the
nodes below the node in the same order (`map_child_edges`).

From an edge it can be told whether an assignment is a statement of its own, and
where it is reported if its target is not known (`Edge.reportStart`).  A statement
has nothing below it but its expression (`Node.StatementsSingle`), so what it
states is its only child (`map_statedAssignment?`), and comes before everything
else below it (`statedIn_append_unstatedIn`).
-/

import ScopeTrack.Proofs.Tree.Nodes
import ScopeTrack.Source.LineIndex
import ScopeTrack.Track.Diagnostic

namespace ScopeTrack

/-- A node and one of its children. -/
structure Edge where
  parent : Node
  child : Node
deriving Repr

namespace Node

mutual

/-- The edges below a node, each before those below its child. -/
def edges : Node → List Edge
  | n@⟨_, _, _, children⟩ => edgesIn n children

/-- The edges to some children of a node and below them. -/
def edgesIn (parent : Node) : List Node → List Edge
  | [] => []
  | n :: ns => ⟨parent, n⟩ :: (n.edges ++ edgesIn parent ns)

end

theorem edges_eq (n : Node) : n.edges = edgesIn n n.children := by
  cases n
  rw [edges]

/-- The children of the edges to some nodes and below them, if it is so for each of
them. -/
theorem map_child_edgesIn_of (ns : List Node)
    (ih : ∀ n ∈ ns, n.edges.map Edge.child = nodesIn n.children) (parent : Node) :
    (edgesIn parent ns).map Edge.child = nodesIn ns := by
  induction ns with
  | nil => rfl
  | cons n ns ihs =>
      rw [edgesIn, nodesIn, nodes_eq, List.map_cons, List.map_append, ih n List.mem_cons_self,
        ihs fun m hm => ih m (List.mem_cons_of_mem _ hm)]
      rfl

/-- The children of the edges below a node are the nodes below it. -/
theorem map_child_edges (n : Node) : n.edges.map Edge.child = nodesIn n.children := by
  induction n using Node.induction with
  | node role form span children ih =>
      rw [edges_eq]
      exact map_child_edgesIn_of children ih _

/-- Statements among some nodes have nothing below them but their expression. -/
def StatementsSingle (ns : List Node) : Prop :=
  ∀ m ∈ ns, m.form = .expressionStatement → m.children.length ≤ 1

end Node

namespace Edge

/-- Whether the child is the expression of a statement. -/
def isExpression (e : Edge) : Bool :=
  e.parent.form = .expressionStatement && e.child.role = .value

/-- Whether the child is an assignment that is a statement. -/
def isStated (e : Edge) : Bool :=
  e.isExpression && e.child.form = .assignment

/-- Whether the child is an assignment to no variable that is known. -/
def isUnresolved (e : Edge) : Bool :=
  e.child.form = .assignment && !e.child.target.isResolved

/-- Where the child is reported: at the start of the statement that it is the
expression of, and else at its own start. -/
def reportStart (e : Edge) : Nat :=
  if e.isExpression then e.parent.span.start else e.child.span.start

/-- What is reported of an assignment whose target is not known. -/
def diagnostic (lines : LineIndex) (e : Edge) : Diagnostic :=
  ⟨.unresolvedTarget, lines.location e.reportStart,
    Diagnostic.unresolvedTargetMessage e.child.target⟩

/-- What is reported of the assignments among some edges. -/
def reports (lines : LineIndex) (edges : List Edge) : List Diagnostic :=
  (edges.filter isUnresolved).map (diagnostic lines)

theorem reports_append (lines : LineIndex) (edges others : List Edge) :
    reports lines (edges ++ others) = reports lines edges ++ reports lines others := by
  simp [reports]

theorem isStated_eq_false {e : Edge} (h : e.child.form ≠ .assignment) : e.isStated = false := by
  simp [isStated, h]

theorem isUnresolved_eq_false {e : Edge} (h : e.child.form ≠ .assignment) :
    e.isUnresolved = false := by
  simp [isUnresolved, h]

/-! ## Stated assignments -/

/-- The edge, if its child is stated. -/
def stated (e : Edge) : List Edge :=
  if e.isStated then [e] else []

/-- The edge, if its child is not stated. -/
def unstated (e : Edge) : List Edge :=
  if e.isStated then [] else [e]

/-- The edges to those of the children that a node states. -/
def statedIn (n : Node) (children : List Node) : List Edge :=
  children.flatMap fun child => stated ⟨n, child⟩

/-- The edges to the children that a node does not state, and those below all of
its children. -/
def unstatedIn (n : Node) (children : List Node) : List Edge :=
  children.flatMap fun child => unstated ⟨n, child⟩ ++ child.edges

theorem stated_eq_nil {e : Edge} (h : e.isStated = false) : e.stated = [] := by
  simp [stated, h]

/-- Nodes other than expression statements state nothing. -/
theorem isStated_of_not_statement {n : Node} (h : n.form ≠ .expressionStatement) (child : Node) :
    isStated ⟨n, child⟩ = false := by
  simp [isStated, isExpression, h]

/-- Below what is no statement, no child is stated. -/
theorem statedIn_of_not_statement {n : Node} (h : n.form ≠ .expressionStatement)
    (children : List Node) : statedIn n children = [] := by
  apply List.flatMap_eq_nil_iff.2
  intro child _
  exact stated_eq_nil (isStated_of_not_statement h child)

/-- **What a statement states is its only child.**  -/
theorem map_statedAssignment? {n : Node}
    (single : n.form = .expressionStatement → n.children.length ≤ 1) :
    n.statedAssignment?.toList.map (Edge.mk n) = statedIn n n.children := by
  by_cases hform : n.form = .expressionStatement
  · have hlength := single hform
    rw [Node.statedAssignment?, if_pos hform, Node.child?, statedIn]
    rcases hchildren : n.children with _ | ⟨child, _ | ⟨_, _⟩⟩
    · rfl
    · by_cases hrole : child.role = .value <;> by_cases ha : child.form = .assignment <;>
        simp [stated, isStated, isExpression, hform, hrole, ha, Option.filter]
    · rw [hchildren] at hlength
      simp at hlength
  · rw [Node.statedAssignment?_eq_none hform, statedIn_of_not_statement hform]
    rfl

/-- **What a node states comes first among the edges below it**, as a statement
has one child only. -/
theorem statedIn_append_unstatedIn {n : Node} {children : List Node}
    (single : n.form = .expressionStatement → children.length ≤ 1) :
    statedIn n children ++ unstatedIn n children = Node.edgesIn n children := by
  by_cases hform : n.form = .expressionStatement
  · have hlength := single hform
    rcases children with _ | ⟨child, _ | ⟨_, _⟩⟩
    · rfl
    · cases h : isStated ⟨n, child⟩ <;>
        simp [statedIn, unstatedIn, stated, unstated, Node.edgesIn, h]
    · simp at hlength
  · rw [statedIn_of_not_statement hform, List.nil_append]
    clear single
    induction children with
    | nil => rfl
    | cons child children ih =>
        rw [unstatedIn, List.flatMap_cons, ← unstatedIn, ih, Node.edgesIn, unstated,
          isStated_of_not_statement hform]
        rfl

end Edge
end ScopeTrack
