/-
# Where names come from

Every name that the analysis takes from a tree is that of an identifier in the
tree: the names that a pattern binds (`exists_identifier_of_mem_boundNames`) and
the variable that an assignment writes to (`target_from`).  A target without a
variable has one of a few fixed labels.  So whatever holds of all identifiers of
a program and of these labels holds of the targets of all changes
(`Spot.changes_from`).
-/

import ScopeTrack.Proofs.Tree.Spot

namespace ScopeTrack

namespace Target

/-- The labels of targets without a variable. -/
def labels : List String :=
  ["ThisExpression", "Super", "CallExpression", "Expression", "DestructuringAssignment",
    "TypeAssertion"]

/-- A target names an identifier among some nodes, or has one of the labels. -/
def From (ns : List Node) : Target → Prop
  | .named name => ∃ m ∈ ns, m.form = .identifier name
  | .unresolved label => label ∈ labels

theorem from_label {ns : List Node} {label : String} (h : label ∈ labels) :
    (unresolved label).From ns :=
  h

/-- In more nodes there are more identifiers. -/
theorem From.mono {ns ms : List Node} {target : Target} (h : target.From ns)
    (hsub : ∀ m ∈ ns, m ∈ ms) : target.From ms := by
  cases target with
  | unresolved label => exact h
  | named name =>
      obtain ⟨m, hm, hform⟩ := h
      exact ⟨m, hsub m hm, hform⟩

end Target

namespace Node

theorem mem_nodes_of_child {n child m : Node} (hchild : child ∈ n.children) (h : m ∈ child.nodes) :
    m ∈ n.nodes :=
  mem_nodes_of_below (mem_nodesIn.2 ⟨child, hchild, h⟩)

/-- The nodes of a part are nodes of the whole. -/
theorem mem_nodes_trans {n m k : Node} (hm : m ∈ n.nodes) (hk : k ∈ m.nodes) : k ∈ n.nodes := by
  induction n using Node.induction with
  | node role form span children ih =>
      rw [nodes_eq, List.mem_cons] at hm
      rcases hm with rfl | hm
      · exact hk
      · obtain ⟨child, hchild, hmem⟩ := mem_nodesIn.1 hm
        exact mem_nodes_of_child hchild (ih child hchild hmem)

/-- A name that some trees bind is bound by one of them. -/
theorem mem_boundNamesIn {name : String} {ns : List Node} (h : name ∈ boundNamesIn ns) :
    ∃ n ∈ ns, name ∈ n.boundNames := by
  induction ns with
  | nil => cases h
  | cons n ns ih =>
      rw [boundNamesIn, List.mem_append] at h
      rcases h with h | h
      · split at h
        · exact ⟨n, List.mem_cons_self, h⟩
        · cases h
      · obtain ⟨m, hm, hname⟩ := ih h
        exact ⟨m, List.mem_cons_of_mem _ hm, hname⟩

/-- The names that a pattern binds are those of identifiers in it. -/
theorem exists_identifier_of_mem_boundNames {n : Node} {name : String} (h : name ∈ n.boundNames) :
    ∃ m ∈ n.nodes, m.form = .identifier name := by
  induction n using Node.induction with
  | node role form span children ih =>
      unfold boundNames at h
      split at h
      · rw [List.mem_singleton] at h
        subst h
        exact ⟨_, mem_nodes_self _, rfl⟩
      · split at h
        · obtain ⟨child, hchild, hname⟩ := mem_boundNamesIn h
          obtain ⟨m, hm, hform⟩ := ih child hchild hname
          exact ⟨m, mem_nodes_of_child hchild hm, hform⟩
        · cases h

/-- The outermost object among some trees, if it is as told for each of them.  What is
looked for is the first subject, and a tree without one has a label. -/
theorem outermostIn_from {ns : List Node} (ih : ∀ n ∈ ns, n.outermost.From n.nodes) :
    (outermostIn ns).From (nodesIn ns) := by
  induction ns with
  | nil => exact Target.from_label (by decide)
  | cons n ns ihs =>
      rw [outermostIn, nodesIn]
      split
      · exact (ih n List.mem_cons_self).mono fun m hm => List.mem_append_left _ hm
      · exact (ihs fun m hm => ih m (List.mem_cons_of_mem _ hm)).mono
          fun m hm => List.mem_append_right _ hm

/-- The outermost object of an expression is an identifier in it, or has a
label. -/
theorem outermost_from (n : Node) : n.outermost.From n.nodes := by
  induction n using Node.induction with
  | node role form span children ih =>
      have hbelow : (outermostIn children).From (nodes ⟨role, form, span, children⟩) := by
        rw [nodes_eq]
        exact (outermostIn_from ih).mono fun m hm => List.mem_cons_of_mem _ hm
      unfold outermost
      split
      · exact ⟨_, mem_nodes_self _, rfl⟩
      · exact hbelow
      · exact hbelow
      · exact Target.from_label (by decide)
      · exact Target.from_label (by decide)
      · exact Target.from_label (by decide)
      · exact Target.from_label (by decide)

/-- **The left side of an assignment** gives an identifier in it, or a label.  An
identifier is its own target, a member access goes to its outermost object, and all else
has a label of its own. -/
theorem asTarget_from (left : Node) : left.asTarget.From left.nodes := by
  unfold asTarget
  split
  · next name hform => exact ⟨left, mem_nodes_self left, hform⟩
  · rw [nodes_eq]
    exact (outermostIn_from fun n _ => outermost_from n).mono
      fun m hm => List.mem_cons_of_mem _ hm
  · exact Target.from_label (by decide)
  · exact Target.from_label (by decide)
  · exact Target.from_label (by decide)

/-- **The target of an assignment** is an identifier in it, or has a label. -/
theorem target_from (assignment : Node) : assignment.target.From assignment.nodes := by
  unfold target
  split
  · next left hleft =>
      exact (asTarget_from left).mono
        fun m hm => mem_nodes_of_child (mem_children_of_child? hleft) hm
  · exact Target.from_label (by decide)

end Node

/-- **The targets of the changes at a spot** are identifiers in its node, or have
a label. -/
theorem Spot.changes_from (q : Spot) : ∀ change ∈ q.changes, change.target.From q.node.nodes := by
  intro change hchange
  unfold changes at hchange
  split at hchange
  · split at hchange
    · obtain ⟨name, hname, rfl⟩ := List.mem_map.1 hchange
      unfold Node.declaredNames at hname
      cases hsubject : q.node.child? .subject with
      | none =>
          rw [hsubject] at hname
          cases hname
      | some subject =>
          rw [hsubject] at hname
          obtain ⟨m, hm, hform⟩ := Node.exists_identifier_of_mem_boundNames hname
          exact ⟨m, Node.mem_nodes_of_child (Node.mem_children_of_child? hsubject) hm, hform⟩
    · cases hchange
  · obtain ⟨assignment, hassignment, rfl⟩ := List.mem_map.1 hchange
    obtain ⟨hchild, -⟩ := Node.statedAssignment?_eq_some (Option.mem_toList.1 hassignment)
    exact (Node.target_from assignment).mono fun m hm => Node.mem_nodes_of_child hchild hm
  · cases hchange

end ScopeTrack
