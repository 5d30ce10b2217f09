/-
# Notes on bound functions

A function expression is entered long after the declarator or the statement that
binds it, so what the binding says has to be noted.  `Node.notesAt` is what is to
be known when a tree is entered that has a given standing: of a tree that is
bound, the function that it is, parentheses aside; of an assignment that is
stated, the function on its right side.  Nodes pass these notes on: what the
children of a node have is what the node adds when it is entered, and else what
it has itself (`lookup_notesIn_handed`).

A note is always on a function of the tree (`mem_functionSpans_of_note`), so the
notes for trees with different functions do not meet.
-/

import ScopeTrack.Proofs.Tree.Spot

namespace ScopeTrack
namespace Node

/-- A bound function as a note. -/
def noteOf (bound : BoundFunction) : Span × Option String :=
  (bound.span, bound.binding)

/-- The notes on the functions of a tree with the given standing. -/
def notesAt (standing : Standing) (n : Node) : List (Span × Option String) :=
  match standing with
  | .bound name => n.functionSpan?.toList.map fun span => (span, name)
  | .stated =>
    if n.form = .assignment then (n.boundFunction? assignedName?).toList.map noteOf else []
  | .plain => []

/-- The notes on the functions of some trees. -/
def notesIn : Handed → List Node → List (Span × Option String)
  | _, [] => []
  | handed, n :: ns => n.notesAt (handed.standingOf n) ++ notesIn (handed.after n) ns

theorem notesIn_none (ns : List Node) : notesIn none ns = [] := by
  induction ns with
  | nil => rfl
  | cons n ns ih => simp [notesIn, Handed.standingOf, Handed.after, notesAt, ih]

/-- What is handed on to a role reaches the first child of that role, and no other.  The
induction goes along the children: until one of the role comes nothing is taken, and
after it nothing is left. -/
theorem notesIn_some (role : Role) (standing : Standing) (ns : List Node) :
    notesIn (some (role, standing)) ns =
      (ns.find? fun n => n.role = role).toList.flatMap (notesAt standing) := by
  induction ns with
  | nil => rfl
  | cons n ns ih =>
      by_cases h : n.role = role
      · simp [notesIn, Handed.standingOf, Handed.after, h, notesIn_none]
      · simp [notesIn, Handed.standingOf, Handed.after, h, ih, notesAt]

/-! ## The function that a tree is -/

/-- The function among some trees is that of the first subject.  This puts the walk
along the children into the words of `child?`, in which bindings are told. -/
theorem functionSpanIn?_eq (ns : List Node) :
    functionSpanIn? ns = (ns.find? fun n => n.role = .subject).bind functionSpan? := by
  induction ns with
  | nil => rfl
  | cons n ns ih =>
      by_cases h : n.role = .subject
      · simp [functionSpanIn?, h]
      · simp [functionSpanIn?, h, ih]

theorem functionSpan?_of_function {n : Node} (h : n.form.isFunction = true) :
    n.functionSpan? = some n.span := by
  obtain ⟨role, form, span, children⟩ := n
  cases form <;> simp_all [Form.isFunction, functionSpan?]

/-- In parentheses it is the one inside them. -/
theorem functionSpan?_of_parenthesized {n : Node} (h : n.form = .parenthesized) :
    n.functionSpan? = (n.child? .subject).bind functionSpan? := by
  obtain ⟨role, form, span, children⟩ := n
  subst h
  rw [functionSpan?, functionSpanIn?_eq]
  rfl

theorem functionSpan?_eq_none {n : Node} (hf : n.form.isFunction = false)
    (hp : n.form ≠ .parenthesized) : n.functionSpan? = none := by
  obtain ⟨role, form, span, children⟩ := n
  cases form <;> simp_all [Form.isFunction, functionSpan?]

/-- The functions of a child are below the node. -/
theorem mem_spansOfFunctions_of_child {n child : Node} {span : Span} (hc : child ∈ n.children)
    (h : span ∈ child.functionSpans) : span ∈ spansOfFunctions (nodesIn n.children) := by
  simp only [functionSpans, spansOfFunctions, List.mem_map, List.mem_filter] at h ⊢
  obtain ⟨m, ⟨hm, hf⟩, hs⟩ := h
  exact ⟨m, ⟨mem_nodesIn.2 ⟨child, hc, hm⟩, hf⟩, hs⟩

/-- The function that a tree is, parentheses aside, is one of its nodes. -/
theorem functionSpan?_mem {n : Node} {span : Span} (h : n.functionSpan? = some span) :
    span ∈ n.functionSpans := by
  induction n using Node.induction with
  | node role form own children ih =>
      rw [functionSpans_eq]
      cases hf : form.isFunction with
      | true =>
          rw [functionSpan?_of_function hf] at h
          cases h
          simp
      | false =>
          -- Parentheses lead one node further down, where the induction applies.
          by_cases hp : form = .parenthesized
          · rw [functionSpan?_of_parenthesized hp] at h
            obtain ⟨child, hc, hs⟩ := Option.bind_eq_some_iff.1 h
            have hmem : child ∈ children := mem_children_of_child? hc
            exact List.mem_append_right _ (mem_spansOfFunctions_of_child hmem (ih child hmem hs))
          · rw [functionSpan?_eq_none hf hp] at h
            cases h

/-- **A bound function stands below the node that binds it**, as its value or inside the
parentheses around it. -/
theorem boundFunction?_mem {n : Node} {nameOf? : Node → Option String} {bound : BoundFunction}
    (h : n.boundFunction? nameOf? = some bound) :
    bound.span ∈ spansOfFunctions (nodesIn n.children) := by
  unfold boundFunction? at h
  obtain ⟨value, hv, h⟩ := Option.bind_eq_some_iff.1 h
  obtain ⟨span, hs, h⟩ := Option.bind_eq_some_iff.1 h
  cases h
  exact mem_spansOfFunctions_of_child (mem_children_of_child? hv) (functionSpan?_mem hs)

/-! ## Passing notes on -/

/-- What a declarator or an assignment adds is what its value has. -/
theorem notesIn_of_value (n : Node) (nameOf? : Node → Option String) :
    notesIn (some (.value, .bound ((n.child? .subject).bind nameOf?))) n.children =
      (n.boundFunction? nameOf?).toList.map noteOf := by
  rw [notesIn_some]
  unfold boundFunction? child?
  cases hv : n.children.find? fun child => child.role = .value with
  | none => rfl
  | some value => cases hs : value.functionSpan? <;> simp [notesAt, hs, noteOf]

/-- What a statement adds is what its assignment has. -/
theorem notesIn_of_statement {n : Node} (h : n.form = .expressionStatement) :
    notesIn (some (.value, .stated)) n.children =
      (n.statedAssignment?.bind fun assignment =>
        assignment.boundFunction? assignedName?).toList.map noteOf := by
  rw [notesIn_some, statedAssignment?, if_pos h, child?]
  cases hv : n.children.find? fun child => child.role = .value with
  | none => rfl
  | some value => by_cases ha : value.form = .assignment <;> simp [notesAt, Option.filter, ha]

/-- Parentheses hand their own note on. -/
theorem notesAt_of_parenthesized {n : Node} (h : n.form = .parenthesized) (name : Option String) :
    n.notesAt (.bound name) = notesIn (some (.subject, .bound name)) n.children := by
  rw [notesIn_some, notesAt, functionSpan?_of_parenthesized h, child?]
  cases n.children.find? fun child => child.role = .subject <;> simp [notesAt]

/-- **A note is on a function of the tree**, whatever the standing of the tree is. -/
theorem mem_functionSpans_of_note {n : Node} {standing : Standing} {note : Span × Option String}
    (h : note ∈ n.notesAt standing) : note.1 ∈ n.functionSpans := by
  cases standing with
  | plain => simp [notesAt] at h
  | stated =>
      simp only [notesAt] at h
      split at h
      · obtain ⟨bound, hb, rfl⟩ := List.mem_map.1 h
        rw [functionSpans_eq]
        exact List.mem_append_right _ (boundFunction?_mem (Option.mem_toList.1 hb))
      · simp at h
  | bound name =>
      obtain ⟨span, hs, rfl⟩ := List.mem_map.1 h
      exact functionSpan?_mem (Option.mem_toList.1 hs)

/-- The notes for some trees are on functions of these trees. -/
theorem mem_spansOfFunctions_of_note {handed : Handed} {ns : List Node}
    {note : Span × Option String} (h : note ∈ notesIn handed ns) :
    note.1 ∈ spansOfFunctions (nodesIn ns) := by
  induction ns generalizing handed with
  | nil => simp [notesIn] at h
  | cons n ns ih =>
      rw [nodesIn, spansOfFunctions_append]
      rcases List.mem_append.1 h with h | h
      · exact List.mem_append_left _ (mem_functionSpans_of_note h)
      · exact List.mem_append_right _ (ih h)

/-- The note that is added when a node is entered. -/
def added (n : Node) : List (Span × Option String) :=
  (n.shape?.bind Shape.bound?).toList.map noteOf

/-- A declarator adds the function that is its value, under the declared name. -/
theorem added_of_declarator {n : Node} (h : n.form = .declarator) :
    n.added = (n.boundFunction? declaredName?).toList.map noteOf := by
  simp [added, shape?, h, Shape.bound?]

/-- An expression statement adds the function on the right side of its assignment, if it
is one.  So the note is there before the assignment itself is entered. -/
theorem added_of_statement {n : Node} (h : n.form = .expressionStatement) :
    n.added =
      (n.statedAssignment?.bind fun assignment =>
        assignment.boundFunction? assignedName?).toList.map noteOf := by
  cases ha : n.statedAssignment? <;> simp [added, shape?, h, ha, Shape.bound?]

/-- Nodes of any other form add nothing. -/
theorem added_eq_nil {n : Node} (hd : n.form ≠ .declarator) (hs : n.form ≠ .expressionStatement) :
    n.added = [] := by
  unfold added shape?
  split <;> simp_all [Shape.bound?]

/-- What a node adds is on a function below it, not on the node itself. -/
theorem mem_spansOfFunctions_of_added {n : Node} {note : Span × Option String}
    (h : note ∈ n.added) : note.1 ∈ spansOfFunctions (nodesIn n.children) := by
  by_cases hd : n.form = .declarator
  · rw [added_of_declarator hd, ← notesIn_of_value] at h
    exact mem_spansOfFunctions_of_note h
  · by_cases hs : n.form = .expressionStatement
    · rw [added_of_statement hs, ← notesIn_of_statement hs] at h
      exact mem_spansOfFunctions_of_note h
    · rw [added_eq_nil hd hs] at h
      cases h

/-- Nodes of the other forms have no notes in any standing. -/
theorem notesAt_eq_nil {n : Node} (hf : n.form.isFunction = false) (hp : n.form ≠ .parenthesized)
    (ha : n.form ≠ .assignment) (standing : Standing) : n.notesAt standing = [] := by
  cases standing <;> simp [notesAt, functionSpan?_eq_none hf hp, ha]

/-- **The note on a function that stands there itself** is what its standing says of it,
and there is no note on any other. -/
theorem lookup_notesAt_of_function {n : Node} (hf : n.form.isFunction = true)
    (standing : Standing) (span : Span) :
    (n.notesAt standing).lookup span = if span = n.span then standing.binding? else none := by
  have ha : n.form ≠ .assignment := by
    intro h
    rw [h] at hf
    cases hf
  cases standing with
  | plain => simp [notesAt, Standing.binding?]
  | stated => simp [notesAt, ha, Standing.binding?]
  | bound name =>
      by_cases h : span = n.span
      · simp [notesAt, functionSpan?_of_function hf, Standing.binding?, h]
      · simp [notesAt, functionSpan?_of_function hf, List.lookup_cons, beq_false_of_ne h, h]

/-- In a tree whose functions are told apart by their spans, a function does not stand
below itself. -/
theorem span_not_mem_of_function {n : Node} (hf : n.form.isFunction = true)
    (distinct : n.functionSpans.Nodup) : n.span ∉ spansOfFunctions (nodesIn n.children) := by
  rw [functionSpans_eq, if_pos hf] at distinct
  exact (List.nodup_cons.1 distinct).1

/-- **Notes are passed on.**  For a function below a spot, the children have the
note that the spot adds, or else the note that the spot has. -/
theorem lookup_notesIn_handed (q : Spot) (distinct : q.node.functionSpans.Nodup) {span : Span}
    (hs : span ∈ spansOfFunctions (nodesIn q.node.children)) :
    (notesIn q.handed q.node.children).lookup span =
      (q.node.added.lookup span).or ((q.node.notesAt q.standing).lookup span) := by
  obtain ⟨scope, standing, n⟩ := q
  simp only at distinct hs ⊢
  by_cases hd : n.form = .declarator
  · rw [added_of_declarator hd, ← notesIn_of_value,
      notesAt_eq_nil (by rw [hd]; rfl) (by simp [hd]) (by simp [hd])]
    simp [Spot.handed, hd]
  by_cases he : n.form = .expressionStatement
  · rw [added_of_statement he, ← notesIn_of_statement he,
      notesAt_eq_nil (by rw [he]; rfl) (by simp [he]) (by simp [he])]
    simp [Spot.handed, he]
  rw [added_eq_nil hd he, List.lookup_nil, Option.none_or]
  -- Other nodes add nothing.  A function has a note on itself at most, and that is not
  -- below it.
  cases hf : n.form.isFunction with
  | true =>
      have hne : span ≠ n.span := fun e => span_not_mem_of_function hf distinct (e ▸ hs)
      have hh : Spot.handed ⟨scope, standing, n⟩ = none := by
        cases hform : n.form <;> simp_all [Spot.handed, Form.isFunction]
      rw [hh, notesIn_none, lookup_notesAt_of_function hf, if_neg hne]
      rfl
  | false =>
      -- Parentheses and stated assignments hand on what they have.
      by_cases hp : n.form = .parenthesized
      · cases standing with
        | bound name => simp [Spot.handed, hp, notesAt_of_parenthesized hp]
        | plain => simp [Spot.handed, hp, notesIn_none, notesAt]
        | stated => simp [Spot.handed, hp, notesIn_none, notesAt]
      by_cases ha : n.form = .assignment
      · cases standing with
        | stated => simp [Spot.handed, ha, notesIn_of_value, notesAt]
        | plain => simp [Spot.handed, ha, notesIn_none, notesAt]
        | bound name => simp [Spot.handed, ha, notesIn_none, notesAt, functionSpan?_eq_none hf hp]
      · have hh : Spot.handed ⟨scope, standing, n⟩ = none := by
          cases hform : n.form <;> simp_all [Spot.handed]
        rw [hh, notesIn_none, notesAt_eq_nil hf hp ha]

end Node
end ScopeTrack
