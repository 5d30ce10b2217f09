/-
# Where the nodes of a tree stand

Whether a function opens a scope is decided by where it stands: a declaration
does so everywhere, an expression or an arrow only where it is bound.  A spot is
a node together with the path of the scopes around it and its standing, which it
has from the node around it.

| node around | its child | standing of the child |
| --- | --- | --- |
| declarator | the value | bound, under the declared name |
| expression statement | the value | stated |
| assignment that is stated | the value | bound, under the assigned name |
| parentheses that are bound | the subject | bound, under the same name |

Every other child is plain.  `Node.spots` lists the spots of a tree, each before
those of its children, and `Node.spotsLeft` each after them.  Both carry the path
down and keep no other state, so they say what a traversal has to find: the keys
that a spot registers (`Spot.keys`), the changes of variables that it holds
(`Spot.changes`), and the scope that it closes (`Spot.closes?`).
-/

import ScopeTrack.Proofs.Tree.Nodes
import ScopeTrack.Table
import ScopeTrack.Track.Diagnostic

namespace ScopeTrack

/-- What a node has from the node around it. -/
inductive Standing where
  | plain
  /-- The node is the expression of a statement. -/
  | stated
  /-- A function here is bound, and the binding gives it this name. -/
  | bound (name : Option String)
deriving DecidableEq, Repr

/-- The name that a binding gives to a function; `none` where nothing is bound. -/
def Standing.binding? : Standing → Option (Option String)
  | bound name => some name
  | _ => none

/-- The standing that a node hands to the first of its children with a role. -/
abbrev Handed := Option (Role × Standing)

namespace Handed

/-- The standing of the first child. -/
def standingOf : Handed → Node → Standing
  | some (role, standing), child => if child.role = role then standing else .plain
  | none, _ => .plain

/-- What is left to hand to the children after the first. -/
def after : Handed → Node → Handed
  | some (role, standing), child => if child.role = role then none else some (role, standing)
  | none, _ => none

end Handed

/-- A node, the path of the scopes around it, and its standing. -/
structure Spot where
  scope : String
  standing : Standing
  node : Node
deriving Repr

/-- A change of a variable, seen from a scope, by a construct that ends at an
offset. -/
structure Change where
  scope : String
  stop : Nat
  target : Target
deriving DecidableEq, Repr

/-- The changes of some variables by one construct. -/
def Change.ofNames (scope : String) (stop : Nat) (names : List String) : List Change :=
  names.map fun name => ⟨scope, stop, .named name⟩

namespace Spot

/-- The name, if there is one, of the scope that a spot opens; `none` if it opens
no scope.  A function without a body opens none. -/
def opened? (q : Spot) : Option (Option String) :=
  match q.node.form, q.standing with
  | .function .declaration name, _ => some name
  | .function .expression _, .bound name => some name
  | .function .arrow _, .bound name => some name
  | _, _ => none

/-- The path of the scopes around the children of a spot. -/
def inner (q : Spot) : String :=
  match q.opened? with
  | some name => Scope.childName q.scope (name.getD anonymousName)
  | none => q.scope

/-- The standing that a spot hands to one of its children. -/
def handed (q : Spot) : Handed :=
  match q.node.form, q.standing with
  | .declarator, _ => some (.value, .bound ((q.node.child? .subject).bind Node.declaredName?))
  | .expressionStatement, _ => some (.value, .stated)
  | .assignment, .stated =>
    some (.value, .bound ((q.node.child? .subject).bind Node.assignedName?))
  | .parenthesized, .bound name => some (.subject, .bound name)
  | _, _ => none

/-- The keys that a spot registers: the parameters of a function in the scope
that it opens, the variables of a declarator, the target of an assignment. -/
def keys (q : Spot) : List String :=
  match q.node.form with
  | .function _ _ =>
    if q.opened?.isSome then q.node.parameterNames.map (Table.key q.inner) else []
  | .declarator => q.node.declaredNames.map (Table.key q.scope)
  | .assignment => q.node.target.name?.toList.map (Table.key q.scope)
  | _ => []

/-- The changes of variables at a spot: one for each variable of a declarator
with an initializer, one for a statement that is an assignment. -/
def changes (q : Spot) : List Change :=
  match q.node.form with
  | .declarator =>
    if (q.node.child? .value).isSome then
      Change.ofNames q.scope q.node.span.stop q.node.declaredNames
    else []
  | .expressionStatement =>
    q.node.statedAssignment?.toList.map fun assignment =>
      ⟨q.scope, q.node.span.stop, assignment.target⟩
  | _ => []

/-- The name and the owner of the scope that a spot opens and closes. -/
def closes? (q : Spot) : Option (String × Option Span) :=
  q.opened?.map fun _ => (q.inner, some q.node.span)

/-- The name that a function without a body is bound to, with its span. -/
def bodiless? (q : Spot) : Option (Span × Option String) :=
  match q.node.form with
  | .function .signature _ => q.standing.binding?.map fun name => (q.node.span, name)
  | _ => none

/-- Expressions and arrows open a scope just where they are bound. -/
theorem opened?_of_function {q : Spot} {form : FunctionForm} {own : Option String}
    (hform : q.node.form = .function form own) (hd : form ≠ .declaration)
    (hs : form ≠ .signature) : q.opened? = q.standing.binding? := by
  unfold opened?
  rw [hform]
  cases form <;> cases q.standing <;> simp_all [Standing.binding?]

/-- Only functions with a body open scopes. -/
theorem hasBody_of_opened {q : Spot} {name : Option String} (h : q.opened? = some name) :
    q.node.form.hasBody = true := by
  unfold opened? at h
  split at h
  · next hform => rw [hform]; rfl
  · next hform _ => rw [hform]; rfl
  · next hform _ => rw [hform]; rfl
  · cases h

theorem bodiless?_of_hasBody {q : Spot} (h : q.node.form.hasBody = true) : q.bodiless? = none := by
  cases hform : q.node.form with
  | function form own => cases form <;> simp_all [bodiless?, Form.hasBody]
  | _ => simp [bodiless?, hform]

/-- What is noted of a function without a body is what its standing says. -/
theorem bodiless?_of_signature {q : Spot} (hf : q.node.form.isFunction = true)
    (hb : q.node.form.hasBody = false) :
    q.bodiless? = q.standing.binding?.map fun name => (q.node.span, name) := by
  cases hform : q.node.form with
  | function form own => cases form <;> simp_all [bodiless?, Form.hasBody]
  | _ => simp_all [Form.isFunction]

/-- A note that is left behind is on the node of the spot, and that is a function. -/
theorem eq_span_of_bodiless {q : Spot} {note : Span × Option String} (h : q.bodiless? = some note) :
    note.1 = q.node.span ∧ q.node.form.isFunction = true := by
  unfold bodiless? at h
  split at h
  · next hform =>
      obtain ⟨name, -, rfl⟩ := Option.map_eq_some_iff.1 h
      exact ⟨rfl, by rw [hform]; rfl⟩
  · cases h

/-- Below a function that opens a scope, names are in that scope. -/
theorem inner_of_opened {q : Spot} {name : Option String} (h : q.opened? = some name) :
    q.inner = Scope.childName q.scope (name.getD anonymousName) := by
  rw [inner, h]

theorem inner_of_not_opened {q : Spot} (h : q.opened? = none) : q.inner = q.scope := by
  rw [inner, h]

end Spot

namespace Node

mutual

/-- The spots of a tree, each before those of its children. -/
def spots (scope : String) (standing : Standing) : Node → List Spot
  | n@⟨_, _, _, children⟩ =>
    let q : Spot := ⟨scope, standing, n⟩
    q :: spotsIn q.inner q.handed children

/-- The spots of some trees in order. -/
def spotsIn (scope : String) (handed : Handed) : List Node → List Spot
  | [] => []
  | n :: ns => n.spots scope (handed.standingOf n) ++ spotsIn scope (handed.after n) ns

end

mutual

/-- The spots of a tree, each after those of its children. -/
def spotsLeft (scope : String) (standing : Standing) : Node → List Spot
  | n@⟨_, _, _, children⟩ =>
    let q : Spot := ⟨scope, standing, n⟩
    spotsLeftIn q.inner q.handed children ++ [q]

/-- The spots of some trees in order, each after those of its children. -/
def spotsLeftIn (scope : String) (handed : Handed) : List Node → List Spot
  | [] => []
  | n :: ns => n.spotsLeft scope (handed.standingOf n) ++ spotsLeftIn scope (handed.after n) ns

end

/-- The spots of a tree: its own comes first, and its children have the scope that it
opens and the standing that it hands on. -/
theorem spots_eq (scope : String) (standing : Standing) (n : Node) :
    n.spots scope standing =
      ⟨scope, standing, n⟩ ::
        spotsIn (Spot.inner ⟨scope, standing, n⟩) (Spot.handed ⟨scope, standing, n⟩)
          n.children := by
  cases n
  rw [spots]

/-- In the order of leaving, its own comes last. -/
theorem spotsLeft_eq (scope : String) (standing : Standing) (n : Node) :
    n.spotsLeft scope standing =
      spotsLeftIn (Spot.inner ⟨scope, standing, n⟩) (Spot.handed ⟨scope, standing, n⟩)
          n.children ++
        [⟨scope, standing, n⟩] := by
  cases n
  rw [spotsLeft]

/-- The nodes of the spots of some trees, if it is so for each of them.  What is handed
on from one to the next changes the standings but not the nodes. -/
theorem map_node_spotsIn_of (ns : List Node)
    (ih : ∀ n ∈ ns, ∀ scope standing, (n.spots scope standing).map Spot.node = n.nodes)
    (scope : String) (handed : Handed) : (spotsIn scope handed ns).map Spot.node = nodesIn ns := by
  induction ns generalizing handed with
  | nil => rfl
  | cons n ns ihs =>
      rw [spotsIn, nodesIn, List.map_append, ih n List.mem_cons_self,
        ihs fun m hm => ih m (List.mem_cons_of_mem _ hm)]

/-- The spots of a tree are its nodes, in the same order. -/
theorem map_node_spots (n : Node) (scope : String) (standing : Standing) :
    (n.spots scope standing).map Spot.node = n.nodes := by
  induction n using Node.induction generalizing scope standing with
  | node role form span children ih =>
      rw [spots_eq, nodes_eq, List.map_cons, map_node_spotsIn_of _ ih]

/-- **The spots of some trees are their nodes**, in the same order. -/
theorem map_node_spotsIn (ns : List Node) (scope : String) (handed : Handed) :
    (spotsIn scope handed ns).map Spot.node = nodesIn ns :=
  map_node_spotsIn_of ns (fun n _ => map_node_spots n) scope handed

/-- Every spot of some trees is left once, if it is so for each of them. -/
theorem spotsLeftIn_perm_of (ns : List Node)
    (ih : ∀ n ∈ ns, ∀ scope standing,
      (n.spotsLeft scope standing).Perm (n.spots scope standing))
    (scope : String) (handed : Handed) :
    (spotsLeftIn scope handed ns).Perm (spotsIn scope handed ns) := by
  induction ns generalizing handed with
  | nil => exact .refl _
  | cons n ns ihs =>
      rw [spotsIn, spotsLeftIn]
      exact (ih n List.mem_cons_self scope _).append
        (ihs (fun m hm => ih m (List.mem_cons_of_mem _ hm)) _)

/-- The spots that are left are those that are entered. -/
theorem spotsLeft_perm (n : Node) (scope : String) (standing : Standing) :
    (n.spotsLeft scope standing).Perm (n.spots scope standing) := by
  induction n using Node.induction generalizing scope standing with
  | node role form span children ih =>
      rw [spots_eq, spotsLeft_eq]
      exact (List.perm_append_singleton _ _).trans
        ((spotsLeftIn_perm_of children ih _ _).cons _)

/-- The spots of a tree are among those of the trees around it, with the standing that
it has there. -/
theorem spots_subset_spotsIn {n : Node} {ns : List Node} (hn : n ∈ ns) (scope : String)
    (handed : Handed) :
    ∃ standing, n.spots scope standing ⊆ spotsIn scope handed ns := by
  induction ns generalizing handed with
  | nil => cases hn
  | cons first ns ih =>
      rw [spotsIn]
      rcases List.mem_cons.1 hn with rfl | hn
      · exact ⟨_, List.subset_append_left _ _⟩
      · obtain ⟨standing, hsub⟩ := ih hn (handed.after first)
        exact ⟨standing, List.Subset.trans hsub (List.subset_append_right _ _)⟩

/-- A spot of some trees is one of a tree among them, all of whose spots are among
theirs. -/
theorem mem_spotsIn {q : Spot} {ns : List Node} {scope : String} {handed : Handed}
    (h : q ∈ spotsIn scope handed ns) :
    ∃ n ∈ ns, ∃ standing, q ∈ n.spots scope standing ∧
      n.spots scope standing ⊆ spotsIn scope handed ns := by
  induction ns generalizing handed with
  | nil => cases h
  | cons first ns ih =>
      rw [spotsIn] at h ⊢
      rcases List.mem_append.1 h with h | h
      · exact ⟨first, List.mem_cons_self, _, h, List.subset_append_left _ _⟩
      · obtain ⟨n, hn, standing, hq, hsub⟩ := ih h
        exact ⟨n, List.mem_cons_of_mem _ hn, standing, hq,
          List.Subset.trans hsub (List.subset_append_right _ _)⟩

/-- The spots below a spot of a tree are spots of the tree. -/
theorem spots_subset {n : Node} {q : Spot} {scope : String} {standing : Standing}
    (h : q ∈ n.spots scope standing) :
    q.node.spots q.scope q.standing ⊆ n.spots scope standing := by
  induction n using Node.induction generalizing scope standing with
  | node role form span children ih =>
      rw [spots_eq] at h
      rcases List.mem_cons.1 h with rfl | h
      · exact List.Subset.refl _
      · obtain ⟨child, hchild, standing', hq, hsub⟩ := mem_spotsIn h
        rw [spots_eq scope standing]
        exact List.Subset.trans (ih child hchild hq)
          (List.Subset.trans hsub (List.subset_cons_self _ _))

/-- Every child of a spot has a spot below it, in the scope inside the spot. -/
theorem exists_spot_of_child {q : Spot} {child : Node} (h : child ∈ q.node.children) :
    ∃ standing, ⟨q.inner, standing, child⟩ ∈ q.node.spots q.scope q.standing := by
  obtain ⟨standing, hsub⟩ := spots_subset_spotsIn h q.inner q.handed
  refine ⟨standing, ?_⟩
  have hself : ⟨q.inner, standing, child⟩ ∈ child.spots q.inner standing := by
    rw [spots_eq]
    exact List.mem_cons_self
  rw [spots_eq]
  exact List.mem_cons_of_mem _ (hsub hself)

/-- The functions without a body that a program binds, with the names that the
bindings give them. -/
def bodilessBindings (program : Node) : List (Span × Option String) :=
  (program.spots Scope.globalName .plain).filterMap Spot.bodiless?

end Node
end ScopeTrack
