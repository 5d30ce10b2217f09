/-
# Where the names that are bound stand

An identifier is in binding position in a pattern if one comes to it from part to
part (`Node.Binds`).  The parts of a pattern are its subjects:

| pattern | its parts |
| --- | --- |
| object pattern | the properties and the rest |
| array pattern | the entries that are no holes, and the rest |
| property | the value, not the key |
| pattern with a default | the left side, not the default |
| rest, parameter property | what is bound |

Such an identifier is told by the way to it, a list of positions among children,
so that every occurrence counts by itself.  `Node.bindings` lists them.  They are
just those in binding position (`mem_bindings`), their names are the bound names
(`map_form_bindings`), and where parts lie in the node around them, one behind the
other (`Node.InOrder`), they come in the order in which they start
(`pairwise_bindings`).
-/

import ScopeTrack.Proofs.Tree.Layout
import Mathlib.Data.List.Enum

namespace ScopeTrack

/-- The forms of patterns that have parts. -/
def Form.patterns : List Form :=
  [.objectPattern, .arrayPattern, .property, .defaulted, .restElement, .parameterProperty]

namespace Node

/-- A node below another one, with the way to it. -/
abbrev Occurrence := List Nat × Node

/-- The part of a pattern among its children. -/
structure PartAt (n : Node) (position : Nat) (part : Node) : Prop where
  form : n.form ∈ Form.patterns
  child : n.children[position]? = some part
  subject : part.role = .subject

/-- The pattern binds the identifier to which the way leads. -/
inductive Binds : Node → List Nat → Node → Prop where
  | identifier {n : Node} {name : String} (form : n.form = .identifier name) : Binds n [] n
  | part {n part m : Node} {position : Nat} {way : List Nat} (here : n.PartAt position part)
      (binds : Binds part way m) : Binds n (position :: way) m

/-- The parameter of a function among its children.  If the first one is named
`this`, it is none. -/
structure ParameterAt (f : Node) (position : Nat) (parameter : Node) : Prop where
  child : f.children[position]? = some parameter
  role : parameter.role = .parameter
  binding : parameter.form = .identifier "this" →
    ∃ earlier other, earlier < position ∧ f.children[earlier]? = some other ∧
      other.role = .parameter

/-- The function has a parameter that binds the identifier to which the way
leads. -/
inductive BindsParameter (f : Node) : List Nat → Node → Prop where
  | parameter {parameter m : Node} {position : Nat} {way : List Nat}
      (here : f.ParameterAt position parameter) (binds : parameter.Binds way m) :
      BindsParameter f (position :: way) m

/-- The children of a role lie in the node, one behind the other. -/
structure HoldsInOrder (n : Node) (role : Role) : Prop where
  inside : ∀ child ∈ n.children, child.role = role →
    n.span.start ≤ child.span.start ∧ child.span.stop ≤ n.span.stop
  ordered : (n.children.filter fun child => child.role = role).Pairwise fun earlier later =>
    earlier.span.stop ≤ later.span.start

instance (n : Node) (role : Role) : Decidable (n.HoldsInOrder role) :=
  decidable_of_iff (_ ∧ _)
    ⟨fun ⟨inside, ordered⟩ => ⟨inside, ordered⟩, fun h => ⟨h.inside, h.ordered⟩⟩

/-- A tree as a parser lays it out: parts of patterns and parameters of functions
lie in order in the node around them, and no identifier is empty. -/
structure InOrder (n : Node) : Prop where
  parts : ∀ m ∈ n.nodes, m.HoldsInOrder .subject
  parameters : ∀ m ∈ n.nodes, m.HoldsInOrder .parameter
  words : ∀ m ∈ n.nodes, m.form.isIdentifier = true → m.span.start < m.span.stop

instance (n : Node) : Decidable n.InOrder :=
  decidable_of_iff (_ ∧ _ ∧ _)
    ⟨fun ⟨parts, parameters, words⟩ => ⟨parts, parameters, words⟩,
      fun h => ⟨h.parts, h.parameters, h.words⟩⟩

/-- The parts of a tree in order are in order themselves, as the conditions are on all
nodes of the tree. -/
theorem InOrder.child {n child : Node} (h : n.InOrder) (hchild : child ∈ n.children) :
    child.InOrder where
  parts m hm := h.parts m (mem_nodes_of_child hchild hm)
  parameters m hm := h.parameters m (mem_nodes_of_child hchild hm)
  words m hm := h.words m (mem_nodes_of_child hchild hm)

/-! ## The list of occurrences -/

mutual

/-- The identifiers that a pattern binds, in order, with the ways to them. -/
def bindings : Node → List Occurrence
  | ⟨role, form, span, children⟩ =>
    match form with
    | .identifier name => [([], ⟨role, .identifier name, span, children⟩)]
    | form => if form.isPattern then bindingsIn 0 children else []

/-- The identifiers that the subjects among some children bind; the first child
has the given position. -/
def bindingsIn (position : Nat) : List Node → List Occurrence
  | [] => []
  | n :: ns =>
    (if n.role = .subject then n.bindings.map fun (way, m) => (position :: way, m) else []) ++
      bindingsIn (position + 1) ns

end

/-- The identifiers that children with the given positions bind. -/
def bindingsOf (children : List (Node × Nat)) : List Occurrence :=
  children.flatMap fun child => child.1.bindings.map fun found => (child.2 :: found.1, found.2)

/-- The children of a role with their positions. -/
def childrenOf (n : Node) (role : Role) : List (Node × Nat) :=
  n.children.zipIdx.filter fun child => child.1.role = role

/-- Going through the children with a counter is going through them with their
positions, less those that are no subjects.  Everything below is said of the second
form, where the position belongs to the child. -/
theorem bindingsIn_eq (position : Nat) (ns : List Node) :
    bindingsIn position ns =
      bindingsOf ((ns.zipIdx position).filter fun child => child.1.role = .subject) := by
  induction ns generalizing position with
  | nil => rw [bindingsIn]; rfl
  | cons n ns ih =>
    rw [bindingsIn, ih, List.zipIdx_cons, List.filter_cons]
    by_cases h : n.role = .subject
    · simp [h, bindingsOf]
    · simp [h]

theorem bindings_of_identifier {n : Node} {name : String} (h : n.form = .identifier name) :
    n.bindings = [([], n)] := by
  obtain ⟨role, form, span, children⟩ := n
  obtain rfl : form = .identifier name := h
  rw [bindings]

/-- A pattern binds what its parts bind, one part after the other. -/
theorem bindings_of_pattern {n : Node} (h : n.form ∈ Form.patterns) :
    n.bindings = bindingsOf (n.childrenOf .subject) := by
  obtain ⟨role, form, span, children⟩ := n
  rw [childrenOf, ← bindingsIn_eq]
  cases form <;> simp_all [Form.patterns, bindings, Form.isPattern]

theorem bindings_of_other {n : Node} (hname : ∀ name, n.form ≠ .identifier name)
    (hpattern : n.form ∉ Form.patterns) : n.bindings = [] := by
  obtain ⟨role, form, span, children⟩ := n
  cases form <;> simp_all [Form.patterns, bindings, Form.isPattern]

/-- What holds of identifiers, of patterns if it holds of their parts, and of all
that is no pattern, holds of all nodes. -/
theorem pattern_induction {motive : Node → Prop}
    (identifier : ∀ n name, n.form = .identifier name → motive n)
    (pattern : ∀ n, n.form ∈ Form.patterns → (∀ child ∈ n.children, motive child) → motive n)
    (other : ∀ n, (∀ name, n.form ≠ .identifier name) → n.form ∉ Form.patterns → motive n)
    (n : Node) : motive n := by
  induction n using Node.induction with
  | node role form span children ih =>
    by_cases hname : ∃ name, form = .identifier name
    · obtain ⟨name, hname⟩ := hname
      exact identifier _ name hname
    · by_cases hpattern : form ∈ Form.patterns
      · exact pattern _ hpattern ih
      · exact other _ (not_exists.1 hname) hpattern

/-- The way to an identifier starts with the position of the part that binds it. -/
theorem mem_bindingsOf {children : List (Node × Nat)} {way : List Nat} {m : Node} :
    (way, m) ∈ bindingsOf children ↔
      ∃ child position rest, (child, position) ∈ children ∧ way = position :: rest ∧
        (rest, m) ∈ child.bindings := by
  simp only [bindingsOf, List.mem_flatMap, List.mem_map, Prod.exists, Prod.mk.injEq]
  constructor
  · rintro ⟨child, position, hchild, rest, m, hm, rfl, rfl⟩
    exact ⟨child, position, rest, hchild, rfl, hm⟩
  · rintro ⟨child, position, rest, hchild, rfl, hm⟩
    exact ⟨child, position, hchild, rest, m, hm, rfl, rfl⟩

theorem mem_childrenOf {n child : Node} {role : Role} {position : Nat} :
    (child, position) ∈ n.childrenOf role ↔
      n.children[position]? = some child ∧ child.role = role := by
  rw [childrenOf, List.mem_filter, List.mem_zipIdx_iff_getElem?, decide_eq_true_eq]

/-- **The list has just the identifiers in binding position.**  -/
theorem mem_bindings {n : Node} {way : List Nat} {m : Node} :
    (way, m) ∈ n.bindings ↔ n.Binds way m := by
  induction n using pattern_induction generalizing way with
  | identifier n name hform =>
    rw [bindings_of_identifier hform, List.mem_singleton, Prod.mk.injEq]
    constructor
    · rintro ⟨rfl, rfl⟩
      exact .identifier hform
    · intro h
      cases h with
      | identifier => exact ⟨rfl, rfl⟩
      | part here =>
        have := here.form
        simp [hform, Form.patterns] at this
  -- A way into a pattern starts with the position of a part, and goes on in the part.
  | pattern n hform ih =>
    rw [bindings_of_pattern hform, mem_bindingsOf]
    constructor
    · rintro ⟨child, position, rest, hchild, rfl, hm⟩
      obtain ⟨hat, hrole⟩ := mem_childrenOf.1 hchild
      exact .part ⟨hform, hat, hrole⟩ ((ih child (List.mem_of_getElem? hat)).1 hm)
    · intro h
      cases h with
      | identifier hname => simp [hname, Form.patterns] at hform
      | @part _ child _ position rest here binds =>
        exact ⟨child, position, rest, mem_childrenOf.2 ⟨here.child, here.subject⟩, rfl,
          (ih child (List.mem_of_getElem? here.child)).2 binds⟩
  | other n hname hpattern =>
    rw [bindings_of_other hname hpattern]
    constructor
    · exact fun h => absurd h List.not_mem_nil
    · intro h
      cases h with
      | identifier h => exact absurd h (hname _)
      | part here => exact absurd here.form hpattern

/-! ## Their names -/

theorem boundNames_of_identifier {n : Node} {name : String} (h : n.form = .identifier name) :
    n.boundNames = [name] := by
  obtain ⟨role, form, span, children⟩ := n
  obtain rfl : form = .identifier name := h
  rw [boundNames]

/-- The names that some trees bind are those of the subjects among them, in their order. -/
theorem boundNamesIn_eq (ns : List Node) :
    boundNamesIn ns = (ns.filter fun n => n.role = .subject).flatMap boundNames := by
  induction ns with
  | nil => rw [boundNamesIn]; rfl
  | cons n ns ih =>
    rw [boundNamesIn, ih, List.filter_cons]
    by_cases h : n.role = .subject
    · simp [h]
    · simp [h]

/-- The names that a pattern binds are those of its parts, in their order. -/
theorem boundNames_of_pattern {n : Node} (h : n.form ∈ Form.patterns) :
    n.boundNames = (n.children.filter fun child => child.role = .subject).flatMap boundNames := by
  obtain ⟨role, form, span, children⟩ := n
  rw [← boundNamesIn_eq]
  cases form <;> simp_all [Form.patterns, boundNames, Form.isPattern]

theorem boundNames_of_other {n : Node} (hname : ∀ name, n.form ≠ .identifier name)
    (hpattern : n.form ∉ Form.patterns) : n.boundNames = [] := by
  obtain ⟨role, form, span, children⟩ := n
  cases form <;> simp_all [Form.patterns, boundNames, Form.isPattern]

theorem map_fst_childrenOf (n : Node) (role : Role) :
    (n.childrenOf role).map Prod.fst = n.children.filter fun child => child.role = role := by
  conv_rhs => rw [← List.zipIdx_map_fst 0 n.children, List.filter_map]
  rfl

/-- Names and occurrences of the parts agree if they do for each part.  This is the step
of `map_form_bindings`, for patterns and for the parameters of a function alike. -/
theorem map_form_bindingsOf {children : List (Node × Nat)}
    (h : ∀ child ∈ children,
      child.1.boundNames.map Form.identifier = child.1.bindings.map fun found => found.2.form) :
    ((children.map Prod.fst).flatMap boundNames).map Form.identifier =
      (bindingsOf children).map fun found => found.2.form := by
  rw [bindingsOf, List.flatMap_map, List.map_flatMap, List.map_flatMap]
  refine List.flatMap_congr fun child hchild => ?_
  rw [h child hchild, List.map_map]
  rfl

/-- **The bound names are those of the identifiers in the list.**  -/
theorem map_form_bindings (n : Node) :
    n.boundNames.map Form.identifier = n.bindings.map fun found => found.2.form := by
  induction n using pattern_induction with
  | identifier n name hform =>
    rw [bindings_of_identifier hform, boundNames_of_identifier hform, List.map_singleton,
      List.map_singleton, hform]
  | pattern n hform ih =>
    rw [bindings_of_pattern hform, boundNames_of_pattern hform, ← map_fst_childrenOf]
    exact map_form_bindingsOf fun child hchild =>
      ih child.1 (List.mem_of_getElem? (mem_childrenOf.1 hchild).1)
  | other n hname hpattern =>
    rw [bindings_of_other hname hpattern, boundNames_of_other hname hpattern]
    rfl

/-! ## Their order -/

/-- An identifier that is bound starts inside the pattern. -/
theorem Binds.start_bounds {n m : Node} {way : List Nat} (binds : n.Binds way m)
    (inOrder : n.InOrder) : n.span.start ≤ m.span.start ∧ m.span.start < n.span.stop := by
  induction binds with
  | identifier form => exact ⟨Nat.le_refl _, inOrder.words _ (mem_nodes_self _) (by rw [form]; rfl)⟩
  | @part n part m position way here _ ih =>
    have hchild := List.mem_of_getElem? here.child
    have hinside := (inOrder.parts n (mem_nodes_self n)).inside part hchild here.subject
    have hpart := ih (inOrder.child hchild)
    omega

/-- Children that lie one behind the other bind identifiers in order. -/
theorem pairwise_bindingsOf {children : List (Node × Nat)}
    (inOrder : ∀ child ∈ children, child.1.InOrder)
    (behind : (children.map Prod.fst).Pairwise fun earlier later =>
      earlier.span.stop ≤ later.span.start)
    (h : ∀ child ∈ children, child.1.bindings.Pairwise fun earlier later =>
      earlier.2.span.start < later.2.span.start) :
    (bindingsOf children).Pairwise fun earlier later =>
      earlier.2.span.start < later.2.span.start := by
  rw [bindingsOf, List.pairwise_flatMap]
  constructor
  · intro child hchild
    exact List.pairwise_map.2 (h child hchild)
  · refine (List.pairwise_map.1 behind).imp_of_mem fun {first second} hfirst hsecond hbehind => ?_
    intro earlier hearlier later hlater
    obtain ⟨found, hfound, rfl⟩ := List.mem_map.1 hearlier
    obtain ⟨found', hfound', rfl⟩ := List.mem_map.1 hlater
    have hbefore := (mem_bindings.1 hfound).start_bounds (inOrder first hfirst)
    have hafter := (mem_bindings.1 hfound').start_bounds (inOrder second hsecond)
    show found.2.span.start < found'.2.span.start
    omega

/-- **The identifiers come in the order in which they start.**  -/
theorem pairwise_bindings {n : Node} (inOrder : n.InOrder) :
    n.bindings.Pairwise fun earlier later => earlier.2.span.start < later.2.span.start := by
  induction n using pattern_induction with
  | identifier n name hform =>
    rw [bindings_of_identifier hform]
    exact List.pairwise_singleton _ _
  | pattern n hform ih =>
    rw [bindings_of_pattern hform]
    have hmem : ∀ child ∈ n.childrenOf .subject, child.1 ∈ n.children := fun child hchild =>
      List.mem_of_getElem? (mem_childrenOf.1 hchild).1
    refine pairwise_bindingsOf (fun child hchild => inOrder.child (hmem child hchild)) ?_
      fun child hchild => ih child.1 (hmem child hchild) (inOrder.child (hmem child hchild))
    rw [map_fst_childrenOf]
    exact (inOrder.parts n (mem_nodes_self n)).ordered
  | other n hname hpattern =>
    rw [bindings_of_other hname hpattern]
    exact .nil

/-! ## Parameters -/

/-- The parameters of a function with their positions; a first one named `this` is
left out. -/
def parametersOf (f : Node) : List (Node × Nat) :=
  match f.childrenOf .parameter with
  | [] => []
  | first :: rest => if first.1.form = .identifier "this" then rest else first :: rest

/-- The identifiers that the parameters of a function bind, in order, with the ways
to them. -/
def parameterBindings (f : Node) : List Occurrence :=
  bindingsOf f.parametersOf

/-- Leaving out a first parameter named `this` changes no order. -/
theorem parametersOf_sublist (f : Node) : f.parametersOf.Sublist (f.childrenOf .parameter) := by
  rw [parametersOf]
  cases f.childrenOf .parameter with
  | nil => exact .slnil
  | cons first rest =>
    by_cases h : first.1.form = .identifier "this"
    · simp [h]
    · simp [h]

/-- Without the positions these are the parameters that the program sees. -/
theorem map_fst_parametersOf (f : Node) : f.parametersOf.map Prod.fst = f.parameters := by
  rw [parameters, ← map_fst_childrenOf, parametersOf]
  cases f.childrenOf .parameter with
  | nil => rfl
  | cons first rest =>
    by_cases h : first.1.form = .identifier "this"
    · simp [h]
    · simp [h]

theorem pairwise_childrenOf (n : Node) (role : Role) :
    (n.childrenOf role).Pairwise fun earlier later => earlier.2 < later.2 := by
  have hpositions : (n.children.zipIdx.map Prod.snd).Pairwise (· < ·) := by
    rw [List.zipIdx_map_snd]
    exact List.pairwise_lt_range'
  exact (List.pairwise_map.1 hpositions).filter _

/-- **The parameters are those of the list.**  -/
theorem mem_parametersOf {f parameter : Node} {position : Nat} :
    (parameter, position) ∈ f.parametersOf ↔ f.ParameterAt position parameter := by
  have hpositions := pairwise_childrenOf f .parameter
  have hmem {child : Node} {place : Nat} :
      (child, place) ∈ f.childrenOf .parameter ↔
        f.children[place]? = some child ∧ child.role = .parameter := mem_childrenOf
  rw [parametersOf]
  cases hchildren : f.childrenOf .parameter with
  | nil =>
    rw [hchildren] at hmem
    exact ⟨fun h => absurd h List.not_mem_nil, fun h => absurd (hmem.2 ⟨h.child, h.role⟩)
      List.not_mem_nil⟩
  | cons first rest =>
    rw [hchildren] at hmem hpositions
    obtain ⟨hfirst, -⟩ := List.pairwise_cons.1 hpositions
    -- Whatever its name, a parameter behind another one is no first one.
    have hrest : ∀ child place, (child, place) ∈ rest → f.ParameterAt place child := by
      intro child place h
      obtain ⟨hchild, hrole⟩ := hmem.1 (List.mem_cons_of_mem _ h)
      obtain ⟨hchild', hrole'⟩ := hmem.1 (List.mem_cons_self (a := first))
      exact ⟨hchild, hrole, fun _ => ⟨first.2, first.1, hfirst _ h, hchild', hrole'⟩⟩
    change (parameter, position) ∈ (if first.1.form = .identifier "this" then rest
      else first :: rest) ↔ f.ParameterAt position parameter
    by_cases hthis : first.1.form = .identifier "this"
    · rw [if_pos hthis]
      refine ⟨hrest parameter position, fun h => ?_⟩
      rcases List.mem_cons.1 (hmem.2 ⟨h.child, h.role⟩) with hsame | hmore
      · obtain ⟨rfl, rfl⟩ := Prod.ext_iff.1 hsame
        obtain ⟨earlier, other, hearlier, hother, hrole⟩ := h.binding hthis
        rcases List.mem_cons.1 (hmem.2 ⟨hother, hrole⟩) with heq | hlater
        · rw [← heq] at hearlier
          exact absurd hearlier (Nat.lt_irrefl _)
        · exact absurd (hfirst _ hlater) (Nat.lt_asymm hearlier)
      · exact hmore
    · rw [if_neg hthis]
      refine ⟨fun h => ?_, fun h => hmem.2 ⟨h.child, h.role⟩⟩
      rcases List.mem_cons.1 h with rfl | hmore
      · obtain ⟨hchild, hrole⟩ := hmem.1 h
        exact ⟨hchild, hrole, fun hname => absurd hname hthis⟩
      · exact hrest parameter position hmore

/-- The list has just the identifiers that parameters bind. -/
theorem mem_parameterBindings {f m : Node} {way : List Nat} :
    (way, m) ∈ f.parameterBindings ↔ f.BindsParameter way m := by
  rw [parameterBindings, mem_bindingsOf]
  constructor
  · rintro ⟨parameter, position, rest, hparameter, rfl, hm⟩
    exact .parameter (mem_parametersOf.1 hparameter) (mem_bindings.1 hm)
  · rintro ⟨here, binds⟩
    exact ⟨_, _, _, mem_parametersOf.2 here, rfl, mem_bindings.2 binds⟩

/-- The names of the parameters are those of the identifiers that they bind. -/
theorem map_form_parameterBindings (f : Node) :
    f.parameterNames.map Form.identifier = f.parameterBindings.map fun found => found.2.form := by
  rw [parameterNames, ← map_fst_parametersOf]
  exact map_form_bindingsOf fun parameter _ => map_form_bindings parameter.1

/-- **The identifiers that parameters bind come in the order in which they start**, like
those of a single pattern: the parameters lie one behind the other. -/
theorem pairwise_parameterBindings {f : Node} (inOrder : f.InOrder) :
    f.parameterBindings.Pairwise fun earlier later =>
      earlier.2.span.start < later.2.span.start := by
  have hinOrder : ∀ parameter ∈ f.parametersOf, parameter.1.InOrder := fun parameter h =>
    inOrder.child (List.mem_of_getElem? (mem_parametersOf.1 h).child)
  refine pairwise_bindingsOf hinOrder ?_ fun parameter h => pairwise_bindings (hinOrder parameter h)
  have hbehind := (inOrder.parameters f (mem_nodes_self f)).ordered
  rw [← map_fst_childrenOf] at hbehind
  exact hbehind.sublist (f.parametersOf_sublist.map _)

end Node
end ScopeTrack
