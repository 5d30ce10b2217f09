/-
# Bound names are complete and in source order

In a document an identifier is in binding position in a pattern if one comes to it
through the members that hold the parts of patterns (`Estree.parts`), from object
to object (`Estree.Binds`).  What stands in other members, a key, a computed key or
a default value, is left aside, and so is a hole, which is no object.

In the tree that is read from the document these are the identifiers that the
pattern binds (`Estree.binds_iff`), and for a function those that its parameters
bind (`Estree.bindsParameter_iff`).
-/

import ScopeTrack.Tree.Estree
import ScopeTrack.Proofs.Tree.Bindings

namespace ScopeTrack
namespace Estree

/-- The members of an object. -/
abbrev Members := List (String × Json)

/-- The value is the object with the members, or holds it in a list. -/
inductive Holds : Json → Members → Prop where
  | object (members : Members) : Holds (.obj members) members
  | item {items : List Json} {item : Json} {members : Members} (mem : item ∈ items)
      (holds : Holds item members) : Holds (.arr items) members

/-- The object is a directive, such as a strict mode marker. -/
def IsDirective (members : Members) : Prop :=
  ((members.lookup "directive").bind Json.text?).isSome

/-- A member of an object holds another object, which is no directive. -/
structure HoldsAt (members : Members) (member : String) (held : Members) : Prop where
  holds : ∃ value, (member, value) ∈ members ∧ Holds value held
  plain : ¬IsDirective held

/-- The types of patterns, with the member that holds their parts. -/
def parts : List (String × String) :=
  [("ObjectPattern", "properties"), ("ArrayPattern", "elements"), ("Property", "value"),
    ("AssignmentPattern", "left"), ("RestElement", "argument"),
    ("TSParameterProperty", "parameter")]

/-- The pattern binds the identifier of the name at the span. -/
inductive Binds : Members → String → Span → Prop where
  | identifier {members : Members} {name : String} {span : Span}
      (headed : heading? members = some ⟨"Identifier", span⟩)
      (form : form "Identifier" members = .identifier name) : Binds members name span
  | part {members part : Members} {heading : Heading} {member name : String} {span : Span}
      (headed : heading? members = some heading) (pattern : (heading.type, member) ∈ parts)
      (held : HoldsAt members member part) (binds : Binds part name span) :
      Binds members name span

/-- The function has a parameter, other than one named `this`, that binds the
identifier of the name at the span. -/
def BindsParameter (members : Members) (name : String) (span : Span) : Prop :=
  ∃ parameter, HoldsAt members "params" parameter ∧
    (∀ span, ¬(heading? parameter = some ⟨"Identifier", span⟩ ∧
      form "Identifier" parameter = .identifier "this")) ∧
    Binds parameter name span

/-! ## What is read from a document -/

theorem mem_nodesIn {role : Role} {items : List Json} {n : Node} :
    n ∈ nodesIn role items ↔ ∃ item ∈ items, n ∈ nodes role item := by
  induction items with
  | nil => simp [nodesIn]
  | cons item items ih => simp [nodesIn, ih]

/-- The children of an object come from its members, each read in the role that the type
of the object gives it. -/
theorem mem_children {type : String} {members : Members} {n : Node} :
    n ∈ children type members ↔
      ∃ member value, (member, value) ∈ members ∧ n ∈ nodes (role type member) value := by
  induction members with
  | nil => simp [children]
  | cons first members ih =>
    obtain ⟨member, value⟩ := first
    simp only [children, List.mem_append, ih, List.mem_cons, Prod.mk.injEq]
    constructor
    · rintro (h | ⟨member', value', hmem, h⟩)
      · exact ⟨member, value, .inl ⟨rfl, rfl⟩, h⟩
      · exact ⟨member', value', .inr hmem, h⟩
    · rintro ⟨member', value', ⟨rfl, rfl⟩ | hmem, h⟩
      · exact .inl h
      · exact .inr ⟨member', value', hmem, h⟩

/-- **An object with a heading is one node**, put together from its own members and the
nodes in them; an object without one is none. -/
theorem mem_nodes_obj {role : Role} {members : Members} {n : Node} :
    n ∈ nodes role (.obj members) ↔ ∃ heading, heading? members = some heading ∧
      n = assemble role heading members (children heading.type members) := by
  rw [nodes]
  cases heading? members with
  | none => simp
  | some heading => simp

/-- The form and the span of a node are read from its object, so the role in which it is
read does not matter for them. -/
theorem form_of_mem_nodes {role : Role} {members : Members} {heading : Heading} {n : Node}
    (h : n ∈ nodes role (.obj members)) (hheading : heading? members = some heading) :
    n.form = form heading.type members ∧ n.span = heading.span := by
  obtain ⟨heading', hheading', rfl⟩ := mem_nodes_obj.1 h
  obtain rfl : heading = heading' := Option.some.inj (hheading.symm.trans hheading')
  exact ⟨rfl, rfl⟩

/-- Each node is read from one of the objects. -/
theorem exists_holds_of_mem_nodes {role : Role} {n : Node} (value : Json)
    (h : n ∈ nodes role value) :
    ∃ members, Holds value members ∧ n ∈ nodes role (.obj members) := by
  match value, h with
  | .obj members, h => exact ⟨members, .object members, h⟩
  | .arr items, h =>
    rw [nodes, mem_nodesIn] at h
    obtain ⟨item, hitem, h⟩ := h
    obtain ⟨members, holds, hn⟩ := exists_holds_of_mem_nodes item h
    exact ⟨members, .item hitem holds, hn⟩
  | .null, h | .bool _, h | .num _, h | .str _, h => simp [nodes] at h

/-- What is read from a part that a value holds is read from the value too. -/
theorem Holds.mem_nodes {value : Json} {members : Members} (holds : Holds value members)
    {role : Role} {n : Node} (h : n ∈ nodes role (.obj members)) : n ∈ nodes role value := by
  induction holds with
  | object => exact h
  | item mem _ ih =>
    rw [nodes, mem_nodesIn]
    exact ⟨_, mem, ih h⟩

/-- A node that has a role at all was read in this role from an object that is no
directive. -/
theorem role_of_mem_nodes {role : Role} {members : Members} {n : Node}
    (h : n ∈ nodes role (.obj members)) (hother : n.role ≠ .other) :
    n.role = role ∧ ¬IsDirective members := by
  obtain ⟨heading, -, rfl⟩ := mem_nodes_obj.1 h
  by_cases hdirective : IsDirective members
  · exact absurd (if_pos hdirective) hother
  · exact ⟨if_neg hdirective, hdirective⟩

theorem role_eq_of_mem_nodes {role : Role} {members : Members} {n : Node}
    (h : n ∈ nodes role (.obj members)) (hplain : ¬IsDirective members) : n.role = role := by
  obtain ⟨heading, -, rfl⟩ := mem_nodes_obj.1 h
  exact if_neg hplain

/-- Only bodies are wrapped, so all other children are as they are read. -/
theorem mem_children_assemble {role childRole : Role} {heading : Heading} {members : Members}
    {children : List Node} {child : Node} (hbody : childRole ≠ .body) :
    child ∈ (assemble role heading members children).children ∧ child.role = childRole ↔
      child ∈ children ∧ child.role = childRole := by
  simp only [assemble, inOrder, List.mem_mergeSort, List.mem_map]
  constructor
  · rintro ⟨⟨found, hfound, rfl⟩, hrole⟩
    split at hrole
    · rename_i h
      exact absurd (hrole.symm.trans h.2) hbody
    · rename_i h
      rw [if_neg h]
      exact ⟨hfound, hrole⟩
  · rintro ⟨hchild, hrole⟩
    refine ⟨⟨child, hchild, if_neg ?_⟩, hrole⟩
    rintro ⟨-, h⟩
    exact hbody (hrole.symm.trans h)

/-- **The children of a role** are read from the objects in the members of that
role. -/
theorem mem_children_iff {role childRole : Role} {members : Members} {n child : Node}
    (hn : n ∈ nodes role (.obj members)) (hbody : childRole ≠ .body)
    (hother : childRole ≠ .other) :
    child ∈ n.children ∧ child.role = childRole ↔
      ∃ heading member held, heading? members = some heading ∧
        Estree.role heading.type member = childRole ∧ HoldsAt members member held ∧
        child ∈ nodes childRole (.obj held) := by
  obtain ⟨heading, hheading, rfl⟩ := mem_nodes_obj.1 hn
  rw [mem_children_assemble hbody, mem_children]
  constructor
  · rintro ⟨⟨member, value, hmember, hchild⟩, rfl⟩
    obtain ⟨held, holds, hheld⟩ := exists_holds_of_mem_nodes value hchild
    obtain ⟨hrole, hplain⟩ := role_of_mem_nodes hheld hother
    rw [← hrole] at hheld
    exact ⟨heading, member, held, hheading, hrole.symm, ⟨⟨value, hmember, holds⟩, hplain⟩, hheld⟩
  · rintro ⟨heading', member, held, hheading', hrole, ⟨⟨value, hmember, holds⟩, hplain⟩, hheld⟩
    obtain rfl : heading = heading' := Option.some.inj (hheading.symm.trans hheading')
    refine ⟨⟨member, value, hmember, ?_⟩, role_eq_of_mem_nodes hheld hplain⟩
    rw [hrole]
    exact holds.mem_nodes hheld

/-! ## Parts of patterns and parameters of functions -/

/-- The role of a member is listed for the type, unless it is the one of all other
members. -/
theorem mem_roles {type member : String} {role : Role} (h : Estree.role type member = role)
    (hother : role ≠ .other) : (member, role) ∈ roles type := by
  rw [Estree.role] at h
  cases hlookup : (roles type).lookup member with
  | none => exact absurd (by rw [← h, hlookup]; rfl) hother
  | some found =>
    obtain rfl : found = role := by rw [← h, hlookup]; rfl
    obtain ⟨before, after, hroles, -⟩ := List.lookup_eq_some_iff.1 hlookup
    rw [hroles]
    exact List.mem_append_right _ List.mem_cons_self

/-- Only objects of the type `Identifier` are read as identifiers. -/
theorem type_of_form_eq_identifier {type name : String} {members : Members}
    (h : form type members = .identifier name) : type = "Identifier" := by
  unfold form at h
  split at h <;> simp_all

/-- The parts of a pattern are in one member, which alone has the role of a subject
there. -/
theorem roles_of_mem_parts : ∀ pattern ∈ parts, roles pattern.1 = [(pattern.2, .subject)] := by
  decide

/-- Objects of these types are read as patterns. -/
theorem form_mem_patterns {type member : String} (h : (type, member) ∈ parts)
    (members : Members) : form type members ∈ Form.patterns := by
  simp only [parts, List.mem_cons, Prod.mk.injEq, List.not_mem_nil, or_false] at h
  rcases h with ⟨rfl, -⟩ | ⟨rfl, -⟩ | ⟨rfl, -⟩ | ⟨rfl, -⟩ | ⟨rfl, -⟩ | ⟨rfl, -⟩ <;>
    exact List.elem_iff.1 rfl

/-- Only objects of these types are read as patterns. -/
theorem exists_mem_parts {type : String} {members : Members}
    (h : form type members ∈ Form.patterns) : ∃ member, (type, member) ∈ parts := by
  unfold form at h
  split at h <;> simp [Form.patterns] at h
  all_goals simp [parts]

/-- The parts of a pattern are its subjects. -/
theorem mem_parts_iff {type member : String} {members : Members} :
    (type, member) ∈ parts ↔
      form type members ∈ Form.patterns ∧ role type member = .subject := by
  constructor
  · intro h
    refine ⟨form_mem_patterns h members, ?_⟩
    rw [role, roles_of_mem_parts _ h, List.lookup_cons_self]
    rfl
  · rintro ⟨hform, hrole⟩
    obtain ⟨only, honly⟩ := exists_mem_parts hform
    have hmem := mem_roles hrole (by decide)
    rw [roles_of_mem_parts _ honly, List.mem_singleton] at hmem
    obtain rfl : member = only := congrArg Prod.fst hmem
    exact honly

/-- The types of functions. -/
def functions : List String :=
  ["FunctionDeclaration", "FunctionExpression", "ArrowFunctionExpression", "TSDeclareFunction",
    "TSEmptyBodyFunctionExpression"]

/-- Only objects of these types are read as functions. -/
theorem mem_functions {type : String} {members : Members}
    (h : (form type members).isFunction = true) : type ∈ functions := by
  unfold form at h
  split at h <;> simp [Form.isFunction] at h
  all_goals decide

/-- In a function the parameters are in `params` and nowhere else. -/
theorem roles_of_mem_functions : ∀ type ∈ functions, role type "params" = .parameter ∧
    ∀ entry ∈ roles type, entry.2 = .parameter → entry.1 = "params" := by
  decide

/-- The parameters of a function are in one member. -/
theorem role_eq_parameter_iff {type member : String} (h : type ∈ functions) :
    role type member = .parameter ↔ member = "params" := by
  obtain ⟨hparams, honly⟩ := roles_of_mem_functions type h
  constructor
  · exact fun hrole => honly _ (mem_roles hrole (by decide)) rfl
  · rintro rfl
    exact hparams

/-- An object that binds something is read as a node in any role. -/
theorem Binds.exists_mem_nodes {members : Members} {name : String} {span : Span}
    (h : Binds members name span) (role : Role) : ∃ n, n ∈ nodes role (.obj members) := by
  cases h with
  | identifier headed => exact ⟨_, mem_nodes_obj.2 ⟨_, headed, rfl⟩⟩
  | part headed => exact ⟨_, mem_nodes_obj.2 ⟨_, headed, rfl⟩⟩

/-- **A pattern that is read binds the identifiers that it binds in the document.**  -/
theorem binds_iff {role : Role} {members : Members} {n : Node} {name : String} {span : Span}
    (hn : n ∈ nodes role (.obj members)) :
    (∃ way m, n.Binds way m ∧ m.form = .identifier name ∧ m.span = span) ↔
      Binds members name span := by
  constructor
  · rintro ⟨way, m, binds, hname, rfl⟩
    induction binds generalizing role members with
    | @identifier n _ _ =>
      obtain ⟨⟨type, span⟩, hheading, rfl⟩ := mem_nodes_obj.1 hn
      obtain rfl := type_of_form_eq_identifier hname
      exact .identifier hheading hname
    | @part n part m position way here _ ih =>
      -- A part of the node is read from the member of the parts.
      obtain ⟨heading, member, held, hheading, hrole, holds, hpart⟩ :=
        (mem_children_iff hn (by decide) (by decide)).1
          ⟨List.mem_of_getElem? here.child, here.subject⟩
      have hform : form heading.type members ∈ Form.patterns := by
        rw [← (form_of_mem_nodes hn hheading).1]
        exact here.form
      exact .part hheading (mem_parts_iff.2 ⟨hform, hrole⟩) holds (ih hpart hname)
  · intro h
    induction h generalizing role n with
    | @identifier members name span headed hform =>
      obtain ⟨hread, hspan⟩ := form_of_mem_nodes hn headed
      rw [hform] at hread
      exact ⟨[], n, .identifier hread, hread, hspan⟩
    | @part members part heading member name span headed pattern held binds ih =>
      obtain ⟨child, hread⟩ := binds.exists_mem_nodes .subject
      obtain ⟨hform, hrole⟩ := mem_parts_iff.1 pattern
      rw [← (form_of_mem_nodes hn headed).1] at hform
      obtain ⟨hchild, hsubject⟩ := (mem_children_iff hn (by decide) (by decide)).2
        ⟨heading, member, part, headed, hrole, held, hread⟩
      -- Where the part stands among the children is not told by the document, but it is one
      -- of them.
      obtain ⟨position, hposition⟩ := List.getElem?_of_mem hchild
      obtain ⟨way, m, hbinds, hm⟩ := ih hread
      exact ⟨position :: way, m, .part ⟨hform, hposition, hsubject⟩ hbinds, hm⟩

/-- **The parameters of a function that is read bind the identifiers that they bind
in the document.**  No parameter behind the first one is named `this`. -/
theorem bindsParameter_iff {role : Role} {members : Members} {f : Node} {name : String}
    {span : Span} (hf : f ∈ nodes role (.obj members)) (hfunction : f.form.isFunction = true)
    (hthis : ∀ position parameter, f.ParameterAt position parameter →
      parameter.form ≠ .identifier "this") :
    (∃ way m, f.BindsParameter way m ∧ m.form = .identifier name ∧ m.span = span) ↔
      BindsParameter members name span := by
  obtain ⟨heading, hheading, -⟩ := mem_nodes_obj.1 hf
  rw [(form_of_mem_nodes hf hheading).1] at hfunction
  have hparams (member : String) : Estree.role heading.type member = .parameter ↔
      member = "params" := role_eq_parameter_iff (mem_functions hfunction)
  constructor
  · rintro ⟨way, m, ⟨here, binds⟩, hm⟩
    obtain ⟨heading', member, held, hheading', hrole, holds, hparameter⟩ :=
      (mem_children_iff hf (by decide) (by decide)).1 ⟨List.mem_of_getElem? here.child, here.role⟩
    obtain rfl : heading = heading' := Option.some.inj (hheading.symm.trans hheading')
    obtain rfl := (hparams member).1 hrole
    refine ⟨held, holds, ?_, (binds_iff hparameter).1 ⟨_, m, binds, hm⟩⟩
    rintro span ⟨headed, hname⟩
    exact hthis _ _ here ((form_of_mem_nodes hparameter headed).1.trans hname)
  · rintro ⟨held, holds, hname, binds⟩
    obtain ⟨parameter, hread⟩ := binds.exists_mem_nodes .parameter
    obtain ⟨hchild, hrole⟩ := (mem_children_iff hf (by decide) (by decide)).2
      ⟨heading, "params", held, hheading, (hparams _).2 rfl, holds, hread⟩
    obtain ⟨position, hposition⟩ := List.getElem?_of_mem hchild
    obtain ⟨way, m, hbinds, hm⟩ := (binds_iff hread).2 binds
    have hplain : parameter.form ≠ .identifier "this" := by
      intro h
      obtain ⟨⟨type, span⟩, headed, -⟩ := mem_nodes_obj.1 hread
      rw [(form_of_mem_nodes hread headed).1] at h
      obtain rfl := type_of_form_eq_identifier h
      exact hname span ⟨headed, h⟩
    exact ⟨position :: way, m, .parameter ⟨hposition, hrole, fun h => absurd h hplain⟩ hbinds, hm⟩

/-- Nodes that are read in the order in which they start stay in order. -/
theorem inOrder_of_pairwise {ns : List Node}
    (h : ns.Pairwise fun a b => a.span.start ≤ b.span.start) : inOrder ns = ns :=
  List.mergeSort_of_pairwise (h.imp fun h => decide_eq_true h)

end Estree

namespace Node

/-- The names are those of the identifiers to which some ways lead, one for each
way, in the order in which they start. -/
def Enumerates (names : List String) (leadsTo : List Nat → Node → Prop) : Prop :=
  ∃ found : List Occurrence, (∀ way m, (way, m) ∈ found ↔ leadsTo way m) ∧
    (found.Pairwise fun earlier later => earlier.2.span.start < later.2.span.start) ∧
    names.map Form.identifier = found.map fun occurrence => occurrence.2.form

/-- **Bound names are complete and in source order.**  A pattern, and likewise the
parameters of a function, give one name for each identifier in binding position, in
the order in which these start.  If the tree is read from a document, they are the
identifiers in binding position in the document; there no parameter behind the
first one is named `this`, and the first one so named binds nothing. -/
theorem boundNames_inSourceOrder :
    (∀ pattern : Node, pattern.InOrder → Enumerates pattern.boundNames pattern.Binds) ∧
    (∀ f : Node, f.InOrder → Enumerates f.parameterNames f.BindsParameter) ∧
    (∀ role members pattern, pattern ∈ Estree.nodes role (.obj members) → ∀ name span,
      (∃ way m, pattern.Binds way m ∧ m.form = .identifier name ∧ m.span = span) ↔
        Estree.Binds members name span) ∧
    (∀ role members f, f ∈ Estree.nodes role (.obj members) → f.form.isFunction = true →
      (∀ position parameter, f.ParameterAt position parameter →
        parameter.form ≠ .identifier "this") → ∀ name span,
      (∃ way m, f.BindsParameter way m ∧ m.form = .identifier name ∧ m.span = span) ↔
        Estree.BindsParameter members name span) := by
  refine ⟨fun pattern inOrder => ?_, fun f inOrder => ?_, ?_, ?_⟩
  · exact ⟨pattern.bindings, fun _ _ => mem_bindings, pairwise_bindings inOrder,
      pattern.map_form_bindings⟩
  · exact ⟨f.parameterBindings, fun _ _ => mem_parameterBindings,
      pairwise_parameterBindings inOrder, f.map_form_parameterBindings⟩
  · exact fun _ _ _ hpattern _ _ => Estree.binds_iff hpattern
  · exact fun _ _ _ hf hfunction hthis _ _ => Estree.bindsParameter_iff hf hfunction hthis

/-- The members that head a node. -/
def headed (type : String) (start stop : Nat) : Estree.Members :=
  [("type", .str type), ("start", .ofNat start), ("end", .ofNat stop)]

/-- An identifier as a document. -/
def word (name : String) (start stop : Nat) : Json :=
  .obj (headed "Identifier" start stop ++ [("name", .str name)])

/-- The pattern of `function f(this, {[k]: [, c = d], ...r}, ...h) {}` as a document: a
computed key, a hole, a default value and a rest. -/
def destructuring : Estree.Members :=
  headed "ObjectPattern" 17 39 ++
    [("properties", .arr
      [.obj (headed "Property" 18 32 ++
        [("key", word "k" 19 20),
          ("value", .obj (headed "ArrayPattern" 23 32 ++
            [("elements", .arr [.null, .obj (headed "AssignmentPattern" 26 31 ++
              [("left", word "c" 26 27), ("right", word "d" 30 31)])])]))]),
        .obj (headed "RestElement" 34 38 ++ [("argument", word "r" 37 38)])])]

/-- The whole function as a document. -/
def receiving : Estree.Members :=
  headed "FunctionDeclaration" 0 49 ++
    [("id", word "f" 9 10),
      ("params", .arr [word "this" 11 15, .obj destructuring,
        .obj (headed "RestElement" 41 45 ++ [("argument", word "h" 44 45)])]),
      ("body", .obj (headed "BlockStatement" 47 49 ++ [("body", .arr [])]))]

/-- The pattern as a tree. -/
def destructured : Node :=
  ⟨.parameter, .objectPattern, ⟨17, 39⟩,
    [⟨.subject, .property, ⟨18, 32⟩,
      [⟨.other, .identifier "k", ⟨19, 20⟩, []⟩,
        ⟨.subject, .arrayPattern, ⟨23, 32⟩,
          [⟨.subject, .defaulted, ⟨26, 31⟩,
            [⟨.subject, .identifier "c", ⟨26, 27⟩, []⟩,
              ⟨.other, .identifier "d", ⟨30, 31⟩, []⟩]⟩]⟩]⟩,
      ⟨.subject, .restElement, ⟨34, 38⟩, [⟨.subject, .identifier "r", ⟨37, 38⟩, []⟩]⟩]⟩

/-- The function as a tree. -/
def receiver : Node :=
  ⟨.statement, .function .declaration (some "f"), ⟨0, 49⟩,
    [⟨.other, .identifier "f", ⟨9, 10⟩, []⟩, ⟨.parameter, .identifier "this", ⟨11, 15⟩, []⟩,
      destructured,
      ⟨.parameter, .restElement, ⟨41, 45⟩, [⟨.subject, .identifier "h", ⟨44, 45⟩, []⟩]⟩,
      ⟨.body, .statementList, ⟨47, 49⟩, []⟩]⟩

/-- What the objects of the example are read as, type by type.  The tables of types are
opened by evaluation, as their equations are long. -/
theorem forms_receiving (members : Estree.Members) :
    Estree.form "Identifier" members =
        .identifier (((members.lookup "name").bind Json.text?).getD "") ∧
      Estree.form "ObjectPattern" members = .objectPattern ∧
      Estree.form "Property" members = .property ∧
      Estree.form "ArrayPattern" members = .arrayPattern ∧
      Estree.form "AssignmentPattern" members = .defaulted ∧
      Estree.form "RestElement" members = .restElement ∧
      Estree.form "BlockStatement" members = .statementList ∧
      Estree.form "FunctionDeclaration" members =
        .function .declaration (Estree.identifierName? members "id") :=
  ⟨rfl, rfl, rfl, rfl, rfl, rfl, rfl, rfl⟩

/-- In which roles the members of the example are read. -/
theorem roles_receiving :
    Estree.role "ObjectPattern" "properties" = .subject ∧
      Estree.role "Property" "key" = .other ∧ Estree.role "Property" "value" = .subject ∧
      Estree.role "ArrayPattern" "elements" = .subject ∧
      Estree.role "AssignmentPattern" "left" = .subject ∧
      Estree.role "AssignmentPattern" "right" = .other ∧
      Estree.role "RestElement" "argument" = .subject ∧
      Estree.role "FunctionDeclaration" "id" = .other ∧
      Estree.role "FunctionDeclaration" "params" = .parameter ∧
      Estree.role "FunctionDeclaration" "body" = .body := by
  decide

theorem nodes_destructuring :
    Estree.nodes .parameter (.obj destructuring) = [destructured] := by
  simp [destructuring, destructured, headed, word, Estree.nodes, Estree.nodesIn, Estree.children,
    Estree.heading?, Estree.assemble, Estree.isTrue, forms_receiving, roles_receiving,
    Estree.inOrder_of_pairwise, List.lookup_cons, Json.ofNat, Json.text?, Json.nat?]

theorem nodes_receiving : Estree.nodes .statement (.obj receiving) = [receiver] := by
  simp [receiving, receiver, destructuring, destructured, headed, word, Estree.nodes,
    Estree.nodesIn, Estree.children, Estree.heading?, Estree.assemble, Estree.isTrue,
    Estree.identifierName?, forms_receiving, roles_receiving, Estree.inOrder_of_pairwise,
    List.lookup_cons, Json.ofNat, Json.text?, Json.nat?, Json.get?]

/-- Neither the key, the default value nor `this` is bound; what the hole leaves
free and both rests are. -/
theorem boundNames_inSourceOrder_destructured :
    (destructured ∈ Estree.nodes .parameter (.obj destructuring) ∧ destructured.InOrder ∧
      Enumerates destructured.boundNames destructured.Binds ∧
      destructured.boundNames = ["c", "r"] ∧
      ∀ name span, Estree.Binds destructuring name span ↔
        (name, span) = ("c", ⟨26, 27⟩) ∨ (name, span) = ("r", ⟨37, 38⟩)) ∧
    (receiver ∈ Estree.nodes .statement (.obj receiving) ∧ receiver.InOrder ∧
      Enumerates receiver.parameterNames receiver.BindsParameter ∧
      receiver.parameterNames = ["c", "r", "h"] ∧
      ∀ name span, Estree.BindsParameter receiving name span ↔
        (name, span) = ("c", ⟨26, 27⟩) ∨ (name, span) = ("r", ⟨37, 38⟩) ∨
          (name, span) = ("h", ⟨44, 45⟩)) := by
  obtain ⟨hpattern, hfunction, hbinds, hbindsParameter⟩ := boundNames_inSourceOrder
  have hdestructured : destructured ∈ Estree.nodes .parameter (.obj destructuring) := by
    simp [nodes_destructuring]
  have hreceiver : receiver ∈ Estree.nodes .statement (.obj receiving) := by
    simp [nodes_receiving]
  refine ⟨⟨hdestructured, by decide, hpattern _ (by decide), by decide, fun name span => ?_⟩,
    hreceiver, by decide, hfunction _ (by decide), by decide, fun name span => ?_⟩
  · have hlist : destructured.bindings =
        [([0, 1, 0, 0], ⟨.subject, .identifier "c", ⟨26, 27⟩, []⟩),
          ([1, 0], ⟨.subject, .identifier "r", ⟨37, 38⟩, []⟩)] := by rfl
    rw [← hbinds _ _ _ hdestructured]
    simp [← mem_bindings, hlist, or_and_right, exists_or, and_assoc, eq_comm]
  · have hlist : receiver.parameterBindings =
        [([2, 0, 1, 0, 0], ⟨.subject, .identifier "c", ⟨26, 27⟩, []⟩),
          ([2, 1, 0], ⟨.subject, .identifier "r", ⟨37, 38⟩, []⟩),
          ([3, 0], ⟨.subject, .identifier "h", ⟨44, 45⟩, []⟩)] := by rfl
    have hthis : ∀ position parameter, receiver.ParameterAt position parameter →
        parameter.form ≠ .identifier "this" := by
      intro position parameter h
      have hforms : ∀ child ∈ receiver.parametersOf, child.1.form ≠ .identifier "this" := by decide
      exact hforms (parameter, position) (mem_parametersOf.2 h)
    rw [← hbindsParameter _ _ _ hreceiver rfl hthis]
    simp [← mem_parameterBindings, hlist, or_and_right, exists_or, and_assoc, eq_comm]

end Node
end ScopeTrack
