/-
# How a tree is laid out over a source text

A node surrounds a point of the text if it starts before the point and stops
after it: something that is put at the point stands inside the node.  In a tree
that a parser delivers no node stops after a node around it, functions start
before all that is in them, and what is in different children of a node does not
overlap (`Node.LaidOut`).  Two things are allowed: a decorator may stand in front
of the class that it belongs to, and the name of a shorthand property is both its
key and its value.

At the end of a line the nodes that surround it lie one in the other
(`LaidOut.nested`), so the innermost of them is found below any of them
(`LaidOut.innermostAt_iff`), and with it whether what is put there cuts something
in two (`LaidOut.betweenStatements_iff`).
-/

import ScopeTrack.Proofs.Source.LineEnds
import ScopeTrack.Proofs.Tree.Names

namespace ScopeTrack

/-- The point is strictly inside the span. -/
def Span.Surrounds (span : Span) (point : Nat) : Prop :=
  span.start < point ∧ point < span.stop

instance (span : Span) (point : Nat) : Decidable (span.Surrounds point) :=
  inferInstanceAs (Decidable (span.start < point ∧ point < span.stop))

/-- Whether nodes of this form are places where statements follow one another. -/
def Form.holdsStatements : Form → Bool
  | .program => true
  | .statementList => true
  | _ => false

/-- Whether nodes of this form are identifiers. -/
def Form.isIdentifier : Form → Bool
  | .identifier _ => true
  | _ => false

theorem Form.isIdentifier_of_isChanging {form : Form} (h : form.isChanging = true) :
    form.isIdentifier = false := by
  cases form <;> simp_all [isChanging, isIdentifier]

namespace Node

/-- An identifier that starts and stops on one line. -/
def IsWord (lines : LineIndex) (n : Node) : Prop :=
  n.form.isIdentifier = true ∧ lines.lineOf n.span.start = lines.lineOf n.span.stop

instance (lines : LineIndex) (n : Node) : Decidable (n.IsWord lines) :=
  inferInstanceAs (Decidable (_ ∧ _))

/-- One node stops before the other starts; only identifiers may overlap. -/
def Precedes (lines : LineIndex) (a b : Node) : Prop :=
  a.span.stop ≤ b.span.start ∨ a.IsWord lines ∨ b.IsWord lines

instance (lines : LineIndex) (a b : Node) : Decidable (a.Precedes lines b) :=
  inferInstanceAs (Decidable (_ ∨ _ ∨ _))

/-- A tree with the spans that a parser gives to the constructs of a source
text. -/
structure LaidOut (source : String) (program : Node) : Prop where
  size : program.span.stop ≤ source.utf8ByteSize
  stops : ∀ n ∈ program.nodes, ∀ m ∈ n.nodes, m.span.stop ≤ n.span.stop
  functions : ∀ f ∈ program.nodes, f.form.isFunction = true →
    ∀ m ∈ f.nodes, f.span.start ≤ m.span.start
  changing : ∀ n ∈ program.nodes, n.form.isChanging = true → n.span.start < n.span.stop
  ordered : ∀ n ∈ program.nodes, n.children.Pairwise fun earlier later =>
    ∀ a ∈ earlier.nodes, ∀ b ∈ later.nodes, a.Precedes (LineIndex.ofText source) b

/-- A node of the tree that surrounds the point, and nothing in it does. -/
structure InnermostAt (tree : Node) (point : Nat) (m : Node) : Prop where
  mem : m ∈ tree.nodes
  surrounds : m.span.Surrounds point
  innermost : ∀ k ∈ nodesIn m.children, ¬k.span.Surrounds point

/-- What is put at the point cuts nothing in two: it is outside the tree, or the
innermost node around it holds statements. -/
def BetweenStatements (tree : Node) (point : Nat) : Prop :=
  ∀ m, tree.InnermostAt point m → m.form.holdsStatements = true

/-! ## Nodes that lie one in the other -/

/-- Of two nodes of a tree, one lies in the other, or one precedes the other. -/
theorem mem_or_precedes {lines : LineIndex} (n : Node)
    (ordered : ∀ m ∈ n.nodes, m.children.Pairwise fun earlier later =>
      ∀ a ∈ earlier.nodes, ∀ b ∈ later.nodes, a.Precedes lines b)
    {a b : Node} (ha : a ∈ n.nodes) (hb : b ∈ n.nodes) :
    (a ∈ b.nodes ∨ b ∈ a.nodes) ∨ a.Precedes lines b ∨ b.Precedes lines a := by
  induction n using Node.induction generalizing a b with
  | node role form span children ih =>
      have hwhole_a := ha
      have hwhole_b := hb
      rw [nodes_eq, List.mem_cons] at ha hb
      rcases ha with rfl | ha
      · exact .inl (.inr hwhole_b)
      rcases hb with rfl | hb
      · exact .inl (.inl hwhole_a)
      obtain ⟨x, hx, ha⟩ := mem_nodesIn.1 ha
      obtain ⟨y, hy, hb⟩ := mem_nodesIn.1 hb
      have hchildren := ordered _ (mem_nodes_self _)
      -- Either both are in one child, or their children come in some order.
      refine List.Pairwise.forall_of_forall_of_flip
        (R := fun x y => ∀ a ∈ x.nodes, ∀ b ∈ y.nodes,
          (a ∈ b.nodes ∨ b ∈ a.nodes) ∨ a.Precedes lines b ∨ b.Precedes lines a)
        ?_ ?_ ?_ hx hy a ha b hb
      · intro child hchild a ha b hb
        exact ih child hchild (fun m hm => ordered m (mem_nodes_of_child hchild hm)) ha hb
      · exact hchildren.imp fun h a ha b hb => .inr (.inl (h a ha b hb))
      · exact hchildren.imp fun h b hb a ha => .inr (.inr (h a ha b hb))

namespace LaidOut

variable {source : String} {program : Node} (laid : program.LaidOut source)
include laid

theorem stop_le_size {n : Node} (hn : n ∈ program.nodes) :
    n.span.stop ≤ source.utf8ByteSize :=
  Nat.le_trans (laid.stops program (mem_nodes_self program) n hn) laid.size

section

variable (hcount : (LineIndex.ofText source).lineCount < UInt32.size) {number : Nat}
  (hpos : 1 ≤ number) (hnumber : number ≤ (LineIndex.ofText source).lineCount)
include hcount hpos hnumber

/-- A node stops behind the end of a line just if it stops on a later line. -/
theorem lineEnd_lt_stop_iff {n : Node} (hn : n ∈ program.nodes) :
    Text.lineEnd source number < n.span.stop ↔
      number < (LineIndex.ofText source).lineOf n.span.stop := by
  have hline := LineIndex.lineOf_le_iff hcount hpos hnumber (laid.stop_le_size hn)
  omega

/-- No line ends inside an identifier. -/
theorem not_surrounds_of_isWord {n : Node} (hn : n ∈ program.nodes)
    (hword : n.IsWord (LineIndex.ofText source)) :
    ¬n.span.Surrounds (Text.lineEnd source number) := by
  rintro ⟨hstart, hstop⟩
  have hbound := laid.stop_le_size hn
  have hwithin : n.span.start ≤ source.utf8ByteSize := by omega
  have hfirst := LineIndex.lineOf_le_iff hcount hpos hnumber hwithin
  have hlast := laid.lineEnd_lt_stop_iff hcount hpos hnumber hn
  have hsame := hword.2
  omega

/-- What precedes a construct that starts before the end of a line does not go on
after the line. -/
theorem not_surrounds_of_precedes {a b : Node} (ha : a ∈ program.nodes)
    (hb : b.form.isIdentifier = false) (hprecedes : a.Precedes (LineIndex.ofText source) b)
    (hstart : b.span.start ≤ Text.lineEnd source number) :
    ¬a.span.Surrounds (Text.lineEnd source number) := by
  rcases hprecedes with hstop | hword | hword
  · rintro ⟨-, hlt⟩
    omega
  · exact laid.not_surrounds_of_isWord hcount hpos hnumber ha hword
  · rw [hword.1] at hb
    cases hb

/-- **Nodes around the end of a line lie one in the other.**  -/
theorem nested {a b : Node} (ha : a ∈ program.nodes) (hb : b ∈ program.nodes)
    (hsa : a.span.Surrounds (Text.lineEnd source number))
    (hsb : b.span.Surrounds (Text.lineEnd source number)) : a ∈ b.nodes ∨ b ∈ a.nodes := by
  have hna : ¬a.IsWord (LineIndex.ofText source) := fun hword =>
    laid.not_surrounds_of_isWord hcount hpos hnumber ha hword hsa
  have hnb : ¬b.IsWord (LineIndex.ofText source) := fun hword =>
    laid.not_surrounds_of_isWord hcount hpos hnumber hb hword hsb
  obtain ⟨hstart_a, hstop_a⟩ := hsa
  obtain ⟨hstart_b, hstop_b⟩ := hsb
  rcases mem_or_precedes program laid.ordered ha hb with h | (h | h | h) | (h | h | h)
  · exact h
  · omega
  · exact absurd h hna
  · exact absurd h hnb
  · omega
  · exact absurd h hnb
  · exact absurd h hna

/-- **The innermost node is found below any node around the end of a line.**  -/
theorem innermostAt_iff {around : Node} (haround : around ∈ program.nodes)
    (hsurrounds : around.span.Surrounds (Text.lineEnd source number)) (m : Node) :
    program.InnermostAt (Text.lineEnd source number) m ↔
      around.InnermostAt (Text.lineEnd source number) m := by
  constructor
  · intro h
    refine ⟨?_, h.surrounds, h.innermost⟩
    rcases laid.nested hcount hpos hnumber h.mem haround h.surrounds hsurrounds with hin | hin
    · exact hin
    · rw [nodes_eq, List.mem_cons] at hin
      rcases hin with rfl | hin
      · exact mem_nodes_self around
      · exact absurd hsurrounds (h.innermost around hin)
  · intro h
    exact ⟨mem_nodes_trans haround h.mem, h.surrounds, h.innermost⟩

/-- **Whether a line ends between statements can be told from any node around its end.**
Nodes around it lie one in the other, so the innermost one below that node is the
innermost one of all. -/
theorem betweenStatements_iff {around : Node} (haround : around ∈ program.nodes)
    (hsurrounds : around.span.Surrounds (Text.lineEnd source number)) :
    program.BetweenStatements (Text.lineEnd source number) ↔
      around.BetweenStatements (Text.lineEnd source number) := by
  unfold BetweenStatements
  simp only [laid.innermostAt_iff hcount hpos hnumber haround hsurrounds]

/-- What is put at the end of the last line is behind the whole tree. -/
theorem betweenStatements_of_last
    (hlast : (LineIndex.ofText source).lineOf program.span.stop ≤ number) :
    program.BetweenStatements (Text.lineEnd source number) := by
  intro m hm
  have hwhole := laid.stops program (mem_nodes_self program) m hm.mem
  have hlater := laid.lineEnd_lt_stop_iff hcount hpos hnumber (mem_nodes_self program)
  obtain ⟨-, hlt⟩ := hm.surrounds
  omega

end
end LaidOut

/-- Where no child surrounds the point, a node that does is the innermost. -/
theorem innermostAt_self_iff {around m : Node} {point : Nat}
    (hsurrounds : around.span.Surrounds point)
    (hbelow : ∀ k ∈ nodesIn around.children, ¬k.span.Surrounds point) :
    around.InnermostAt point m ↔ m = around := by
  constructor
  · intro h
    have hm := h.mem
    rw [nodes_eq, List.mem_cons] at hm
    rcases hm with rfl | hm
    · rfl
    · exact absurd h.surrounds (hbelow m hm)
  · rintro rfl
    exact ⟨mem_nodes_self m, hsurrounds, hbelow⟩

/-- If nothing in a node surrounds the point, it is the innermost one itself. -/
theorem betweenStatements_self_iff {around : Node} {point : Nat}
    (hsurrounds : around.span.Surrounds point)
    (hbelow : ∀ k ∈ nodesIn around.children, ¬k.span.Surrounds point) :
    around.BetweenStatements point ↔ around.form.holdsStatements = true := by
  unfold BetweenStatements
  simp only [innermostAt_self_iff hsurrounds hbelow, forall_eq]

end Node
end ScopeTrack
