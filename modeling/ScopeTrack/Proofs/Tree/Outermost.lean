/-
# The outermost object of a target

From a member access one comes to its object, from parentheses to what they
enclose (`Node.Strips`).  This goes on until nothing can be taken off any more
(`exists_endsIn`).  A target that is a member access is the variable that is left
at the end, or has the label of what is left (`outermost_of_reaches`,
`outermost_of_bare`); a target of another form is not stripped.

Nothing else of the chain counts.  So a target stays the same when one of its
objects is put in parentheses (`Wrapped.exists_endsIn`), or when it becomes the
object of further member accesses, whatever their keys are.
-/

import ScopeTrack.Tree.Resolve
import Mathlib.Logic.Relation

namespace ScopeTrack
namespace Node

/-- One step towards the outermost object. -/
inductive Strips : Node → Node → Prop where
  /-- Parentheses are taken off. -/
  | parentheses {n inner : Node} (form : n.form = .parenthesized)
      (subject : n.child? .subject = some inner) : Strips n inner
  /-- The object of a member access is taken; its key may be anything. -/
  | member {n object : Node} {access : Access} (form : n.form = .member access)
      (subject : n.child? .subject = some object) : Strips n object

/-- Any number of steps towards the outermost object. -/
abbrev Reaches : Node → Node → Prop :=
  Relation.ReflTransGen Strips

/-- What is left when nothing can be taken off any more. -/
structure EndsIn (n last : Node) : Prop where
  reaches : n.Reaches last
  bare : ∀ next, ¬last.Strips next

/-- The label of a target that is not a variable. -/
inductive Labelled (left : Node) : String → Prop where
  | thisExpression {access : Access} {last : Node} (member : left.form = .member access)
      (reaches : left.Reaches last) (form : last.form = .thisExpression) :
      Labelled left "ThisExpression"
  | superExpression {access : Access} {last : Node} (member : left.form = .member access)
      (reaches : left.Reaches last) (form : last.form = .superExpression) : Labelled left "Super"
  | call {access : Access} {last : Node} (member : left.form = .member access)
      (reaches : left.Reaches last) (form : last.form = .call) : Labelled left "CallExpression"
  /-- Anything else that is left at the end. -/
  | expression {access : Access} {last : Node} (member : left.form = .member access)
      (ends : left.EndsIn last) (notName : ∀ name, last.form ≠ .identifier name)
      (notThis : last.form ≠ .thisExpression) (notSuper : last.form ≠ .superExpression)
      (notCall : last.form ≠ .call) : Labelled left "Expression"
  | pattern (form : left.form = .arrayPattern ∨ left.form = .objectPattern) :
      Labelled left "DestructuringAssignment"
  /-- Any other target; its parts do not count. -/
  | assertion (notName : ∀ name, left.form ≠ .identifier name)
      (notMember : ∀ access, left.form ≠ .member access) (notArray : left.form ≠ .arrayPattern)
      (notObject : left.form ≠ .objectPattern) : Labelled left "TypeAssertion"

/-- The second node is the first with one of the objects on its way to the
outermost one in parentheses; keys and spans may differ. -/
inductive Wrapped : Node → Node → Prop where
  | object {n n' inner parentheses : Node} (form : n'.form = n.form) (strips : n.Strips inner)
      (strips' : n'.Strips parentheses) (wraps : parentheses.form = .parenthesized)
      (encloses : parentheses.child? .subject = some inner) : Wrapped n n'
  | inside {n n' inner inner' : Node} (form : n'.form = n.form) (strips : n.Strips inner)
      (strips' : n'.Strips inner') (wrapped : Wrapped inner inner') : Wrapped n n'

/-! ## Stripping -/

/-- Only parentheses and member accesses are stripped, and only to their
subject. -/
theorem strips_iff {n next : Node} :
    n.Strips next ↔
      (n.form = .parenthesized ∨ ∃ access, n.form = .member access) ∧
        n.child? .subject = some next := by
  constructor
  · rintro (⟨hform, hsubject⟩ | ⟨hform, hsubject⟩)
    · exact ⟨.inl hform, hsubject⟩
    · exact ⟨.inr ⟨_, hform⟩, hsubject⟩
  · rintro ⟨hform | ⟨access, hform⟩, hsubject⟩
    · exact .parentheses hform hsubject
    · exact .member hform hsubject

/-- **Stripping comes to an end.**  -/
theorem exists_endsIn (n : Node) : ∃ last, n.EndsIn last := by
  induction n using Node.induction with
  | node role form span children ih =>
    by_cases h : ∃ next, Strips ⟨role, form, span, children⟩ next
    · obtain ⟨next, hnext⟩ := h
      obtain ⟨last, hlast⟩ := ih next (List.mem_of_find?_eq_some (strips_iff.1 hnext).2)
      exact ⟨last, .head hnext hlast.reaches, hlast.bare⟩
    · exact ⟨_, .refl, not_exists.1 h⟩

/-- Identifiers and the other ends are not stripped. -/
theorem endsIn_of_reaches {n last : Node} (h : n.Reaches last)
    (parentheses : last.form ≠ .parenthesized) (member : ∀ access, last.form ≠ .member access) :
    n.EndsIn last := by
  refine ⟨h, fun next hnext => ?_⟩
  rcases (strips_iff.1 hnext).1 with hform | ⟨access, hform⟩
  · exact parentheses hform
  · exact member access hform

/-! ## The outermost object -/

/-- The outermost object among some trees is that of the first subject, or has a label
if there is none. -/
theorem outermostIn_eq (ns : List Node) :
    outermostIn ns =
      ((ns.find? fun n => n.role = .subject).map outermost).getD (.unresolved "Expression") := by
  induction ns with
  | nil => rw [outermostIn]; rfl
  | cons n ns ih =>
    rw [outermostIn, List.find?_cons]
    by_cases h : n.role = .subject
    · simp [h]
    · simp [h, ih]

/-- Parentheses and member accesses have the outermost object of their subject. -/
theorem outermost_of_form {n : Node}
    (h : n.form = .parenthesized ∨ ∃ access, n.form = .member access) :
    n.outermost = ((n.child? .subject).map outermost).getD (.unresolved "Expression") := by
  obtain ⟨role, form, span, children⟩ := n
  rcases h with h | ⟨access, h⟩
  · obtain rfl : form = .parenthesized := h
    rw [outermost, outermostIn_eq]
    rfl
  · obtain rfl : form = .member access := h
    rw [outermost, outermostIn_eq]
    rfl

/-- **Stripping keeps the outermost object.**  -/
theorem outermost_of_reaches {n last : Node} (h : n.Reaches last) :
    n.outermost = last.outermost := by
  induction h using Relation.ReflTransGen.head_induction_on with
  | refl => rfl
  | head hstep _ ih =>
    obtain ⟨hform, hsubject⟩ := strips_iff.1 hstep
    rw [outermost_of_form hform, hsubject, ← ih]
    rfl

/-- What cannot be stripped is a variable, or has a label. -/
theorem outermost_of_bare {last : Node} (bare : ∀ next, ¬last.Strips next) :
    last.outermost =
      match last.form with
      | .identifier name => .named name
      | .thisExpression => .unresolved "ThisExpression"
      | .superExpression => .unresolved "Super"
      | .call => .unresolved "CallExpression"
      | _ => .unresolved "Expression" := by
  by_cases h : last.form = .parenthesized ∨ ∃ access, last.form = .member access
  · -- Without a subject there is nothing to take.
    have hsubject : last.child? .subject = none := by
      rw [Option.eq_none_iff_forall_ne_some]
      exact fun next hnext => bare next (strips_iff.2 ⟨h, hnext⟩)
    rw [outermost_of_form h, hsubject]
    rcases h with h | ⟨access, h⟩ <;> rw [h] <;> rfl
  · obtain ⟨role, form, span, children⟩ := last
    cases form <;> simp_all [outermost]

/-- A target that is a member access is its outermost object. -/
theorem asTarget_of_member {left : Node} {access : Access} (h : left.form = .member access) :
    left.asTarget = left.outermost := by
  rw [outermost_of_form (.inr ⟨access, h⟩), asTarget, h, child?, ← outermostIn_eq]

/-- **A member access is the variable at its end, or has the label of what is
there.**  -/
theorem asTarget_of_endsIn {left last : Node} {access : Access} (h : left.form = .member access)
    (ends : left.EndsIn last) :
    left.asTarget =
      match last.form with
      | .identifier name => .named name
      | .thisExpression => .unresolved "ThisExpression"
      | .superExpression => .unresolved "Super"
      | .call => .unresolved "CallExpression"
      | _ => .unresolved "Expression" := by
  rw [asTarget_of_member h, outermost_of_reaches ends.reaches, outermost_of_bare ends.bare]

/-- **A target is a variable just if it is one itself, or a member access at whose end
there is one.**  -/
theorem asTarget_eq_named_iff {left : Node} {name : String} :
    left.asTarget = .named name ↔
      left.form = .identifier name ∨
        (∃ access, left.form = .member access) ∧
          ∃ last, left.Reaches last ∧ last.form = .identifier name := by
  constructor
  · intro h
    by_cases hmember : ∃ access, left.form = .member access
    · obtain ⟨access, hform⟩ := hmember
      obtain ⟨last, ends⟩ := left.exists_endsIn
      rw [asTarget_of_endsIn hform ends] at h
      refine .inr ⟨⟨access, hform⟩, last, ends.reaches, ?_⟩
      split at h
      · next hlast => rw [hlast, Target.named.inj h]
      all_goals cases h
    · refine .inl ?_
      unfold asTarget at h
      split at h
      · next hform => rw [hform, Target.named.inj h]
      · next hform => exact absurd ⟨_, hform⟩ hmember
      all_goals cases h
  · rintro (hform | ⟨⟨access, hform⟩, last, reaches, hlast⟩)
    · rw [asTarget, hform]
    · have ends := endsIn_of_reaches reaches (by simp [hlast]) (by simp [hlast])
      rw [asTarget_of_endsIn hform ends, hlast]

/-- A target with a label is not known, and the label is what is reported. -/
theorem Labelled.asTarget_eq {left : Node} {label : String} (h : left.Labelled label) :
    left.asTarget = .unresolved label := by
  cases h with
  | thisExpression member reaches form | superExpression member reaches form
  | call member reaches form =>
    have ends := endsIn_of_reaches reaches (by simp [form]) (by simp [form])
    rw [asTarget_of_endsIn member ends, form]
  | expression member ends notName notThis notSuper notCall =>
    rw [asTarget_of_endsIn member ends]
    split <;> simp_all
  | pattern form => rcases form with form | form <;> rw [asTarget, form]
  | assertion notName notMember notArray notObject =>
    unfold asTarget
    split <;> simp_all

/-- Every target that is no variable has a label. -/
theorem labelled_of_asTarget {left : Node} {label : String}
    (h : left.asTarget = .unresolved label) : left.Labelled label := by
  -- A member access has the label of what is left at its end, and all else one of its own.
  by_cases hmember : ∃ access, left.form = .member access
  · obtain ⟨access, hform⟩ := hmember
    obtain ⟨last, ends⟩ := left.exists_endsIn
    rw [asTarget_of_endsIn hform ends] at h
    split at h
    · cases h
    · next hlast => exact Target.unresolved.inj h ▸ .thisExpression hform ends.reaches hlast
    · next hlast => exact Target.unresolved.inj h ▸ .superExpression hform ends.reaches hlast
    · next hlast => exact Target.unresolved.inj h ▸ .call hform ends.reaches hlast
    · next notName notThis notSuper notCall =>
      exact Target.unresolved.inj h ▸ .expression hform ends notName notThis notSuper notCall
  · unfold asTarget at h
    split at h
    · cases h
    · next hform => exact absurd ⟨_, hform⟩ hmember
    · next hform => exact Target.unresolved.inj h ▸ .pattern (.inl hform)
    · next hform => exact Target.unresolved.inj h ▸ .pattern (.inr hform)
    · next notName notMember notArray notObject =>
      exact Target.unresolved.inj h ▸ .assertion notName notMember notArray notObject

/-- Parentheses around an object do not change where stripping ends. -/
theorem Wrapped.exists_endsIn {n n' : Node} (h : Wrapped n n') :
    ∃ last, n.EndsIn last ∧ n'.EndsIn last := by
  induction h with
  | @object n n' inner parentheses _ strips strips' wraps encloses =>
    obtain ⟨last, hlast⟩ := Node.exists_endsIn inner
    exact ⟨last, ⟨.head strips hlast.reaches, hlast.bare⟩,
      ⟨.head strips' (.head (.parentheses wraps encloses) hlast.reaches), hlast.bare⟩⟩
  | inside _ strips strips' _ ih =>
    obtain ⟨last, hlast, hlast'⟩ := ih
    exact ⟨last, ⟨.head strips hlast.reaches, hlast.bare⟩,
      ⟨.head strips' hlast'.reaches, hlast'.bare⟩⟩

theorem Wrapped.form_eq {n n' : Node} (h : Wrapped n n') : n'.form = n.form := by
  cases h with
  | object form | inside form => exact form

/-- **A target is its outermost object.**  A target is the variable `x` just if it
is the identifier `x`, or a member access from which one comes to the identifier
`x` by taking objects and taking off parentheses.  It has no variable just if it
has a label, and the label says what is left at the end, or of which form the
target is.  So parentheses around an object do not count, nor do further member
accesses that are put on top of a member access. -/
theorem asTarget_outermost (left : Node) :
    (∀ x, left.asTarget = .named x ↔
      left.form = .identifier x ∨
        (∃ access, left.form = .member access) ∧
          ∃ last, left.Reaches last ∧ last.form = .identifier x) ∧
      (∀ label, left.asTarget = .unresolved label ↔ left.Labelled label) ∧
      (∀ access wrapped, left.form = .member access → left.Wrapped wrapped →
        wrapped.asTarget = left.asTarget) ∧
      ∀ (access access' : Access) (top : Node), left.form = .member access →
        top.form = .member access' → top.Reaches left → top.asTarget = left.asTarget := by
  refine ⟨fun x => asTarget_eq_named_iff,
    fun label => ⟨labelled_of_asTarget, Labelled.asTarget_eq⟩, ?_, ?_⟩
  · intro access wrapped hform hwrapped
    obtain ⟨last, ends, ends'⟩ := hwrapped.exists_endsIn
    rw [asTarget_of_endsIn hform ends, asTarget_of_endsIn (hwrapped.form_eq.trans hform) ends']
  · intro access access' top hform htop hreaches
    rw [asTarget_of_member hform, asTarget_of_member htop, outermost_of_reaches hreaches]

/-- The object `a` of `accessed`. -/
def accessedObject : Node :=
  ⟨.subject, .identifier "a", ⟨0, 1⟩, []⟩

/-- The target `a[b = c].d`. -/
def accessed : Node :=
  ⟨.subject, .member (.property "d"), ⟨0, 10⟩, [
    ⟨.subject, .member .computed, ⟨0, 8⟩, [
      accessedObject,
      ⟨.other, .assignment, ⟨2, 7⟩, [
        ⟨.subject, .identifier "b", ⟨2, 3⟩, []⟩,
        ⟨.value, .identifier "c", ⟨6, 7⟩, []⟩]⟩]⟩,
    ⟨.other, .identifier "d", ⟨9, 10⟩, []⟩]⟩

/-- The target `(a)[k].d`. -/
def accessedInParentheses : Node :=
  ⟨.subject, .member (.property "d"), ⟨0, 8⟩, [
    ⟨.subject, .member .computed, ⟨0, 6⟩, [
      ⟨.subject, .parenthesized, ⟨0, 3⟩, [accessedObject]⟩,
      ⟨.other, .identifier "k", ⟨4, 5⟩, []⟩]⟩,
    ⟨.other, .identifier "d", ⟨7, 8⟩, []⟩]⟩

/-- The target `a[b = c].d.#p`. -/
def accessedFurther : Node :=
  ⟨.subject, .member .privateName, ⟨0, 13⟩, [
    accessed,
    ⟨.other, .other, ⟨11, 13⟩, []⟩]⟩

/-- An assignment in a key is not looked at, parentheses and a further access do
not count: all three targets are the variable `a`. -/
theorem asTarget_outermost_accessed :
    accessed.form = .member (.property "d") ∧ accessed.Wrapped accessedInParentheses ∧
      accessedFurther.form = .member .privateName ∧ accessedFurther.Reaches accessed ∧
      accessed.asTarget = .named "a" ∧ accessedInParentheses.asTarget = .named "a" ∧
      accessedFurther.asTarget = .named "a" := by
  obtain ⟨hnamed, -, hwrapped, hfurther⟩ := asTarget_outermost accessed
  have reaches : accessed.Reaches accessedObject :=
    .head (.member rfl rfl) (.head (.member rfl rfl) .refl)
  have wrapped : accessed.Wrapped accessedInParentheses :=
    .inside rfl (.member rfl rfl) (.member rfl rfl)
      (.object rfl (.member rfl rfl) (.member rfl rfl) rfl rfl)
  have further : accessedFurther.Reaches accessed := .head (.member rfl rfl) .refl
  have htarget : accessed.asTarget = .named "a" :=
    (hnamed "a").2 (.inr ⟨⟨_, rfl⟩, accessedObject, reaches, rfl⟩)
  refine ⟨rfl, wrapped, rfl, further, htarget, ?_, ?_⟩
  · exact (hwrapped _ _ rfl wrapped).trans htarget
  · exact (hfurther _ _ _ rfl rfl further).trans htarget

end Node
end ScopeTrack
