/-
# The names of functions

A function can be named in two places: it may give itself a name
(`Spot.ownName?`), and the declarator or the assignment that binds it may supply
one (`Spot.suppliedName?`).  Which of the two names the scope that the function
opens depends on how the function is written.

| function | its own name | supplied name | its scope is named by |
| --- | --- | --- | --- |
| declaration | maybe | none | its own name |
| expression | maybe | maybe | the supplied name |
| arrow | none | maybe | the supplied name |

So a scope goes without a name if there is none, but also if a function
expression has a name and its binding supplies none, as in `o[k] = function g() {}`:
the name of the function is overlooked (`Spot.opened?_eq_anonymous_iff`).

Whatever name a scope has stands somewhere in the tree
(`Node.exists_of_opened`).
-/

import ScopeTrack.Proofs.Tree.Names

namespace ScopeTrack

/-- The name that is written at nodes of this form. -/
def Form.name? : Form → Option String
  | .function _ name => name
  | .identifier name => some name
  | .member (.property name) => some name
  | _ => none

namespace Spot

/-- The name that a function gives itself; an arrow gives none. -/
def ownName? (q : Spot) : Option String :=
  match q.node.form with
  | .function .declaration name => name
  | .function .expression name => name
  | _ => none

/-- The name that its binding supplies to a function; declarations are not
bound. -/
def suppliedName? (q : Spot) : Option String :=
  match q.node.form, q.standing with
  | .function .expression _, .bound name => name
  | .function .arrow _, .bound name => name
  | _, _ => none

/-- Whether a function is named nowhere. -/
def lacksName (q : Spot) : Bool :=
  q.ownName?.isNone && q.suppliedName?.isNone

/-- Whether a function expression names itself while its binding supplies no
name. -/
def overlooksName (q : Spot) : Bool :=
  match q.node.form with
  | .function .expression own => own.isSome && q.standing = .bound none
  | _ => false

theorem lacksName_of_overlooksName {q : Spot} (h : q.overlooksName = true) :
    q.lacksName = false := by
  unfold overlooksName at h
  split at h
  · next own hform =>
      rw [Bool.and_eq_true] at h
      obtain ⟨name, rfl⟩ := Option.isSome_iff_exists.1 h.1
      simp [lacksName, ownName?, hform]
  · cases h

/-- **When a scope goes without a name.**  -/
theorem opened?_eq_anonymous_iff {q : Spot} (h : q.opened?.isSome = true) :
    q.opened? = some none ↔ q.lacksName = true ∨ q.overlooksName = true := by
  unfold opened? at h ⊢
  unfold lacksName overlooksName ownName? suppliedName?
  split at h
  · next hform => simp [hform]
  · next own name hform hstanding => cases own <;> simp [hform, hstanding]
  · next hform hstanding => simp [hform, hstanding]
  · cases h

end Spot

/-! ## Where the names of scopes come from -/

namespace Node

/-- A spot among some trees is in one of them, whose standing is plain or the one that
is handed on. -/
theorem mem_spotsIn_handed {q : Spot} {ns : List Node} {scope : String} {handed : Handed}
    (h : q ∈ spotsIn scope handed ns) :
    ∃ n ∈ ns, ∃ standing, q ∈ n.spots scope standing ∧
      (standing = .plain ∨ ∃ role, handed = some (role, standing)) := by
  induction ns generalizing handed with
  | nil => cases h
  | cons first ns ih =>
      rw [spotsIn, List.mem_append] at h
      rcases h with h | h
      · refine ⟨first, List.mem_cons_self, _, h, ?_⟩
        rcases handed with _ | ⟨role, standing⟩
        · exact .inl rfl
        · by_cases hrole : first.role = role
          · exact .inr ⟨role, by simp [Handed.standingOf, hrole]⟩
          · exact .inl (by simp [Handed.standingOf, hrole])
      · obtain ⟨n, hn, standing, hq, hstanding⟩ := ih h
        refine ⟨n, List.mem_cons_of_mem _ hn, standing, hq, hstanding.imp_right ?_⟩
        rintro ⟨role, hafter⟩
        rcases handed with _ | ⟨role', standing'⟩
        · cases hafter
        · by_cases hrole : first.role = role'
          · simp [Handed.after, hrole] at hafter
          · exact ⟨role, by simpa [Handed.after, hrole] using hafter⟩

/-- The name that the left side of a declarator or of an assignment supplies is
written there. -/
theorem name?_of_subject {n : Node} {nameOf? : Node → Option String} {name : String}
    (hname : ∀ m, nameOf? m = some name → m.form.name? = some name)
    (h : (n.child? .subject).bind nameOf? = some name) :
    ∃ m ∈ n.nodes, m.form.name? = some name := by
  obtain ⟨m, hm, hm'⟩ := Option.bind_eq_some_iff.1 h
  exact ⟨m, mem_nodes_of_child (mem_children_of_child? hm) (mem_nodes_self m), hname m hm'⟩

theorem name?_of_declaredName? {m : Node} {name : String} (h : m.declaredName? = some name) :
    m.form.name? = some name := by
  unfold declaredName? at h
  split at h
  · next hform => rw [hform]; exact h
  · cases h

/-- An assigned name is written on the left side: it is a variable or the key of a
property. -/
theorem name?_of_assignedName? {m : Node} {name : String} (h : m.assignedName? = some name) :
    m.form.name? = some name := by
  unfold assignedName? at h
  split at h
  · next hform => rw [hform]; exact h
  · next hform => rw [hform]; exact h
  · cases h

/-- The name that a spot hands to one of its children is written in its node, or
the spot has been handed it itself. -/
theorem name?_of_handed {q : Spot} {role : Role} {name : String}
    (h : q.handed = some (role, .bound (some name))) :
    q.standing = .bound (some name) ∨ ∃ m ∈ q.node.nodes, m.form.name? = some name := by
  unfold Spot.handed at h
  split at h
  · simp only [Option.some.injEq, Prod.mk.injEq, Standing.bound.injEq] at h
    exact .inr (name?_of_subject (fun _ => name?_of_declaredName?) h.2)
  · simp at h
  · simp only [Option.some.injEq, Prod.mk.injEq, Standing.bound.injEq] at h
    exact .inr (name?_of_subject (fun _ => name?_of_assignedName?) h.2)
  · next hstanding =>
      simp only [Option.some.injEq, Prod.mk.injEq, Standing.bound.injEq] at h
      exact .inl (hstanding.trans (by rw [h.2]))
  · cases h

/-- A name under which a node of a tree is bound is written in the tree, unless
the tree itself is bound under it. -/
theorem name?_of_bound {n : Node} {q : Spot} {scope name : String} {standing : Standing}
    (h : q ∈ n.spots scope standing) (hq : q.standing = .bound (some name)) :
    standing = .bound (some name) ∨ ∃ m ∈ n.nodes, m.form.name? = some name := by
  induction n using Node.induction generalizing scope standing with
  | node role form span children ih =>
      rw [spots_eq] at h
      rcases List.mem_cons.1 h with rfl | h
      · exact .inl hq
      · obtain ⟨child, hchild, standing', hmem, hhanded⟩ := mem_spotsIn_handed h
        rcases ih child hchild hmem with hbound | ⟨m, hm, hname⟩
        · rw [hbound] at hhanded
          rcases hhanded with hplain | ⟨role', hhanded⟩
          · cases hplain
          · exact name?_of_handed hhanded
        · exact .inr ⟨m, mem_nodes_of_child hchild hm, hname⟩

/-- **The name of a scope is written in the tree.**  -/
theorem exists_of_opened {program : Node} {q : Spot} {name : String}
    (hq : q ∈ program.spots Scope.globalName .plain) (h : q.opened? = some (some name)) :
    ∃ m ∈ program.nodes, m.form.name? = some name := by
  have hnode : q.node ∈ program.nodes := by
    rw [← map_node_spots program Scope.globalName .plain]
    exact List.mem_map_of_mem hq
  have hbound : q.standing = .bound (some name) →
      ∃ m ∈ program.nodes, m.form.name? = some name :=
    fun hstanding => (name?_of_bound hq hstanding).resolve_left (by simp)
  unfold Spot.opened? at h
  split at h
  · next hform =>
      refine ⟨q.node, hnode, ?_⟩
      rw [hform]
      exact Option.some.inj h
  · next hstanding =>
      rw [Option.some.inj h] at hstanding
      exact hbound hstanding
  · next hstanding =>
      rw [Option.some.inj h] at hstanding
      exact hbound hstanding
  · cases h

end Node
end ScopeTrack
