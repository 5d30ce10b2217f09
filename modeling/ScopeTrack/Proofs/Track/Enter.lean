/-
# Entering a node at its spot

`Tracker.Ready` is what a tracker must know before it goes through some nodes:
the innermost scope is the one that the spots name and no function among the
nodes owns it, and of the functions among the nodes it has noted just those that
are bound.  A tracker that is ready for a node enters it without fail, and what
changes is what the spot says (`Tracker.Entered`): the scope that it opens, the
keys, the changes, and the note that it adds.  The tracker is then ready for the
children (`Tracker.Entered.ready`).

Entering a single node needs less than that: some scope is open, and the spot
agrees with the tracker on its name and on the binding of the node
(`Tracker.enterNode_of_current`).
-/

import ScopeTrack.Proofs.Table.Registration
import ScopeTrack.Proofs.Track.Step
import ScopeTrack.Proofs.Tree.Notes

namespace ScopeTrack

/-- The same scope, with more variables declared at most. -/
structure Scope.Frame.Extends (f g : Scope.Frame) : Prop where
  name : g.name = f.name
  owner : g.owner = f.owner
  declared : f.declared <+: g.declared

namespace Scope.Frame.Extends

theorem refl (f : Scope.Frame) : f.Extends f :=
  ⟨rfl, rfl, List.prefix_rfl⟩

theorem trans {f g h : Scope.Frame} (hfg : f.Extends g) (hgh : g.Extends h) : f.Extends h :=
  ⟨hgh.name.trans hfg.name, hgh.owner.trans hfg.owner, hfg.declared.trans hgh.declared⟩

/-- Declaring a variable extends a scope: a new one comes last, an old one changes
nothing. -/
theorem declare (f : Scope.Frame) (name : String) : f.Extends (f.declare name) := by
  by_cases h : name ∈ f.declared
  · rw [Scope.Frame.declare_of_mem h]
    exact refl f
  · rw [Scope.Frame.declare, if_neg h]
    exact ⟨rfl, rfl, List.prefix_append _ _⟩

theorem declareAll (f : Scope.Frame) (names : List String) : f.Extends (f.declareAll names) := by
  induction names generalizing f with
  | nil => exact refl f
  | cons name names ih => exact (declare f name).trans (ih (f.declare name))

end Scope.Frame.Extends

namespace Tracker

/-- What a tracker must know before it goes through the nodes `ms`, with the
given notes on their functions. -/
structure Ready (t : Tracker) (scope : String) (ms : List Node)
    (notes : List (Span × Option String)) : Prop where
  current : ∃ frame outer, t.chain.frames = frame :: outer ∧ frame.name = scope ∧
    ∀ span ∈ Node.spansOfFunctions ms, frame.owner ≠ some span
  noted : ∀ span ∈ Node.spansOfFunctions ms, t.bound.lookup span = notes.lookup span
  distinct : (Node.spansOfFunctions ms).Nodup
  single : ∀ m ∈ ms, m.form ≠ .program

/-- What entering a node at its spot changes. -/
structure Entered (t : Tracker) (q : Spot) (t₁ : Tracker) : Prop where
  lines : t₁.lines = t.lines
  tableName : t₁.tableName = t.tableName
  archive : t₁.chain.archive = t.chain.archive
  opened : ∀ name, q.opened? = some name →
    t₁.chain.frames = { name := q.inner, owner := some q.node.span } :: t.chain.frames
  kept : q.opened? = none → ∃ frame frame' outer, t.chain.frames = frame :: outer ∧
    t₁.chain.frames = frame' :: outer ∧ frame.Extends frame'
  table : t₁.table = (t.table.registerAll q.keys).2
  sites : t₁.sites = q.changes.foldl (Change.record t.lines t.tableName) t.sites
  bound : ∀ span, t₁.bound.lookup span = (q.node.added.lookup span).or (t.bound.lookup span)
  stated : ∀ span, span ∉ Node.spansOfAssignments (Node.nodesIn q.node.children) →
    (span ∈ t₁.stated ↔ span ∈ t.stated ∧ (q.node.form = .assignment → span ≠ q.node.span))

/-- After the note on one function is taken away, the other notes are as before. -/
theorem lookup_filter_ne (entries : List (Span × Option String)) (span other : Span) :
    (entries.filter fun entry => entry.1 ≠ other).lookup span =
      if span = other then none else entries.lookup span := by
  induction entries with
  | nil => simp
  | cons entry entries ih =>
      obtain ⟨key, name⟩ := entry
      by_cases hk : key = other
      · rw [List.filter_cons_of_neg (by simp [hk]), ih]
        by_cases hs : span = other
        · simp [hs]
        · simp [hs, hk, List.lookup_cons, beq_false_of_ne hs]
      · rw [List.filter_cons_of_pos (by simpa using hk), List.lookup_cons, List.lookup_cons, ih]
        by_cases hs : span = key
        · simp [hs, hk]
        · simp [beq_false_of_ne hs]

/-- After a function is noted, its note is the new one, and the others are as before.
An older note on it is gone. -/
theorem lookup_noteBound (t : Tracker) (bound : Option BoundFunction) (span : Span) :
    (t.noteBound bound).bound.lookup span =
      ((bound.toList.map Node.noteOf).lookup span).or (t.bound.lookup span) := by
  cases bound with
  | none => rfl
  | some bound =>
      obtain ⟨other, name⟩ := bound
      simp only [noteBound, List.lookup_cons, lookup_filter_ne, Option.toList_some, List.map_cons,
        List.map_nil, Node.noteOf, List.lookup_nil]
      by_cases h : span = other
      · simp [h]
      · simp [beq_false_of_ne h, h]

variable {t : Tracker} {q : Spot}

/-- A spot that asks for nothing is entered without a change. -/
theorem Entered.idle (ready : ∃ frame outer, t.chain.frames = frame :: outer)
    (hopen : q.opened? = none) (hkeys : q.keys = []) (hchanges : q.changes = [])
    (hadded : q.node.added = []) (hform : q.node.form ≠ .assignment) : Entered t q t := by
  obtain ⟨frame, outer, hframes⟩ := ready
  exact {
    lines := rfl
    tableName := rfl
    archive := rfl
    opened := by simp [hopen]
    kept := fun _ => ⟨frame, frame, outer, hframes, hframes, .refl frame⟩
    table := by rw [hkeys]; rfl
    sites := by rw [hchanges]; rfl
    bound := by simp [hadded]
    stated := by simp [hform] }

/-- A node without a shape is passed over. -/
theorem Entered.shapeless (ready : ∃ frame outer, t.chain.frames = frame :: outer)
    (h : q.node.shape? = none) : Entered t q t := by
  have hform : q.node.form ≠ .assignment := by
    intro hf
    simp [Node.shape?, hf] at h
  unfold Node.shape? at h
  refine .idle ready ?_ ?_ ?_ ?_ hform
  · unfold Spot.opened?
    split at h <;> simp_all
  · unfold Spot.keys Spot.opened?
    split at h <;> simp_all
  · unfold Spot.changes
    split at h <;> simp_all
  · simp [Node.added, Node.shape?, h]

variable {frame : Scope.Frame} {outer : List Scope.Frame}

/-- A function that opens a scope. -/
theorem Entered.opening (hframes : t.chain.frames = frame :: outer) (hname : frame.name = q.scope)
    {form : FunctionForm} {own name : Option String} (hform : q.node.form = .function form own)
    (hopen : q.opened? = some name) :
    ∃ t₁, t.openScope q.node.span name q.node.parameterNames = .ok t₁ ∧ Entered t q t₁ := by
  obtain ⟨log, h⟩ := openScope_eq hframes q.node.span name q.node.parameterNames
  rw [hname, ← Spot.inner_of_opened hopen] at h
  refine ⟨_, h, ?_⟩
  exact {
    lines := rfl
    tableName := rfl
    archive := rfl
    opened := fun _ _ => by rw [hframes]
    kept := by simp [hopen]
    table := by simp [Spot.keys, hform, hopen]
    sites := by simp [Spot.changes, hform]
    bound := by simp [Node.added_eq_nil, hform]
    stated := by simp [hform] }

/-- A declaration opens a scope under its own name, bound or not. -/
theorem enterFunction_declaration (t : Tracker) (span : Span) (name : Option String)
    (parameters : List String) :
    t.enterFunction span .declaration name parameters = t.openScope span name parameters := by
  unfold enterFunction
  cases t.bound.lookup span <;> rfl

/-- An expression that is not bound opens no scope, and entering it changes nothing. -/
theorem enterFunction_unbound {form : FunctionForm} (hd : form ≠ .declaration) {span : Span}
    (hb : t.bound.lookup span = none) (name : Option String) (parameters : List String) :
    t.enterFunction span form name parameters = .ok t := by
  unfold enterFunction
  rw [hb]
  cases form <;> simp_all

/-- A function that is bound opens a scope under the name of its binding; what
is reported before does not matter here. -/
theorem Entered.function_bound (hframes : t.chain.frames = frame :: outer)
    (hname : frame.name = q.scope) {form : FunctionForm} {own name : Option String}
    (hform : q.node.form = .function form own) (hd : form ≠ .declaration)
    (hs : form ≠ .signature) (hb : t.bound.lookup q.node.span = some name)
    (hopen : q.opened? = some name) :
    ∃ t₁, t.enterFunction q.node.span form own q.node.parameterNames = .ok t₁ ∧
      Entered t q t₁ := by
  unfold enterFunction
  rw [hb]
  cases form with
  | declaration => exact absurd rfl hd
  | signature => exact absurd rfl hs
  | arrow => exact Entered.opening hframes hname hform hopen
  | expression =>
      cases own with
      | some _ => exact Entered.opening hframes hname hform hopen
      | none =>
          let told := t.report .notDeanonymized q.node.span
            (Diagnostic.notDeanonymizedMessage name)
          obtain ⟨t₁, h, e⟩ := Entered.opening (t := told) hframes hname hform hopen
          exact ⟨t₁, h, ⟨e.lines, e.tableName, e.archive, e.opened, e.kept, e.table, e.sites,
            e.bound, e.stated⟩⟩

/-- A function with a body. -/
theorem Entered.function (hframes : t.chain.frames = frame :: outer)
    (hname : frame.name = q.scope) {form : FunctionForm} {own : Option String}
    (hform : q.node.form = .function form own) (hs : form ≠ .signature)
    (hb : t.bound.lookup q.node.span = q.standing.binding?) :
    ∃ t₁, t.enterFunction q.node.span form own q.node.parameterNames = .ok t₁ ∧
      Entered t q t₁ := by
  -- A declaration opens a scope in any case; the others only if they are bound.
  by_cases hd : form = .declaration
  · subst hd
    rw [enterFunction_declaration]
    exact Entered.opening hframes hname hform (by simp [Spot.opened?, hform])
  · rw [← Spot.opened?_of_function hform hd hs] at hb
    cases hopen : q.opened? with
    | some name => exact Entered.function_bound hframes hname hform hd hs (hb.trans hopen) hopen
    | none =>
        refine ⟨t, enterFunction_unbound hd (hb.trans hopen) _ _, ?_⟩
        exact .idle ⟨frame, outer, hframes⟩ hopen (by simp [Spot.keys, hform, hopen])
          (by simp [Spot.changes, hform]) (by simp [Node.added_eq_nil, hform]) (by simp [hform])

/-- A declarator. -/
theorem Entered.declarator (hframes : t.chain.frames = frame :: outer)
    (hname : frame.name = q.scope) (hform : q.node.form = .declarator) :
    ∃ t₁, t.enterDeclarator q.node.span q.node.declaredNames (q.node.child? .value).isSome
        (q.node.boundFunction? Node.declaredName?) = .ok t₁ ∧ Entered t q t₁ := by
  obtain ⟨log, h⟩ := enterDeclarator_eq hframes q.node.span q.node.declaredNames
    (q.node.child? .value).isSome (q.node.boundFunction? Node.declaredName?)
  rw [hname] at h
  refine ⟨_, h, ?_⟩
  exact {
    lines := rfl
    tableName := rfl
    archive := rfl
    opened := by simp [Spot.opened?, hform]
    kept := fun _ => ⟨frame, _, outer, hframes, rfl, .declareAll frame _⟩
    table := by simp [Spot.keys, hform]
    sites := by simp [Spot.changes, hform]
    bound := fun span => by rw [lookup_noteBound, Node.added_of_declarator hform]
    stated := by simp [hform] }

/-- A statement that is an assignment: the assignment is stated, and is one of
the nodes below. -/
theorem Entered.statement (hframes : t.chain.frames = frame :: outer)
    (hname : frame.name = q.scope) (hform : q.node.form = .expressionStatement)
    {assignment : Node} (ha : q.node.statedAssignment? = some assignment) :
    ∃ t₁, t.enterStatement q.node.span assignment.span assignment.target
        (assignment.boundFunction? Node.assignedName?) = .ok t₁ ∧ Entered t q t₁ := by
  obtain ⟨log, h⟩ := enterStatement_eq hframes q.node.span assignment.span assignment.target
    (assignment.boundFunction? Node.assignedName?)
  rw [hname] at h
  refine ⟨_, h, ?_⟩
  exact {
    lines := rfl
    tableName := rfl
    archive := rfl
    opened := by simp [Spot.opened?, hform]
    kept := fun _ => ⟨frame, frame, outer, hframes, hframes, .refl frame⟩
    table := by simp [Spot.keys, hform, Table.registerAll]
    sites := by simp [Spot.changes, hform, ha]
    bound := fun span => by
      rw [lookup_noteBound, Node.added_of_statement hform, ha, Option.bind_some]
    stated := fun span hspan => by
      -- The stated assignment is below the node, so it is none of those asked about.
      have hne : span ≠ assignment.span := fun e =>
        hspan (e ▸ Node.mem_spansOfAssignments_of_stated ha)
      simp [hform, hne] }

/-- An assignment. -/
theorem Entered.assignment (hframes : t.chain.frames = frame :: outer)
    (hname : frame.name = q.scope) (hform : q.node.form = .assignment) :
    ∃ t₁, t.enterAssignment q.node.span q.node.target = .ok t₁ ∧ Entered t q t₁ := by
  obtain ⟨log, h⟩ := enterAssignment_eq hframes q.node.span q.node.target
  rw [hname] at h
  refine ⟨_, h, ?_⟩
  exact {
    lines := rfl
    tableName := rfl
    archive := rfl
    opened := by simp [Spot.opened?, hform]
    kept := fun _ => ⟨frame, frame, outer, hframes, hframes, .refl frame⟩
    table := by simp [Spot.keys, hform]
    sites := by simp [Spot.changes, hform]
    bound := by simp [Node.added_eq_nil, hform]
    stated := by simp [hform] }

/-- **A tracker with an open scope enters every node below a program**, as the
spot says that agrees with it on the scope and on the binding of the node. -/
theorem enterNode_of_current (hframes : t.chain.frames = frame :: outer)
    (hname : frame.name = q.scope) (hprogram : q.node.form ≠ .program)
    (hbound : q.node.form.isFunction = true →
      t.bound.lookup q.node.span = q.standing.binding?) :
    ∃ t₁, t.enterNode q.node = .ok t₁ ∧ Entered t q t₁ := by
  unfold enterNode
  cases hform : q.node.form with
  | program => exact absurd hform hprogram
  | function form own =>
      -- A function without a body has no shape, so it is passed over like any other node.
      by_cases hs : form = .signature
      · have hshape : q.node.shape? = none := by simp [Node.shape?, hform, hs]
        rw [hshape]
        exact ⟨t, rfl, .shapeless ⟨frame, outer, hframes⟩ hshape⟩
      · have hshape : q.node.shape? = some (.function form own q.node.parameterNames) := by
          cases form <;> simp_all [Node.shape?]
        rw [hshape]
        exact Entered.function hframes hname hform hs (hbound (by rw [hform]; rfl))
  | declarator =>
      simp only [Node.shape?, hform]
      exact Entered.declarator hframes hname hform
  | expressionStatement =>
      cases ha : q.node.statedAssignment? with
      | none =>
          have hshape : q.node.shape? = none := by simp [Node.shape?, hform, ha]
          rw [hshape]
          exact ⟨t, rfl, .shapeless ⟨frame, outer, hframes⟩ hshape⟩
      | some assignment =>
          simp only [Node.shape?, hform, ha, Option.map_some]
          exact Entered.statement hframes hname hform ha
  | assignment =>
      simp only [Node.shape?, hform]
      exact Entered.assignment hframes hname hform
  | _ =>
      have hshape : q.node.shape? = none := by simp [Node.shape?, hform]
      rw [hshape]
      exact ⟨t, rfl, .shapeless ⟨frame, outer, hframes⟩ hshape⟩

/-- **A tracker that is ready for a node enters it.**  -/
theorem enterNode_of_ready (ready : t.Ready q.scope q.node.nodes (q.node.notesAt q.standing)) :
    ∃ t₁, t.enterNode q.node = .ok t₁ ∧ Entered t q t₁ := by
  obtain ⟨frame, outer, hframes, hname, -⟩ := ready.current
  refine enterNode_of_current hframes hname (ready.single _ (Node.mem_nodes_self _)) ?_
  intro hf
  rw [ready.noted _ (Node.span_mem_functionSpans hf), Node.lookup_notesAt_of_function hf,
    if_pos rfl]

/-- Outside the children, a node changes no note when it is entered. -/
theorem Entered.bound_of_not_mem {t₁ : Tracker} (entered : Entered t q t₁) {span : Span}
    (h : span ∉ Node.spansOfFunctions (Node.nodesIn q.node.children)) :
    t₁.bound.lookup span = t.bound.lookup span := by
  have hnone : q.node.added.lookup span = none := by
    rw [List.lookup_eq_none_iff]
    intro note hnote
    rw [bne_iff_ne]
    rintro rfl
    exact h (Node.mem_spansOfFunctions_of_added hnote)
  rw [entered.bound, hnone, Option.none_or]

/-- **A node that is entered leaves the tracker ready for its children.**  -/
theorem Entered.ready {t₁ : Tracker} (entered : Entered t q t₁)
    (ready : t.Ready q.scope q.node.nodes (q.node.notesAt q.standing)) :
    t₁.Ready q.inner (Node.nodesIn q.node.children)
      (Node.notesIn q.handed q.node.children) := by
  have hspans := Node.functionSpans_eq q.node
  have hsub : ∀ span ∈ Node.spansOfFunctions (Node.nodesIn q.node.children),
      span ∈ q.node.functionSpans := by
    intro span hspan
    rw [hspans]
    exact List.mem_append_right _ hspan
  refine ⟨?_, ?_, ?_, ?_⟩
  · cases hopen : q.opened? with
    | some name =>
        refine ⟨_, _, entered.opened name hopen, rfl, ?_⟩
        rintro span hspan ⟨⟩
        exact Node.span_not_mem_of_function
          (Form.isFunction_of_hasBody (Spot.hasBody_of_opened hopen)) ready.distinct hspan
    | none =>
        obtain ⟨frame, outer, hframes, hname, howner⟩ := ready.current
        obtain ⟨frame', frame₁, outer', hframes', hframes₁, hext⟩ := entered.kept hopen
        rw [hframes] at hframes'
        cases hframes'
        refine ⟨frame₁, outer, hframes₁, ?_, ?_⟩
        · rw [hext.name, hname, Spot.inner_of_not_opened hopen]
        · intro span hspan
          rw [hext.owner]
          exact howner span (hsub span hspan)
  · intro span hspan
    -- A note is the one just added, or else the one that was there.
    rw [entered.bound, ready.noted span (hsub span hspan),
      Node.lookup_notesIn_handed q ready.distinct hspan]
  · have hdistinct : q.node.functionSpans.Nodup := ready.distinct
    rw [hspans] at hdistinct
    exact (List.nodup_append.1 hdistinct).2.1
  · intro m hm
    exact ready.single m (Node.mem_nodes_of_below hm)

end Tracker
end ScopeTrack
