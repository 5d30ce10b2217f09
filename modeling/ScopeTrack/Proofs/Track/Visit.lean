/-
# Going through a tree

`Tracker.Advances` says what has become of a tracker that has gone through some
spots: the scopes that were open are open again, the scopes that the spots closed
are archived in closing order, the keys and the changes of the spots are
registered and recorded in order, no function of the spots is noted any more
unless it has no body, and no assignment of the spots is stated.  Advancing can
be put together (`Advances.trans`), a node adds its own entering and leaving to
what its children do (`Advances.node`), and so a tracker that is ready for a tree
goes through it without fail (`visit_of_ready`).

`Tracker.Arrives` is the relation between a traversal and the nodes that it
comes to, each with the tracker of that moment: at every one of them the tracker
is ready (`Arrives.ready`).
-/

import ScopeTrack.Proofs.Track.Enter

namespace ScopeTrack

/-- What tells a scope from others: its name and its owner. -/
def Scope.Frame.heading (f : Scope.Frame) : String × Option Span :=
  (f.name, f.owner)

namespace Tracker

/-- What has become of a tracker that has gone through spots, entered in one
order and left in another. -/
structure Advances (t : Tracker) (entered left : List Spot) (t' : Tracker) : Prop where
  lines : t'.lines = t.lines
  tableName : t'.tableName = t.tableName
  frames : ∃ frame frame' outer, t.chain.frames = frame :: outer ∧
    t'.chain.frames = frame' :: outer ∧ frame.Extends frame'
  archive : ∃ closed, t'.chain.archive = t.chain.archive ++ closed ∧
    closed.map Scope.Frame.heading = left.filterMap Spot.closes?
  table : t'.table = (t.table.registerAll (entered.flatMap Spot.keys)).2
  sites : t'.sites =
    (entered.flatMap Spot.changes).foldl (Change.record t.lines t.tableName) t.sites
  bound : ∀ span, t'.bound.lookup span =
    if span ∈ Node.spansOfFunctions (entered.map Spot.node) then
      (entered.filterMap Spot.bodiless?).lookup span
    else t.bound.lookup span
  stated : ∀ span, span ∈ t'.stated ↔
    span ∈ t.stated ∧ span ∉ Node.spansOfAssignments (entered.map Spot.node)

/-- A function without a body is one of the functions. -/
theorem mem_spansOfFunctions_of_bodiless {spots : List Spot} {note : Span × Option String}
    (h : note ∈ spots.filterMap Spot.bodiless?) :
    note.1 ∈ Node.spansOfFunctions (spots.map Spot.node) := by
  obtain ⟨q, hq, hnote⟩ := List.mem_filterMap.1 h
  obtain ⟨hspan, hf⟩ := Spot.eq_span_of_bodiless hnote
  rw [hspan]
  exact List.mem_map_of_mem (List.mem_filter.2 ⟨List.mem_map_of_mem hq, hf⟩)

/-- Functions that are not among the spots have no note from them. -/
theorem lookup_bodiless_eq_none {spots : List Spot} {span : Span}
    (h : span ∉ Node.spansOfFunctions (spots.map Spot.node)) :
    (spots.filterMap Spot.bodiless?).lookup span = none := by
  rw [List.lookup_eq_none_iff]
  intro note hnote
  rw [bne_iff_ne]
  rintro rfl
  exact h (mem_spansOfFunctions_of_bodiless hnote)

namespace Advances

variable {t t₁ t₂ : Tracker} {entered left entered₁ left₁ entered₂ left₂ : List Spot}

theorem refl (h : ∃ frame outer, t.chain.frames = frame :: outer) : Advances t [] [] t := by
  obtain ⟨frame, outer, hframes⟩ := h
  exact {
    lines := rfl
    tableName := rfl
    frames := ⟨frame, frame, outer, hframes, hframes, .refl frame⟩
    archive := ⟨[], by simp⟩
    table := rfl
    sites := rfl
    bound := by simp [Node.spansOfFunctions]
    stated := by simp [Node.spansOfAssignments] }

/-- **Advancing twice is advancing through both**, provided that no function is
met twice. -/
theorem trans (h₁ : Advances t entered₁ left₁ t₁) (h₂ : Advances t₁ entered₂ left₂ t₂)
    (disjoint : ∀ span ∈ Node.spansOfFunctions (entered₁.map Spot.node),
      span ∉ Node.spansOfFunctions (entered₂.map Spot.node)) :
    Advances t (entered₁ ++ entered₂) (left₁ ++ left₂) t₂ := by
  obtain ⟨frame, frame₁, outer, hframes, hframes₁, hext₁⟩ := h₁.frames
  obtain ⟨frame₁', frame₂, outer', hframes₁', hframes₂, hext₂⟩ := h₂.frames
  rw [hframes₁] at hframes₁'
  cases hframes₁'
  obtain ⟨closed₁, harchive₁, hclosed₁⟩ := h₁.archive
  obtain ⟨closed₂, harchive₂, hclosed₂⟩ := h₂.archive
  exact {
    lines := h₂.lines.trans h₁.lines
    tableName := h₂.tableName.trans h₁.tableName
    frames := ⟨frame, frame₂, outer, hframes, hframes₂, hext₁.trans hext₂⟩
    archive := ⟨closed₁ ++ closed₂, by rw [harchive₂, harchive₁, List.append_assoc],
      by rw [List.map_append, hclosed₁, hclosed₂, List.filterMap_append]⟩
    table := by rw [h₂.table, h₁.table, List.flatMap_append, Table.registerAll_append]
    sites := by
      rw [h₂.sites, h₁.sites, h₁.lines, h₁.tableName, List.flatMap_append, List.foldl_append]
    bound := by
      intro span
      rw [List.map_append, Node.spansOfFunctions_append, List.filterMap_append,
        List.lookup_append, h₂.bound, h₁.bound]
      -- The second part may overwrite only notes on its own functions, and those of the
      -- first are others.
      by_cases hs₁ : span ∈ Node.spansOfFunctions (entered₁.map Spot.node)
      · have hs₂ := disjoint span hs₁
        rw [if_neg hs₂, if_pos hs₁, if_pos (List.mem_append_left _ hs₁),
          lookup_bodiless_eq_none hs₂, Option.or_none]
      · rw [lookup_bodiless_eq_none hs₁, Option.none_or, if_neg hs₁]
        simp only [List.mem_append, hs₁, false_or]
    stated := by
      intro span
      rw [List.map_append, Node.spansOfAssignments_append, h₂.stated, h₁.stated,
        List.mem_append, not_or, and_assoc] }

end Advances

/-! ## Leaving -/

/-- Closing a scope changes the chain and the log.  The line that is logged is not told
here, because nothing depends on it. -/
theorem setClosed_eq (t : Tracker) (closed : Option (Scope.Frame × Scope.Chain)) :
    ∃ log, t.setClosed closed = { t with
      chain := (closed.map Prod.snd).getD t.chain
      log := log } := by
  cases closed with
  | none => exact ⟨t.log, rfl⟩
  | some closed => exact ⟨_, rfl⟩

/-- A function with a body takes its note away and closes the scope that it
owns. -/
theorem leaveNode_of_hasBody (t : Tracker) {n : Node} (h : n.form.hasBody = true) :
    ∃ log, t.leaveNode n = { t with
      chain := ((t.chain.leave? n.span).map Prod.snd).getD t.chain
      bound := t.bound.filter fun entry => entry.1 ≠ n.span
      log := log } := by
  have hshape : ∃ form own, n.shape? = some (.function form own n.parameterNames) := by
    cases hform : n.form with
    | function form own => cases form <;> simp_all [Node.shape?, Form.hasBody]
    | _ => simp_all [Form.hasBody]
  obtain ⟨form, own, hshape⟩ := hshape
  rw [leaveNode, hshape]
  exact setClosed_eq _ _

/-- Every other node below a program is left without a change. -/
theorem leaveNode_of_not_hasBody (t : Tracker) {n : Node} (hp : n.form ≠ .program)
    (h : n.form.hasBody = false) : t.leaveNode n = t := by
  unfold leaveNode
  cases hform : n.form with
  | program => exact absurd hform hp
  | function form own => cases form <;> simp_all [Node.shape?, Form.hasBody]
  | declarator => simp [Node.shape?, hform, leave]
  | expressionStatement => cases ha : n.statedAssignment? <;> simp [Node.shape?, hform, ha, leave]
  | assignment => simp [Node.shape?, hform, leave]
  | _ => simp [Node.shape?, hform]

/-- Leaving a function with a body takes its note away, and leaves all others. -/
theorem lookup_leaveNode_eq (t : Tracker) {n : Node} (hp : n.form ≠ .program) (span : Span) :
    (t.leaveNode n).bound.lookup span =
      if n.form.hasBody = true ∧ span = n.span then none else t.bound.lookup span := by
  cases h : n.form.hasBody with
  | true =>
      obtain ⟨log, hleave⟩ := leaveNode_of_hasBody t h
      rw [hleave, lookup_filter_ne]
      simp
  | false =>
      rw [leaveNode_of_not_hasBody t hp h]
      simp

/-- Leaving touches only the chain, the notes and the log. -/
theorem leaveNode_kept (t : Tracker) {n : Node} (hp : n.form ≠ .program) :
    ∃ chain bound log, t.leaveNode n = { t with chain := chain, bound := bound, log := log } := by
  cases h : n.form.hasBody with
  | true =>
      obtain ⟨log, h⟩ := leaveNode_of_hasBody t h
      exact ⟨_, _, log, h⟩
  | false => exact ⟨t.chain, t.bound, t.log, leaveNode_of_not_hasBody t hp h⟩

/-! ## A node and its children -/

section

variable {t t₁ t₂ : Tracker} {q : Spot}

/-- A node that opens a scope finds it in front when it is left, closes it, and
leaves the scopes around it as they were. -/
theorem leaveNode_opened (entered : Entered t q t₁) (advances : Advances t₁
      (Node.spotsIn q.inner q.handed q.node.children)
      (Node.spotsLeftIn q.inner q.handed q.node.children) t₂)
    {name : Option String} (hopen : q.opened? = some name) :
    ∃ frame, (t₂.leaveNode q.node).chain = ⟨t.chain.frames, t₂.chain.archive ++ [frame]⟩ ∧
      frame.heading = (q.inner, some q.node.span) := by
  obtain ⟨frame₁, frame₂, outer, hframes₁, hframes₂, hext⟩ := advances.frames
  rw [entered.opened name hopen] at hframes₁
  cases hframes₁
  obtain ⟨log, h⟩ := leaveNode_of_hasBody t₂ (Spot.hasBody_of_opened hopen)
  have howner : frame₂.owner = some q.node.span := hext.owner
  refine ⟨frame₂, ?_, ?_⟩
  · rw [h]
    simp [Scope.Chain.leave?, hframes₂, howner]
  · rw [Scope.Frame.heading, hext.name, howner]

/-- A node that opens no scope leaves the chain as its children left it. -/
theorem leaveNode_unopened (ready : t.Ready q.scope q.node.nodes (q.node.notesAt q.standing))
    (entered : Entered t q t₁) (advances : Advances t₁
      (Node.spotsIn q.inner q.handed q.node.children)
      (Node.spotsLeftIn q.inner q.handed q.node.children) t₂) (hopen : q.opened? = none) :
    (t₂.leaveNode q.node).chain = t₂.chain ∧
      ∃ frame frame₂ outer, t.chain.frames = frame :: outer ∧
        t₂.chain.frames = frame₂ :: outer ∧ frame.Extends frame₂ := by
  obtain ⟨frame, outer, hframes, -, howner⟩ := ready.current
  obtain ⟨frame', frame₁, outer', hframes', hframes₁, hext₁⟩ := entered.kept hopen
  rw [hframes] at hframes'
  cases hframes'
  obtain ⟨frame₁', frame₂, outer', hframes₁', hframes₂, hext₂⟩ := advances.frames
  rw [hframes₁] at hframes₁'
  cases hframes₁'
  refine ⟨?_, frame, frame₂, outer, hframes, hframes₂, hext₁.trans hext₂⟩
  cases hb : q.node.form.hasBody with
  | false => rw [leaveNode_of_not_hasBody t₂ (ready.single _ (Node.mem_nodes_self _)) hb]
  | true =>
      obtain ⟨log, h⟩ := leaveNode_of_hasBody t₂ hb
      -- A function that opened no scope does not own the innermost one: its owner is around
      -- it.
      have hne : frame₂.owner ≠ some q.node.span := by
        rw [hext₂.owner, hext₁.owner]
        exact howner _ (Node.span_mem_functionSpans (Form.isFunction_of_hasBody hb))
      rw [h]
      simp [Scope.Chain.leave?, hframes₂, hne]

/-- The note on a function below a node is not touched when the node is left. -/
theorem lookup_leaveNode_below (ready : t.Ready q.scope q.node.nodes (q.node.notesAt q.standing))
    (advances : Advances t₁ (Node.spotsIn q.inner q.handed q.node.children)
      (Node.spotsLeftIn q.inner q.handed q.node.children) t₂) {span : Span}
    (h : span ∈ Node.spansOfFunctions (Node.nodesIn q.node.children)) :
    (t₂.leaveNode q.node).bound.lookup span =
      ((q.node.spots q.scope q.standing).filterMap Spot.bodiless?).lookup span := by
  have hne : q.node.form.isFunction = true → span ≠ q.node.span := fun hf e =>
    Node.span_not_mem_of_function hf ready.distinct (e ▸ h)
  have hleave : (t₂.leaveNode q.node).bound.lookup span = t₂.bound.lookup span := by
    rw [lookup_leaveNode_eq t₂ (ready.single _ (Node.mem_nodes_self _))]
    exact if_neg fun h => hne (Form.isFunction_of_hasBody h.1) h.2
  rw [hleave, advances.bound, Node.map_node_spotsIn, if_pos h, Node.spots_eq]
  cases hq : q.bodiless? with
  | none => rw [List.filterMap_cons_none hq]
  | some note =>
      obtain ⟨hspan, hf⟩ := Spot.eq_span_of_bodiless hq
      have hb : (span == note.1) = false := beq_false_of_ne (hspan ▸ hne hf)
      rw [List.filterMap_cons_some hq, List.lookup_cons, hb]

/-- A function with a body takes its own note away; one without keeps it. -/
theorem lookup_leaveNode_own (ready : t.Ready q.scope q.node.nodes (q.node.notesAt q.standing))
    (entered : Entered t q t₁) (advances : Advances t₁
      (Node.spotsIn q.inner q.handed q.node.children)
      (Node.spotsLeftIn q.inner q.handed q.node.children) t₂)
    (hf : q.node.form.isFunction = true) :
    (t₂.leaveNode q.node).bound.lookup q.node.span =
      ((q.node.spots q.scope q.standing).filterMap Spot.bodiless?).lookup q.node.span := by
  have hspans := Node.map_node_spotsIn q.node.children q.inner q.handed
  have hown := Node.span_not_mem_of_function hf ready.distinct
  have hnone := lookup_bodiless_eq_none (hspans ▸ hown)
  rw [lookup_leaveNode_eq t₂ (ready.single _ (Node.mem_nodes_self _)), Node.spots_eq]
  cases hb : q.node.form.hasBody with
  | true => rw [if_pos ⟨rfl, rfl⟩, List.filterMap_cons_none (Spot.bodiless?_of_hasBody hb), hnone]
  | false =>
      have hq := Spot.bodiless?_of_signature hf hb
      rw [if_neg (by simp), advances.bound, hspans, if_neg hown, entered.bound_of_not_mem hown,
        ready.noted _ (Node.span_mem_functionSpans hf), Node.lookup_notesAt_of_function hf,
        if_pos rfl]
      cases hs : q.standing.binding? with
      | none => rw [List.filterMap_cons_none (by rw [hq, hs]; rfl), hnone]
      | some name =>
          rw [List.filterMap_cons_some (b := (q.node.span, name)) (by rw [hq, hs]; rfl),
            List.lookup_cons_self]

/-- Of the functions in a node that has been left, only those without a body are
noted; all other notes are as before. -/
theorem lookup_leaveNode (ready : t.Ready q.scope q.node.nodes (q.node.notesAt q.standing))
    (entered : Entered t q t₁) (advances : Advances t₁
      (Node.spotsIn q.inner q.handed q.node.children)
      (Node.spotsLeftIn q.inner q.handed q.node.children) t₂) (span : Span) :
    (t₂.leaveNode q.node).bound.lookup span =
      if span ∈ q.node.functionSpans then
        ((q.node.spots q.scope q.standing).filterMap Spot.bodiless?).lookup span
      else t.bound.lookup span := by
  split
  · next h =>
      rw [Node.functionSpans_eq] at h
      rcases List.mem_append.1 h with h | h
      · split at h
        · next hf =>
            rw [List.mem_singleton.1 h]
            exact lookup_leaveNode_own ready entered advances hf
        · cases h
      · exact lookup_leaveNode_below ready advances h
  · next h =>
      have hbelow : span ∉ Node.spansOfFunctions (Node.nodesIn q.node.children) := fun hb =>
        h (by rw [Node.functionSpans_eq]; exact List.mem_append_right _ hb)
      -- The function is neither the node nor below it, so leaving does not concern it.
      have hown : ¬(q.node.form.hasBody = true ∧ span = q.node.span) := by
        rintro ⟨hb, rfl⟩
        exact h (Node.span_mem_functionSpans (Form.isFunction_of_hasBody hb))
      rw [lookup_leaveNode_eq t₂ (ready.single _ (Node.mem_nodes_self _)), if_neg hown,
        advances.bound, Node.map_node_spotsIn, if_neg hbelow, entered.bound_of_not_mem hbelow]

/-- **What a node does is its own entering and leaving around its children.**  -/
theorem Advances.node (ready : t.Ready q.scope q.node.nodes (q.node.notesAt q.standing))
    (entered : Entered t q t₁) (advances : Advances t₁
      (Node.spotsIn q.inner q.handed q.node.children)
      (Node.spotsLeftIn q.inner q.handed q.node.children) t₂) :
    Advances t (q.node.spots q.scope q.standing) (q.node.spotsLeft q.scope q.standing)
      (t₂.leaveNode q.node) := by
  obtain ⟨chain, bound, log, hleave⟩ :=
    leaveNode_kept t₂ (ready.single _ (Node.mem_nodes_self q.node))
  obtain ⟨closed, harchive, hclosed⟩ := advances.archive
  have hnodes := Node.map_node_spots q.node q.scope q.standing
  refine ⟨?_, ?_, ?_, ?_, ?_, ?_, ?_, ?_⟩
  · rw [hleave]
    exact advances.lines.trans entered.lines
  · rw [hleave]
    exact advances.tableName.trans entered.tableName
  -- The scopes around the node are open again, whether it opened one or not.
  · cases hopen : q.opened? with
    | some name =>
        obtain ⟨frame, hchain, -⟩ := leaveNode_opened entered advances hopen
        obtain ⟨current, outer, hframes, -⟩ := ready.current
        rw [hchain]
        exact ⟨current, current, outer, hframes, hframes, .refl current⟩
    | none =>
        obtain ⟨hchain, hframes⟩ := leaveNode_unopened ready entered advances hopen
        rw [hchain]
        exact hframes
  -- The scope of the node is archived behind those of its children.
  · rw [Node.spotsLeft_eq]
    cases hopen : q.opened? with
    | some name =>
        obtain ⟨frame, hchain, hheading⟩ := leaveNode_opened entered advances hopen
        have hq : q.closes? = some (q.inner, some q.node.span) := by simp [Spot.closes?, hopen]
        refine ⟨closed ++ [frame], ?_, ?_⟩
        · rw [hchain, harchive, entered.archive, List.append_assoc]
        · simp [hclosed, hheading, hq, List.filterMap_append]
    | none =>
        obtain ⟨hchain, -⟩ := leaveNode_unopened ready entered advances hopen
        have hq : q.closes? = none := by simp [Spot.closes?, hopen]
        refine ⟨closed, ?_, ?_⟩
        · rw [hchain, harchive, entered.archive]
        · simp [hclosed, hq, List.filterMap_append]
  -- Its keys and its changes come in front of theirs.
  · rw [hleave, Node.spots_eq, List.flatMap_cons, Table.registerAll_append, ← entered.table]
    exact advances.table
  · rw [hleave, Node.spots_eq, List.flatMap_cons, List.foldl_append, ← entered.sites,
      ← entered.lines, ← entered.tableName]
    exact advances.sites
  · intro span
    rw [hnodes]
    exact lookup_leaveNode ready entered advances span
  · intro span
    rw [hleave, hnodes, ← Node.assignmentSpans, Node.assignmentSpans_eq]
    refine (advances.stated span).trans ?_
    rw [Node.map_node_spotsIn]
    -- What is stated below is settled by the children; the node itself may only be an
    -- assignment.
    by_cases hbelow : span ∈ Node.spansOfAssignments (Node.nodesIn q.node.children)
    · simp [hbelow]
    · rw [entered.stated span hbelow]
      by_cases hform : q.node.form = .assignment <;> simp [hbelow, hform]

end

/-! ## Whole trees -/

section

variable {t t₁ : Tracker} {scope : String} {handed : Handed} {n : Node} {ns : List Node}

theorem Ready.head
    (ready : t.Ready scope (Node.nodesIn (n :: ns)) (Node.notesIn handed (n :: ns))) :
    t.Ready scope n.nodes (n.notesAt (handed.standingOf n)) := by
  obtain ⟨⟨frame, outer, hframes, hname, howner⟩, hnoted, hdistinct, hsingle⟩ := ready
  rw [Node.nodesIn, Node.spansOfFunctions_append] at hdistinct
  rw [Node.nodesIn] at hsingle
  simp only [Node.nodesIn, Node.spansOfFunctions_append] at howner hnoted
  refine ⟨⟨frame, outer, hframes, hname, ?_⟩, ?_, ?_, ?_⟩
  · exact fun span h => howner span (List.mem_append_left _ h)
  · intro span h
    -- The other trees have no note on this function, as it is none of theirs.
    have hlater : (Node.notesIn (handed.after n) ns).lookup span = none := by
      rw [List.lookup_eq_none_iff]
      intro note hnote
      rw [bne_iff_ne]
      rintro rfl
      exact (List.nodup_append.1 hdistinct).2.2 _ h _ (Node.mem_spansOfFunctions_of_note hnote) rfl
    rw [hnoted span (List.mem_append_left _ h), Node.notesIn, List.lookup_append, hlater,
      Option.or_none]
  · exact (List.nodup_append.1 hdistinct).1
  · exact fun m hm => hsingle m (List.mem_append_left _ hm)

/-- No function of the first tree is one of the others, as all functions are told apart
by their spans. -/
theorem Ready.disjoint
    (ready : t.Ready scope (Node.nodesIn (n :: ns)) (Node.notesIn handed (n :: ns))) {span : Span}
    (h : span ∈ n.functionSpans) : span ∉ Node.spansOfFunctions (Node.nodesIn ns) := by
  have hdistinct := ready.distinct
  rw [Node.nodesIn, Node.spansOfFunctions_append] at hdistinct
  exact fun hs => (List.nodup_append.1 hdistinct).2.2 _ h _ hs rfl

/-- A tracker that is ready for some trees is ready for the others when it has
gone through the first. -/
theorem Ready.tail (ready : t.Ready scope (Node.nodesIn (n :: ns)) (Node.notesIn handed (n :: ns)))
    {left : List Spot} (advances : Advances t (n.spots scope (handed.standingOf n)) left t₁) :
    t₁.Ready scope (Node.nodesIn ns) (Node.notesIn (handed.after n) ns) := by
  have hdisjoint : ∀ span ∈ Node.spansOfFunctions (Node.nodesIn ns), span ∉ n.functionSpans :=
    fun span hs h => ready.disjoint h hs
  obtain ⟨⟨frame, outer, hframes, hname, howner⟩, hnoted, hdistinct, hsingle⟩ := ready
  rw [Node.nodesIn, Node.spansOfFunctions_append] at hdistinct
  rw [Node.nodesIn] at hsingle
  simp only [Node.nodesIn, Node.spansOfFunctions_append] at howner hnoted
  obtain ⟨frame', frame₁, outer', hframes', hframes₁, hext⟩ := advances.frames
  rw [hframes] at hframes'
  cases hframes'
  refine ⟨⟨frame₁, outer, hframes₁, hext.name.trans hname, ?_⟩, ?_, ?_, ?_⟩
  · intro span h
    rw [hext.owner]
    exact howner span (List.mem_append_right _ h)
  · intro span h
    -- The first tree has no note on a function of the others, and left none behind.
    have hearlier : (n.notesAt (handed.standingOf n)).lookup span = none := by
      rw [List.lookup_eq_none_iff]
      intro note hnote
      rw [bne_iff_ne]
      rintro rfl
      exact hdisjoint _ h (Node.mem_functionSpans_of_note hnote)
    rw [advances.bound, Node.map_node_spots, ← Node.functionSpans, if_neg (hdisjoint span h),
      hnoted span (List.mem_append_right _ h), Node.notesIn, List.lookup_append, hearlier,
      Option.none_or]
  · exact (List.nodup_append.1 hdistinct).2.1
  · exact fun m hm => hsingle m (List.mem_append_right _ hm)

/-- Going through some trees, if each of them can be gone through.  One tree leaves the
tracker ready for the next ones (`Ready.tail`), and what it adds is put in front of what
they add. -/
theorem visitAll_of_ready_of (ns : List Node)
    (ih : ∀ n ∈ ns, ∀ t scope standing, t.Ready scope n.nodes (n.notesAt standing) →
      ∃ t', t.visit n = .ok t' ∧
        Advances t (n.spots scope standing) (n.spotsLeft scope standing) t')
    (ready : t.Ready scope (Node.nodesIn ns) (Node.notesIn handed ns)) :
    ∃ t', t.visitAll ns = .ok t' ∧
      Advances t (Node.spotsIn scope handed ns) (Node.spotsLeftIn scope handed ns) t' := by
  induction ns generalizing t handed with
  | nil =>
      obtain ⟨frame, outer, hframes, -⟩ := ready.current
      exact ⟨t, rfl, .refl ⟨frame, outer, hframes⟩⟩
  | cons n ns ihs =>
      obtain ⟨t₁, hvisit, hfirst⟩ := ih n List.mem_cons_self t scope _ ready.head
      obtain ⟨t₂, hvisits, hrest⟩ := ihs (fun m hm => ih m (List.mem_cons_of_mem _ hm))
        (ready.tail hfirst)
      refine ⟨t₂, ?_, ?_⟩
      · rw [visitAll, hvisit]
        exact hvisits
      · rw [Node.spotsIn, Node.spotsLeftIn]
        -- Both advances can be put together, as no function is in both.
        refine hfirst.trans hrest ?_
        rw [Node.map_node_spots, Node.map_node_spotsIn]
        exact fun span h => ready.disjoint h

/-- **A tracker that is ready for a tree goes through it**, and what it has
collected then is what the spots of the tree say. -/
theorem visit_of_ready (n : Node) (t : Tracker) (scope : String) (standing : Standing)
    (ready : t.Ready scope n.nodes (n.notesAt standing)) :
    ∃ t', t.visit n = .ok t' ∧
      Advances t (n.spots scope standing) (n.spotsLeft scope standing) t' := by
  induction n using Node.induction generalizing t scope standing with
  | node role form span children ih =>
      let q : Spot := ⟨scope, standing, ⟨role, form, span, children⟩⟩
      obtain ⟨t₁, henter, hentered⟩ := enterNode_of_ready (q := q) ready
      obtain ⟨t₂, hvisits, hbelow⟩ := visitAll_of_ready_of children ih (hentered.ready ready)
      exact ⟨t₂.leaveNode q.node, visit_of_steps henter hvisits,
        Advances.node ready hentered hbelow⟩

/-- **A tracker that is ready for some trees goes through them.**  -/
theorem visitAll_of_ready (ns : List Node)
    (ready : t.Ready scope (Node.nodesIn ns) (Node.notesIn handed ns)) :
    ∃ t', t.visitAll ns = .ok t' ∧
      Advances t (Node.spotsIn scope handed ns) (Node.spotsLeftIn scope handed ns) t' :=
  visitAll_of_ready_of ns (fun n _ => visit_of_ready n) ready

end

end Tracker
end ScopeTrack
