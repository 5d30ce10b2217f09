/-
# Where sites are recorded

`Tracker.Records` says that a tracker that enters a node records a site there.
Every site of an analysis is recorded at one of the nodes that the traversal comes
to (`exists_records_of_visit`), and it is at the location where that node ends
(`Arrives.location_of_records`).  The function that owns the innermost scope
then, if there is one, is a function around the node (`Arrives.owner_around`).
-/

import ScopeTrack.Proofs.Track.Collected
import ScopeTrack.Proofs.Track.Invariant

namespace ScopeTrack

/-- Changes are those of declarators and statements, where these end. -/
theorem Spot.stop_of_change {q : Spot} {change : Change} (h : change ∈ q.changes) :
    change.stop = q.node.span.stop ∧ q.node.form.isChanging = true := by
  unfold changes at h
  split at h
  · next hform =>
      split at h
      · obtain ⟨name, -, rfl⟩ := List.mem_map.1 h
        exact ⟨rfl, by rw [hform]; rfl⟩
      · cases h
  · next hform =>
      obtain ⟨assignment, -, rfl⟩ := List.mem_map.1 h
      exact ⟨rfl, by rw [hform]; rfl⟩
  · cases h

namespace Tracker

/-- The function that owns the innermost scope. -/
def owner? (t : Tracker) : Option Span :=
  t.chain.frames.head?.bind Scope.Frame.owner

/-- Entering the node, the tracker records the site. -/
structure Records (t : Tracker) (n : Node) (site : UpdateSite) : Prop where
  entered : ∃ t₁, t.enterNode n = .ok t₁ ∧ site ∈ t₁.sites
  new : site ∉ t.sites

/-! ## Every site is recorded -/

theorem Arrives.mem_nodes {t t' : Tracker} {n n' : Node} (arrives : Arrives t n t' n') :
    n' ∈ n.nodes := by
  induction arrives with
  | here t n => exact Node.mem_nodes_self n
  | inside _ children _ _ ih =>
      refine Node.mem_nodes_of_child ?_ ih
      rw [children]
      exact List.mem_append_right _ List.mem_cons_self

/-- If a site is new after some trees, it became so in one of them, and until then it
was not there.  The induction goes along the trees to the first one after which the site
is there. -/
theorem exists_records_of_visitAll {ns : List Node} {site : UpdateSite}
    (ih : ∀ n ∈ ns, ∀ t t', t.visit n = .ok t' → site ∈ t'.sites → site ∉ t.sites →
      ∃ t₁ m, Arrives t n t₁ m ∧ t₁.Records m site)
    {t t' : Tracker} (h : t.visitAll ns = .ok t') (hsite : site ∈ t'.sites)
    (hnew : site ∉ t.sites) :
    ∃ before child after t₂, ns = before ++ child :: after ∧ t.visitAll before = .ok t₂ ∧
      ∃ t₁ m, Arrives t₂ child t₁ m ∧ t₁.Records m site := by
  induction ns generalizing t with
  | nil =>
      cases h
      exact absurd hsite hnew
  | cons n ns ihs =>
      rw [visitAll] at h
      cases hvisit : t.visit n with
      | error e =>
          rw [hvisit] at h
          cases h
      | ok t₂ =>
          rw [hvisit] at h
          -- The site comes up in this tree, or it is still new to the next ones.
          by_cases hfirst : site ∈ t₂.sites
          · exact ⟨[], n, ns, t, rfl, rfl, ih n List.mem_cons_self t t₂ hvisit hfirst hnew⟩
          · obtain ⟨before, child, after, t₃, hsplit, hbefore, hrecords⟩ :=
              ihs (fun m hm => ih m (List.mem_cons_of_mem _ hm)) h hfirst
            refine ⟨n :: before, child, after, t₃, by rw [hsplit]; rfl, ?_, hrecords⟩
            rw [visitAll, hvisit]
            exact hbefore

/-- **A site that a visit adds is recorded at a node that the visit comes to.**  -/
theorem exists_records_of_visit {site : UpdateSite} (n : Node) (t t' : Tracker)
    (h : t.visit n = .ok t') (hsite : site ∈ t'.sites) (hnew : site ∉ t.sites) :
    ∃ t₁ m, Arrives t n t₁ m ∧ t₁.Records m site := by
  induction n using Node.induction generalizing t t' with
  | node role form span children ih =>
      let n : Node := ⟨role, form, span, children⟩
      obtain ⟨t₁, t₂, henter, hvisits, rfl⟩ := steps_of_visit h
      obtain ⟨chain, bound, log, hleave⟩ := leaveNode_eq t₂ n
      rw [hleave] at hsite
      -- The site is recorded here, or in one of the children; leaving records nothing.
      by_cases hown : site ∈ t₁.sites
      · exact ⟨t, n, .here t n, ⟨t₁, henter, hown⟩, hnew⟩
      · obtain ⟨before, child, after, t₃, hsplit, hbefore, t₄, m, arrives, hrecords⟩ :=
          exists_records_of_visitAll ih hvisits hsite hown
        exact ⟨t₄, m, .inside henter hsplit hbefore arrives, hrecords⟩

/-! ## The tracker that comes to a node -/

/-- What a tracker keeps on its way to the node `m` among `ns`: the lines, and the
owner of the innermost scope, unless a function around the node has opened one. -/
structure Leads (t : Tracker) (ns : List Node) (m : Node) (t' : Tracker) : Prop where
  lines : t'.lines = t.lines
  owner : t'.owner? = t.owner? ∨
    ∃ f ∈ ns, f.form.isFunction = true ∧ m ∈ f.nodes ∧ t'.owner? = some f.span

/-- Declaring variables does not change who owns the innermost scope. -/
theorem owner?_eq_of_extends {t t' : Tracker} (h : ∃ frame frame' outer,
      t.chain.frames = frame :: outer ∧ t'.chain.frames = frame' :: outer ∧ frame.Extends frame') :
    t'.owner? = t.owner? := by
  obtain ⟨frame, frame', outer, hframes, hframes', hext⟩ := h
  simp [owner?, hframes, hframes', hext.owner]

/-- Going through the children before one of them keeps the lines and the owner
of the innermost scope. -/
theorem Ready.kept_of_visited {t t₂ : Tracker} {scope : String} {handed : Handed} {child : Node}
    {before after : List Node}
    (ready : t.Ready scope (Node.nodesIn (before ++ child :: after))
      (Node.notesIn handed (before ++ child :: after)))
    (visited : t.visitAll before = .ok t₂) : t₂.lines = t.lines ∧ t₂.owner? = t.owner? := by
  induction before generalizing t handed with
  | nil =>
      cases visited
      exact ⟨rfl, rfl⟩
  | cons n before ih =>
      obtain ⟨t₁, hvisit, advances⟩ := visit_of_ready n t scope _ ready.head
      rw [visitAll, hvisit] at visited
      obtain ⟨hlines, howner⟩ := ih (ready.tail advances) visited
      exact ⟨hlines.trans advances.lines, howner.trans (owner?_eq_of_extends advances.frames)⟩

/-- What leads through a child leads through the parent, since the children in front
leave the lines and the innermost scope as they were. -/
theorem Leads.of_visited {t t₂ t' : Tracker} {m child : Node} {before after : List Node}
    (kept : t₂.lines = t.lines ∧ t₂.owner? = t.owner?) (leads : Leads t₂ child.nodes m t') :
    Leads t (Node.nodesIn (before ++ child :: after)) m t' := by
  refine ⟨leads.lines.trans kept.1, ?_⟩
  rcases leads.owner with howner | ⟨f, hf, hfunction, hm, howner⟩
  · exact .inl (howner.trans kept.2)
  · refine .inr ⟨f, Node.mem_nodesIn.2 ⟨child, ?_, hf⟩, hfunction, hm, howner⟩
    exact List.mem_append_right _ List.mem_cons_self

/-- **The tracker that comes to a node has kept its lines, and its innermost scope is
that of a function around the node** or the one it had at first.  By induction on the
way: entering a node on it either opens its scope, and then the node is the function, or
leaves the innermost one. -/
theorem Arrives.leads {t t' : Tracker} {n n' : Node} (arrives : Arrives t n t' n')
    {scope : String} {standing : Standing} (ready : t.Ready scope n.nodes (n.notesAt standing)) :
    Leads t n.nodes n' t' := by
  induction arrives generalizing scope standing with
  | here t n => exact ⟨rfl, .inl rfl⟩
  | @inside t t₁ t₂ t' n child n' before after entered children visited arrives ih =>
      let q : Spot := ⟨scope, standing, n⟩
      obtain ⟨t₁', henter, hentered⟩ := enterNode_of_ready (q := q) ready
      obtain rfl : t₁' = t₁ := Except.ok.inj (henter.symm.trans entered)
      have hready := hentered.ready ready
      simp only [q, children] at hready
      obtain ⟨standing₁, hchild, -⟩ := hready.of_visited visited
      have hleads : Leads t₁' (Node.nodesIn n.children) n' t' := by
        rw [children]
        exact .of_visited (hready.kept_of_visited visited) (ih hchild)
      refine ⟨hleads.lines.trans hentered.lines, ?_⟩
      -- Either the children kept the innermost scope, which may be that of the node, or a
      -- function among them has opened one.
      rcases hleads.owner with howner | ⟨f, hf, hfunction, hn', howner⟩
      · cases hopen : q.opened? with
        | some name =>
            have hn' : n' ∈ n.nodes := (Arrives.inside entered children visited arrives).mem_nodes
            refine .inr ⟨n, Node.mem_nodes_self n,
              Form.isFunction_of_hasBody (Spot.hasBody_of_opened hopen), hn', ?_⟩
            rw [howner, owner?, hentered.opened name hopen]
            rfl
        | none => exact .inl (howner.trans (owner?_eq_of_extends (hentered.kept hopen)))
      · exact .inr ⟨f, Node.mem_nodes_of_below hf, hfunction, hn', howner⟩

section

variable {program n : Node} {t : Tracker} {source tableName : String}

/-- The same from the start of the program: only the program itself is no node below it,
and it opens no scope. -/
theorem Arrives.leads_of_program (delivered : program.Delivered)
    (arrives : Arrives (start source tableName) program t n) (hn : n.form ≠ .program) :
    Leads (start source tableName) (Node.nodesIn program.children) n t := by
  cases arrives with
  | here => exact absurd delivered.form hn
  | @inside _ t₁ t₂ _ _ child _ before after entered children visited arrives =>
      obtain ⟨log, henter⟩ := enterNode_program (t := start source tableName) delivered.form rfl
      obtain rfl := Except.ok.inj (henter.symm.trans entered)
      have hready := ready_of_delivered delivered source tableName log
      rw [children] at hready ⊢
      obtain ⟨standing, hchild, -⟩ := hready.of_visited visited
      exact .of_visited (hready.kept_of_visited visited) (arrives.leads hchild)

/-- A program records no site itself. -/
theorem Arrives.form_ne_program (delivered : program.Delivered)
    (arrives : Arrives (start source tableName) program t n) {site : UpdateSite}
    (records : t.Records n site) : n.form ≠ .program := by
  intro hn
  obtain ⟨⟨t₁, henter, hsite⟩, hnew⟩ := records
  cases arrives with
  | here =>
      obtain ⟨log, hlog⟩ := enterNode_program (t := start source tableName) hn rfl
      obtain rfl := Except.ok.inj (hlog.symm.trans henter)
      exact hnew hsite
  | inside entered children visited arrives =>
      refine delivered.single n ?_ hn
      rw [children]
      exact Node.mem_nodesIn.2 ⟨_, List.mem_append_right _ List.mem_cons_self, arrives.mem_nodes⟩

/-- **A site is recorded at the end of the node**, which is a declarator or a
statement. -/
theorem Arrives.location_of_records (delivered : program.Delivered)
    (arrives : Arrives (start source tableName) program t n) {site : UpdateSite}
    (records : t.Records n site) :
    site.location = (LineIndex.ofText source).location n.span.stop ∧
      n.form.isChanging = true := by
  have hn := arrives.form_ne_program delivered records
  obtain ⟨scope, standing, ready, -⟩ := arrives.ready_of_program delivered hn
  obtain ⟨⟨t₁, henter, hsite⟩, hnew⟩ := records
  let q : Spot := ⟨scope, standing, n⟩
  obtain ⟨t₁', henter', hentered⟩ := enterNode_of_ready (q := q) ready
  obtain rfl := Except.ok.inj (henter'.symm.trans henter)
  rw [hentered.sites, Change.foldl_record, List.mem_append] at hsite
  rcases hsite with hold | hadded
  · exact absurd hold hnew
  · obtain ⟨i, hi, rfl⟩ := List.mem_mapIdx.1 hadded
    obtain ⟨hstop, hform⟩ := Spot.stop_of_change (List.getElem_mem hi)
    have hlines : t.lines = LineIndex.ofText source :=
      (arrives.leads_of_program delivered hn).lines
    rw [Change.location_site, hlines, hstop]
    exact ⟨rfl, hform⟩

/-- **The owner of the innermost scope is a function around the node.**  -/
theorem Arrives.owner_around (delivered : program.Delivered)
    (arrives : Arrives (start source tableName) program t n) (hn : n.form ≠ .program)
    {owner : Span} (howner : t.owner? = some owner) :
    ∃ f ∈ program.nodes, f.form.isFunction = true ∧ n ∈ f.nodes ∧ f.span = owner := by
  rcases (arrives.leads_of_program delivered hn).owner with hkept | ⟨f, hf, hfunction, hn, hspan⟩
  · rw [hkept] at howner
    cases howner
  · exact ⟨f, Node.mem_nodes_of_below hf, hfunction, hn,
      Option.some.inj (hspan.symm.trans howner)⟩

end

end Tracker
end ScopeTrack
