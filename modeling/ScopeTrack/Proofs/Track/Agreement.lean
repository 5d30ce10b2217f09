/-
# What is collected fits together

The table, the scopes and the update sites are collected by different steps of a
traversal, and in the end they agree (`Analysis.artifacts_agree`).

The key of a site is in the table.  A declarator registers its variables when it
records their sites.  A statement that is an assignment records its site before
the assignment registers its target, but the assignment stands right below the
statement, in the same scope (`Spot.exists_key_of_change`).

The variables of a scope are in the table, each under the name of its scope, and
no scope declares a variable twice.  This holds of all scopes, open and closed,
at every moment of a traversal (`Tracker.Agrees`): a scope starts out with nothing
declared, only a declarator declares more, and leaving only moves a scope from
the open ones to the closed ones (`leaveNode_scopes`).
-/

import ScopeTrack.Proofs.Track.Collected
import ScopeTrack.Proofs.Track.Invariant

namespace ScopeTrack

/-! ## Declaring -/

namespace Scope.Frame

theorem nodup_declareAll {f : Scope.Frame} (names : List String) (h : f.declared.Nodup) :
    (f.declareAll names).declared.Nodup := by
  induction names generalizing f with
  | nil => exact h
  | cons name names ih => exact ih (nodup_declare name h)

end Scope.Frame

/-! ## All scopes of a chain -/

namespace Scope.Chain

/-- All scopes of a chain, the open ones and the closed ones. -/
def scopes (c : Scope.Chain) : List Scope.Frame :=
  c.frames ++ c.archive

/-- Leaving a function moves its scope to the archive, and no scope is lost. -/
theorem scopes_perm_of_leave? {c c' : Scope.Chain} {owner : Span} {frame : Scope.Frame}
    (h : c.leave? owner = some (frame, c')) : c'.scopes.Perm c.scopes := by
  unfold leave? at h
  split at h
  · cases h
  · next first outer hframes =>
      split at h
      · cases h
        rw [scopes, scopes, hframes, ← List.append_assoc, List.cons_append]
        exact List.perm_append_singleton _ _
      · cases h

/-- Closing the global scope moves it to the archive. -/
theorem scopes_perm_of_closeGlobal? {c c' : Scope.Chain} {frame : Scope.Frame}
    (h : c.closeGlobal? = some (frame, c')) : c'.scopes.Perm c.scopes := by
  unfold closeGlobal? at h
  split at h
  · next only hframes =>
      cases h
      rw [scopes, scopes, hframes, List.nil_append]
      exact List.perm_append_comm
  · cases h

end Scope.Chain

namespace Tracker

/-- Taking over a chain in which a scope has been closed keeps all scopes, and the
table. -/
theorem setClosed_scopes (t : Tracker) {closed : Option (Scope.Frame × Scope.Chain)}
    (h : ∀ frame chain, closed = some (frame, chain) → chain.scopes.Perm t.chain.scopes) :
    (t.setClosed closed).chain.scopes.Perm t.chain.scopes ∧
      (t.setClosed closed).table = t.table := by
  cases closed with
  | none => exact ⟨.refl _, rfl⟩
  | some closed => exact ⟨h closed.1 closed.2 rfl, rfl⟩

/-- Leaving a node may close a scope, but no scope changes. -/
theorem leaveNode_scopes (t : Tracker) (n : Node) :
    (t.leaveNode n).chain.scopes.Perm t.chain.scopes ∧ (t.leaveNode n).table = t.table := by
  unfold leaveNode
  cases n.shape? with
  | none => exact ⟨.refl _, rfl⟩
  | some shape =>
      cases shape with
      | program => exact setClosed_scopes t fun _ _ => Scope.Chain.scopes_perm_of_closeGlobal?
      | function form name parameters =>
          exact setClosed_scopes _ fun _ _ => Scope.Chain.scopes_perm_of_leave?
      | _ => exact ⟨.refl _, rfl⟩

/-! ## Scopes and the table -/

/-- Every scope declares its variables once, and has registered them. -/
structure Agrees (t : Tracker) : Prop where
  nodup : ∀ frame ∈ t.chain.scopes, frame.declared.Nodup
  registered : ∀ frame ∈ t.chain.scopes, ∀ name ∈ frame.declared,
    Table.key frame.name name ∈ t.table.keys

variable {t t₁ : Tracker}

/-- A table with more keys agrees with the same scopes. -/
theorem Agrees.of_scopes (h : t.Agrees) (hscopes : ∀ frame ∈ t₁.chain.scopes,
      frame ∈ t.chain.scopes ∨ frame.declared = [])
    (hkeys : ∀ key ∈ t.table.keys, key ∈ t₁.table.keys) : t₁.Agrees := by
  constructor
  · intro frame hframe
    rcases hscopes frame hframe with hold | hnew
    · exact h.nodup frame hold
    · rw [hnew]
      exact List.nodup_nil
  · intro frame hframe name hname
    rcases hscopes frame hframe with hold | hnew
    · exact hkeys _ (h.registered frame hold name hname)
    · rw [hnew] at hname
      cases hname

/-- The innermost scope may declare variables that are registered. -/
theorem Agrees.of_declareAll (h : t.Agrees) {frame : Scope.Frame} {outer : List Scope.Frame}
    (hframes : t.chain.frames = frame :: outer) {names : List String}
    (hchain : t₁.chain = ⟨frame.declareAll names :: outer, t.chain.archive⟩)
    (htable : t₁.table = (t.table.registerAll (names.map (Table.key frame.name))).2) :
    t₁.Agrees := by
  have hkeys : ∀ key, key ∈ t₁.table.keys ↔
      key ∈ t.table.keys ∨ key ∈ names.map (Table.key frame.name) := by
    intro key
    rw [htable, Table.mem_keys_registerAll]
  have hcurrent : frame ∈ t.chain.scopes := by
    rw [Scope.Chain.scopes, hframes]
    exact List.mem_cons_self
  -- Only the innermost scope has changed.
  have hcases : ∀ other ∈ t₁.chain.scopes,
      other = frame.declareAll names ∨ other ∈ t.chain.scopes := by
    intro other hother
    rw [hchain, Scope.Chain.scopes, List.cons_append, List.mem_cons] at hother
    rcases hother with hother | hother
    · exact .inl hother
    · refine .inr ?_
      rw [Scope.Chain.scopes, hframes, List.cons_append]
      exact List.mem_cons_of_mem _ hother
  constructor
  · intro other hother
    rcases hcases other hother with rfl | hother
    · exact Scope.Frame.nodup_declareAll names (h.nodup frame hcurrent)
    · exact h.nodup other hother
  · intro other hother name hname
    rw [hkeys]
    rcases hcases other hother with rfl | hother
    · rw [(Scope.Frame.Extends.declareAll frame names).name]
      rcases (frame.mem_declared_declareAll names).1 hname with hname | hname
      · exact .inl (h.registered frame hcurrent name hname)
      · exact .inr (List.mem_map_of_mem hname)
    · exact .inl (h.registered other hother name hname)

/-- **Entering a node keeps scopes and table in agreement.**  -/
theorem Agrees.enter (h : t.Agrees) (grounded : t.chain.Grounded) {n : Node}
    (hprogram : n.form ≠ .program) (henter : t.enterNode n = .ok t₁) : t₁.Agrees := by
  obtain ⟨frame, outer, hframes⟩ := grounded.exists_frames
  cases enters_of_enterNode hframes hprogram henter with
  | passes => exact h
  | opens scope reported log =>
      refine h.of_scopes ?_ fun key hkey => (Table.mem_keys_registerAll _ _).2 (.inl hkey)
      intro other hother
      rw [Scope.Chain.scopes, List.cons_append, List.mem_cons] at hother
      rcases hother with rfl | hother
      · exact .inr rfl
      · exact .inl (by rw [Scope.Chain.scopes, hframes]; exact hother)
  | declares sites bound log => exact h.of_declareAll hframes rfl rfl
  | states assignment sites bound log => exact ⟨h.nodup, h.registered⟩
  | assigns log =>
      exact h.of_scopes (fun other hother => .inl hother) fun key hkey =>
        (Table.mem_keys_registerAll _ _).2 (.inl hkey)

/-- Leaving a node keeps them in agreement too. -/
theorem Agrees.leave (h : t.Agrees) (n : Node) : (t.leaveNode n).Agrees := by
  obtain ⟨hscopes, htable⟩ := leaveNode_scopes t n
  refine h.of_scopes (fun frame hframe => .inl (hscopes.mem_iff.1 hframe)) ?_
  rw [htable]
  exact fun key hkey => hkey

/-- **At the end of a traversal scopes and table agree**, whatever the spans of
the program are. -/
theorem visit_agrees {program : Node} (isProgram : program.IsProgram) (source tableName : String) :
    ∃ t, (start source tableName).visit program = .ok t ∧ t.Agrees := by
  have hstart : ∀ log, Agrees { start source tableName with log := log } := by
    intro log
    constructor
    · intro frame hframe
      rw [List.mem_singleton.1 hframe]
      exact List.nodup_nil
    · intro frame hframe name hname
      rw [List.mem_singleton.1 hframe] at hname
      cases hname
  obtain ⟨t, hvisit, h⟩ := visit_program_of_invariant isProgram hstart
    (fun m hm _ _ t t₁ grounded h henter _ => h.enter grounded (isProgram.single m hm) henter)
    (fun m _ t h => h.leave m)
  exact ⟨t.leaveNode program, hvisit, h.leave program⟩

end Tracker

/-! ## Sites and the table -/

/-- **What changes is registered.**  The variable of a change at a spot is among
the keys of the spot, or of the assignment right below it. -/
theorem Spot.exists_key_of_change {q : Spot} {change : Change} (h : change ∈ q.changes)
    {name : String} (hname : change.target.name? = some name) :
    ∃ r ∈ q.node.spots q.scope q.standing, Table.key change.scope name ∈ r.keys := by
  unfold changes at h
  split at h
  · next hform =>
      refine ⟨q, ?_, ?_⟩
      · rw [Node.spots_eq]
        exact List.mem_cons_self
      · split at h
        · obtain ⟨declared, hdeclared, rfl⟩ := List.mem_map.1 h
          cases hname
          rw [keys, hform]
          exact List.mem_map_of_mem hdeclared
        · cases h
  · next hform =>
      obtain ⟨assignment, hassignment, rfl⟩ := List.mem_map.1 h
      obtain ⟨hchild, ha⟩ := Node.statedAssignment?_eq_some (Option.mem_toList.1 hassignment)
      obtain ⟨standing, hspot⟩ := Node.exists_spot_of_child hchild
      have hinner : q.inner = q.scope := inner_of_not_opened (by simp [opened?, hform])
      rw [hinner] at hspot
      refine ⟨_, hspot, ?_⟩
      simp only at hname
      simp [keys, ha, hname]
  · cases h

namespace Analysis

/-- `function f() { var a = 1, a = 2; a.b = 3; }` -/
def repeatedVariable : Node :=
  ⟨.other, .program, ⟨0, 43⟩, [
    ⟨.statement, .function .declaration (some "f"), ⟨0, 43⟩, [
      ⟨.other, .identifier "f", ⟨9, 10⟩, []⟩,
      ⟨.body, .statementList, ⟨13, 43⟩, [
        ⟨.other, .variableDeclaration, ⟨15, 32⟩, [
          ⟨.other, .declarator, ⟨19, 24⟩, [
            ⟨.subject, .identifier "a", ⟨19, 20⟩, []⟩,
            ⟨.value, .other, ⟨23, 24⟩, []⟩]⟩,
          ⟨.other, .declarator, ⟨26, 31⟩, [
            ⟨.subject, .identifier "a", ⟨26, 27⟩, []⟩,
            ⟨.value, .other, ⟨30, 31⟩, []⟩]⟩]⟩,
        ⟨.other, .expressionStatement, ⟨33, 41⟩, [
          ⟨.value, .assignment, ⟨33, 40⟩, [
            ⟨.subject, .member (.property "b"), ⟨33, 36⟩, [
              ⟨.subject, .identifier "a", ⟨33, 34⟩, []⟩,
              ⟨.other, .identifier "b", ⟨35, 36⟩, []⟩]⟩,
            ⟨.value, .other, ⟨39, 40⟩, []⟩]⟩]⟩]⟩]⟩]⟩

/-- **Table, scopes and sites agree.**  The key of every site whose target is
known is in the table, and every scope declares its variables once and has them
in the table. -/
theorem artifacts_agree {program : Node} (delivered : program.Delivered)
    (source tableName : String) :
    ∃ a log, ofProgram tableName source program = .ok (a, log) ∧
      (∀ site ∈ a.sites, ∀ key, site.key = some key → key ∈ a.table.keys) ∧
      ∀ frame ∈ a.scopes, frame.declared.Nodup ∧
        ∀ name ∈ frame.declared, Table.key frame.name name ∈ a.table.keys := by
  obtain ⟨t, hvisit, completes⟩ := Tracker.visit_delivered delivered source tableName
  obtain ⟨t', hvisit', agrees⟩ := Tracker.visit_agrees delivered.toIsProgram source tableName
  obtain rfl : t = t' := Except.ok.inj (hvisit.symm.trans hvisit')
  have hscopes : ∀ frame ∈ (ofTracker t).scopes, frame ∈ t.chain.scopes :=
    fun frame hframe => List.mem_append_right _ hframe
  refine ⟨ofTracker t, t.log, ofProgram_of_visit hvisit, ?_, ?_⟩
  · intro site hsite key hkey
    have hchanges : site ∈ (((program.spots Scope.globalName .plain).flatMap Spot.changes).mapIdx
        (Change.site (LineIndex.ofText source) tableName)) := by
      simpa [ofTracker, completes.sites, Change.foldl_record] using hsite
    obtain ⟨i, hi, rfl⟩ := List.mem_mapIdx.1 hchanges
    rw [Change.key_site, Option.map_eq_some_iff] at hkey
    obtain ⟨name, hname, rfl⟩ := hkey
    obtain ⟨q, hq, hchange⟩ := List.mem_flatMap.1 (List.getElem_mem hi)
    obtain ⟨r, hr, hmem⟩ := Spot.exists_key_of_change hchange hname
    change _ ∈ t.table.keys
    rw [completes.table, Table.mem_keys_registerAll]
    exact .inr (List.mem_flatMap.2 ⟨r, Node.spots_subset hq hr, hmem⟩)
  · intro frame hframe
    exact ⟨agrees.nodup frame (hscopes frame hframe),
      agrees.registered frame (hscopes frame hframe)⟩

/-- A variable that is declared twice and changed three times has one key. -/
theorem artifacts_agree_repeatedVariable :
    repeatedVariable.Delivered ∧
      ∃ a log, ofProgram "state" "" repeatedVariable = .ok (a, log) ∧
        a.sites.map UpdateSite.key =
          [some "Program:f:a", some "Program:f:a", some "Program:f:a"] ∧
        "Program:f:a" ∈ a.table.keys ∧
        ∀ frame ∈ a.scopes, frame.declared.Nodup := by
  have delivered : repeatedVariable.Delivered := ⟨⟨rfl, by decide⟩, by decide⟩
  obtain ⟨a, log, hanalysis, hkeys, hscopes⟩ := artifacts_agree delivered "" "state"
  have hsites : (ofProgram "state" "" repeatedVariable).toOption.map
      (fun result => result.1.sites.map UpdateSite.key) =
        some [some "Program:f:a", some "Program:f:a", some "Program:f:a"] := by
    decide +kernel
  rw [hanalysis] at hsites
  have hmap : a.sites.map UpdateSite.key =
      [some "Program:f:a", some "Program:f:a", some "Program:f:a"] := Option.some.inj hsites
  have hmem : some "Program:f:a" ∈ a.sites.map UpdateSite.key := by
    rw [hmap]
    exact List.mem_cons_self
  obtain ⟨site, hsite, hkey⟩ := List.mem_map.1 hmem
  exact ⟨delivered, a, log, hanalysis, hmap, hkeys site hsite _ hkey,
    fun frame hframe => (hscopes frame hframe).1⟩

end Analysis
end ScopeTrack
