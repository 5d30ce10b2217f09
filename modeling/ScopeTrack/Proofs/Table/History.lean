/-
# Registering variables, call after call

Four kinds of calls register variables in a table: one for a single key, and
those for the parameters of a function, for a declarator and for an assignment.
Each is made for a scope, which only a declarator changes.  Patterns and
parameters count by the names that they bind, targets by the variable that is
written, if it is known.

| call | keys | declared in the scope |
| --- | --- | --- |
| `register` | the key | nothing |
| `parameters` | one for each name, in the function's scope | nothing |
| `declarator` | one for each name | each name |
| `assignment` | the one of the variable, if it is known | nothing |

A call registers its keys in order and does nothing else to the table
(`call_eq`), so a history of calls is one long registration (`after_eq`): the
keys stand in the order in which they came up first, each once, with the value
null (`after_keeps_order`).
-/

import ScopeTrack.Proofs.Table.Registration

namespace ScopeTrack

namespace Table

/-! ## Registering keys -/

/-- What is told to be new is what has been added. -/
theorem entries_registerAll_added (t : Table) (keys : List String) :
    (t.registerAll keys).2.entries =
      t.entries ++ (t.registerAll keys).1.map fun key => (key, .null) := by
  induction keys generalizing t with
  | nil => simp [registerAll]
  | cons key keys ih =>
      cases h : t.contains key with
      | true =>
          rw [registerAll, register_of_contains h]
          exact ih t
      | false =>
          rw [registerAll, register_of_not_contains h]
          show ((Table.mk _).registerAll keys).2.entries = _
          rw [ih]
          simp

/-- The keys that are told to be new are those that are not there yet, each
once. -/
theorem registerAll_fst (t : Table) (keys : List String) :
    (t.registerAll keys).1 = (keys.filter fun key => !t.contains key).eraseDups := by
  have hadded := (entries_registerAll_added t keys).symm.trans (entries_registerAll t keys)
  have hinjective : Function.Injective fun key : String => (key, Json.null) :=
    fun _ _ h => (Prod.mk.inj h).1
  exact (List.map_inj_right hinjective).1 (List.append_cancel_left hadded)

/-- A table grows by the keys that are told to be new. -/
theorem size_registerAll (t : Table) (keys : List String) :
    (t.registerAll keys).2.size = t.size + (t.registerAll keys).1.length := by
  rw [size, entries_registerAll_added, List.length_append, List.length_map]
  rfl

/-- Keys are put behind those that are there. -/
theorem keys_prefix_registerAll (t : Table) (keys : List String) :
    t.keys <+: (t.registerAll keys).2.keys := by
  rw [Table.keys, Table.keys, entries_registerAll, List.map_append]
  exact List.prefix_append _ _

/-- Keys that are there are not registered again. -/
theorem registerAll_of_mem {t : Table} {keys : List String} (h : ∀ key ∈ keys, key ∈ t.keys) :
    t.registerAll keys = ([], t) := by
  induction keys with
  | nil => rfl
  | cons key keys ih =>
      obtain ⟨hkey, hkeys⟩ := List.forall_mem_cons.1 h
      rw [registerAll, register_of_contains (contains_iff.2 hkey)]
      exact ih hkeys

theorem nodup_keys_register {t : Table} (h : t.keys.Nodup) (key : String) :
    (t.register key).2.keys.Nodup := by
  rw [keys_register]
  split
  · exact h
  · next hnew =>
      rw [contains_iff] at hnew
      refine List.nodup_append.2 ⟨h, List.pairwise_singleton _ key, ?_⟩
      intro other hother new hmem
      rw [List.mem_singleton.1 hmem]
      rintro rfl
      exact hnew hother

/-- Nor after keys are registered one after the other. -/
theorem nodup_keys_registerAll {t : Table} (h : t.keys.Nodup) (keys : List String) :
    (t.registerAll keys).2.keys.Nodup := by
  induction keys generalizing t with
  | nil => exact h
  | cons key keys ih =>
      rw [registerAll_cons]
      exact ih (nodup_keys_register h key)

/-! ## Calls -/

/-- A call that registers variables. -/
inductive Call where
  | register (key : String)
  | parameters (scope : String) (names : List String)
  | declarator (names : List String)
  | assignment (target : Target)
deriving DecidableEq, Repr

namespace Call

/-- The keys that a call for a scope registers. -/
def keys (frame : Scope.Frame) : Call → List String
  | register key => [key]
  | parameters scope names => names.map (key scope)
  | declarator names => names.map (key frame.name)
  | assignment target => target.name?.toList.map (key frame.name)

/-- The variables that a call declares in its scope. -/
def declares : Call → List String
  | declarator names => names
  | _ => []

end Call

/-- The table and the scope after a call. -/
def call (t : Table) (frame : Scope.Frame) : Call → Table × Scope.Frame
  | .register key => ((t.register key).2, frame)
  | .parameters scope names => ((t.registerParameters scope names).2, frame)
  | .declarator names => (t.registerDeclarator frame names).2
  | .assignment target => ((t.registerAssignment frame.name target).2, frame)

/-- The table after some calls, each for some scope. -/
def after (t : Table) (history : List (Scope.Frame × Call)) : Table :=
  history.foldl (fun t entry => (t.call entry.1 entry.2).1) t

/-- The keys that some calls register, in order. -/
def registered (history : List (Scope.Frame × Call)) : List String :=
  history.flatMap fun entry => entry.2.keys entry.1

/-- **What a call does**: it registers its keys, and declares its variables. -/
theorem call_eq (t : Table) (frame : Scope.Frame) (c : Call) :
    t.call frame c = ((t.registerAll (c.keys frame)).2, frame.declareAll c.declares) := by
  cases c with
  | register key => rw [Call.keys, registerAll_cons]; rfl
  | _ => rfl

/-- **A history of calls is one registration of all its keys.**  -/
theorem after_eq (t : Table) (history : List (Scope.Frame × Call)) :
    t.after history = (t.registerAll (registered history)).2 := by
  induction history generalizing t with
  | nil => rfl
  | cons entry history ih =>
      rw [registered, List.flatMap_cons, registerAll_append]
      show (t.call entry.1 entry.2).1.after history = _
      rw [ih, call_eq]
      rfl

/-- The keys of a history stand where they came up first, each with the value
null. -/
theorem entries_after_empty (history : List (Scope.Frame × Call)) :
    (empty.after history).entries = (registered history).eraseDups.map fun key => (key, .null) := by
  rw [after_eq, entries_registerAll_empty]

/-- **The keys of a table are those that were asked for, each at its first time.**
Starting from nothing, every key that is there was registered. -/
theorem keys_after_empty (history : List (Scope.Frame × Call)) :
    (empty.after history).keys = (registered history).eraseDups := by
  rw [Table.keys, entries_after_empty, List.map_map]
  exact List.map_id _

/-- Registration gives no key a value, whatever the calls are. -/
theorem null_of_mem_after (history : List (Scope.Frame × Call)) :
    ∀ entry ∈ (empty.after history).entries, entry.2 = .null := by
  rw [entries_after_empty, List.forall_mem_map]
  exact fun _ _ => rfl

/-- A call that is made again finds all its keys registered and all its variables
declared. -/
theorem call_again (t : Table) (frame : Scope.Frame) (c : Call) :
    (t.call frame c).1.call (t.call frame c).2 c = t.call frame c := by
  have hname : (frame.declareAll c.declares).name = frame.name := by
    rw [Scope.Frame.declareAll_eq]
  have hkeys : c.keys (frame.declareAll c.declares) = c.keys frame := by
    cases c <;> simp only [Call.keys, hname]
  have hregistered : ∀ key ∈ c.keys frame, key ∈ (t.registerAll (c.keys frame)).2.keys :=
    fun key hkey => (mem_keys_registerAll t _).2 (.inr hkey)
  have hdeclared : ∀ name ∈ c.declares, name ∈ (frame.declareAll c.declares).declared :=
    fun name hname => (frame.mem_declared_declareAll _).2 (.inr hname)
  rw [call_eq t frame c, call_eq, hkeys, registerAll_of_mem hregistered,
    Scope.Frame.declareAll_of_mem hdeclared]

/-- **A table keeps the order of registration, whatever the history.**  After any
calls, the keys are those of the calls, each once and where it came up first, and
all values are null.  Whatever call comes next:

* the keys that are there stay in front;
* if it is made again right away, it changes nothing any more;
* of its scope it changes the declared variables only, and these only if it is
  made for a declarator: its names that are not declared yet are put behind the
  others, in order;
* a single key is told to be new just if it was not there;
* the parameters that are told to be new are those that were not there, each
  counted once, and the table has grown by as many keys. -/
theorem after_keeps_order (history : List (Scope.Frame × Call)) :
    let t := empty.after history
    t.keys = (registered history).eraseDups ∧
      t.keys.Nodup ∧
      (∀ entry ∈ t.entries, entry.2 = .null) ∧
      (∀ frame c,
        t.keys <+: (t.call frame c).1.keys ∧
        (t.call frame c).1.call (t.call frame c).2 c = t.call frame c ∧
        (t.call frame c).2 = { frame with declared :=
          frame.declared ++ (c.declares.filter fun name => name ∉ frame.declared).eraseDups }) ∧
      (∀ key, (t.register key).1 = true ↔ key ∉ t.keys) ∧
      ∀ scope names,
        (t.registerParameters scope names).1 =
            ((names.map (key scope)).filter fun key => key ∉ t.keys).eraseDups ∧
          (t.registerParameters scope names).2.size =
            t.size + (t.registerParameters scope names).1.length := by
  intro t
  -- Each part is a fact on registration; a history is one long registration.
  refine ⟨keys_after_empty history, ?_, null_of_mem_after history,
    fun frame c => ⟨?_, call_again t frame c, ?_⟩, fun key => ?_,
    fun scope names => ⟨?_, size_registerAll t _⟩⟩
  · rw [show t = empty.after history from rfl, after_eq]
    exact nodup_keys_registerAll (t := empty) List.nodup_nil _
  · rw [call_eq]
    exact keys_prefix_registerAll t _
  · rw [call_eq]
    exact frame.declareAll_eq _
  · rw [register_fst, Bool.not_eq_true', ← Bool.not_eq_true, contains_iff]
  · rw [registerParameters, registerAll_fst]
    congr 1
    apply List.filter_congr
    intro other _
    simp [contains]

end Table
end ScopeTrack
