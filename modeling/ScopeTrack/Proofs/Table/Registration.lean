/-
# Registered keys

Registering some keys in order leaves the table as it was, followed by those of
them that are new, each at its first place and with the value null
(`entries_registerAll`).  So a table that starts out empty holds the keys that
were registered, without their repetitions.  The variables that a scope declares
come to stand in it in the same way (`Scope.Frame.declareAll_eq`).
-/

import ScopeTrack.Table

namespace ScopeTrack

namespace Scope.Frame

/-- Declaring variables puts those that are not declared yet behind the others,
each once, and leaves the rest of the scope as it is. -/
theorem declareAll_eq (f : Scope.Frame) (names : List String) :
    f.declareAll names =
      { f with declared :=
          f.declared ++ (names.filter fun name => name ∉ f.declared).eraseDups } := by
  induction names generalizing f with
  | nil => simp [declareAll]
  | cons name names ih =>
      rw [show f.declareAll (name :: names) = (f.declare name).declareAll names from rfl, ih]
      by_cases h : name ∈ f.declared
      · rw [declare_of_mem h, List.filter_cons_of_neg (by simpa using h)]
      · have hdeclared : f.declare name = { f with declared := f.declared ++ [name] } := by
          rw [declare, if_neg h]
        have hlater : (names.filter fun other => other ∉ f.declared ++ [name]) =
            (names.filter fun other => other ∉ f.declared).filter fun other => !other == name := by
          rw [List.filter_filter]
          apply List.filter_congr
          intro other _
          simp [Bool.and_comm, Bool.beq_eq_decide_eq]
        rw [hdeclared, List.filter_cons_of_pos (by simpa using h), List.eraseDups_cons, hlater]
        simp

/-- The variables of a scope after some are declared: those from before and the new
ones.  A name that stands twice makes no difference. -/
theorem mem_declared_declareAll (f : Scope.Frame) (names : List String) {v : String} :
    v ∈ (f.declareAll names).declared ↔ v ∈ f.declared ∨ v ∈ names := by
  rw [declareAll_eq, List.mem_append, List.mem_eraseDups, List.mem_filter, decide_eq_true_iff]
  by_cases h : v ∈ f.declared <;> simp [h]

/-- Variables that are declared are not declared again. -/
theorem declareAll_of_mem {f : Scope.Frame} {names : List String}
    (h : ∀ name ∈ names, name ∈ f.declared) : f.declareAll names = f := by
  have hnone : (names.filter fun name => name ∉ f.declared) = [] := by
    apply List.filter_eq_nil_iff.2
    intro name hname
    simpa using h name hname
  rw [declareAll_eq, hnone, List.eraseDups_nil, List.append_nil]

end Scope.Frame

namespace Table

/-- A key that is in the table is not registered again, and the table stays as it is. -/
theorem register_of_contains {t : Table} {key : String} (h : t.contains key = true) :
    t.register key = (false, t) := by
  simp [register, h]

/-- A new key comes last, with null as its value. -/
theorem register_of_not_contains {t : Table} {key : String} (h : t.contains key = false) :
    t.register key = (true, ⟨t.entries ++ [(key, .null)]⟩) := by
  simp [register, h]

/-- The lookup of a key tells whether it is among the keys. -/
theorem contains_iff {t : Table} {key : String} : t.contains key = true ↔ key ∈ t.keys := by
  rw [contains, decide_eq_true_iff]

/-- A table with one more entry has one more key. -/
theorem contains_push (t : Table) (key other : String) :
    (⟨t.entries ++ [(key, .null)]⟩ : Table).contains other =
      (t.contains other || other == key) := by
  rw [Bool.eq_iff_iff, Bool.or_eq_true, contains_iff, contains_iff, beq_iff_eq]
  simp [Table.keys]

theorem registerAll_cons (t : Table) (key : String) (keys : List String) :
    (t.registerAll (key :: keys)).2 = ((t.register key).2.registerAll keys).2 := by
  cases h : t.contains key with
  | true => rw [registerAll, register_of_contains h]
  | false => rw [registerAll, register_of_not_contains h]

/-- Registering two lists of keys is registering one after the other. -/
theorem registerAll_append (t : Table) (keys others : List String) :
    (t.registerAll (keys ++ others)).2 = ((t.registerAll keys).2.registerAll others).2 := by
  induction keys generalizing t with
  | nil => rfl
  | cons key keys ih => rw [List.cons_append, registerAll_cons, ih, registerAll_cons]

/-- **What registering keys adds.**  The keys that are not there yet come last,
in the order in which they are first registered, and their values are null. -/
theorem entries_registerAll (t : Table) (keys : List String) :
    (t.registerAll keys).2.entries =
      t.entries ++
        (keys.filter fun key => !t.contains key).eraseDups.map fun key => (key, .null) := by
  induction keys generalizing t with
  | nil => simp [registerAll]
  | cons key keys ih =>
      rw [registerAll_cons]
      cases h : t.contains key with
      | true => rw [register_of_contains h, ih, List.filter_cons_of_neg (by simp [h])]
      | false =>
          have split : (keys.filter fun other => !(t.contains other || other == key)) =
              keys.filter fun other => !other == key && !t.contains other := by
            apply List.filter_congr
            intro other _
            rw [Bool.not_or, Bool.and_comm]
          rw [register_of_not_contains h, ih, List.filter_cons_of_pos (by simp [h]),
            List.eraseDups_cons, List.filter_filter, List.map_cons, List.append_assoc]
          simp only [contains_push, split, List.singleton_append]

/-- The keys of a table that starts out empty, with their values. -/
theorem entries_registerAll_empty (keys : List String) :
    (empty.registerAll keys).2.entries = keys.eraseDups.map fun key => (key, .null) := by
  have new : (keys.filter fun key => !empty.contains key) = keys :=
    List.filter_eq_self.2 fun key _ => rfl
  rw [entries_registerAll, new]
  rfl

/-- **The keys after a registration** are those from before and the new ones.  By
induction over the new keys, as each is either there already or put at the end. -/
theorem mem_keys_registerAll (t : Table) (keys : List String) {key : String} :
    key ∈ (t.registerAll keys).2.keys ↔ key ∈ t.keys ∨ key ∈ keys := by
  have hnew : key ∈ ((keys.filter fun key => !t.contains key).eraseDups.map
      fun key => (key, Json.null)).map Prod.fst ↔ key ∈ keys ∧ key ∉ t.keys := by
    rw [List.map_map, show (Prod.fst ∘ fun key : String => (key, Json.null)) = id from rfl,
      List.map_id, List.mem_eraseDups, List.mem_filter, Bool.not_eq_true', ← Bool.not_eq_true,
      contains_iff]
  rw [Table.keys, entries_registerAll, List.map_append, List.mem_append, hnew]
  change key ∈ t.keys ∨ _ ↔ _
  by_cases h : key ∈ t.keys <;> simp [h]

end Table
end ScopeTrack
