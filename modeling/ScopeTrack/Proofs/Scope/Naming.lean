/-
# Names of scopes and keys of variables

The name of a scope is the path of the functions that lead to it, from the
global scope inwards, with a colon between the parts (`pathName`).  The key of a
variable puts a colon between the name of its scope and the variable, so it is
written like the name of a scope that is one step further in (`key_pathName`).

Nothing marks where the scope ends and the variable begins.  But as long as no
part holds a colon itself, cutting a name at its colons gives its parts back
(`splitOn_pathName`).  So a name stands for one path only (`pathName_inj`), and
the last part of the name of a scope is the function that opened it.
-/

import ScopeTrack.Scope.Chain
import ScopeTrack.Table

namespace ScopeTrack
namespace Scope

/-- A text that can be a part of a name: it holds no colon. -/
def Part (text : String) : Prop :=
  ':' ∉ text.toList

instance (text : String) : Decidable (Part text) :=
  inferInstanceAs (Decidable (':' ∉ text.toList))

/-- The name of the scope that functions lead to, the outermost first. -/
def pathName (functions : List String) : String :=
  functions.foldl childName globalName

/-! ## The parts of a name -/

/-- **The name of a path is its parts with colons between them.**  The name grows at its
end while the parts are listed from the front, so the induction takes the first two
parts together. -/
theorem toList_foldl_childName (start : String) (functions : List String) :
    (functions.foldl childName start).toList =
      [':'].intercalate ((start :: functions).map String.toList) := by
  induction functions generalizing start with
  | nil => exact List.intercalate_singleton.symm
  | cons function functions ih =>
      have hchild : (childName start function).toList =
          start.toList ++ [':'] ++ function.toList := by
        rw [childName, String.toList_append, String.toList_append]
        rfl
      rw [List.foldl_cons, ih, List.map_cons, List.map_cons, List.map_cons,
        List.intercalate_cons_cons, hchild]
      -- The first two parts are one part of what is joined on the left.
      cases functions with
      | nil => simp [List.intercalate_singleton]
      | cons next functions => simp [List.intercalate_cons_cons]

/-- **A name gives its path back**: its parts are found between its colons. -/
theorem splitOn_pathName {functions : List String} (parts : ∀ f ∈ functions, Part f) :
    (pathName functions).toList.splitOn ':' = (globalName :: functions).map String.toList := by
  have hcolon : ∀ part ∈ (globalName :: functions).map String.toList, ':' ∉ part := by
    rw [List.forall_mem_map, List.forall_mem_cons]
    exact ⟨by decide, parts⟩
  rw [pathName, toList_foldl_childName]
  exact List.splitOn_intercalate ':' hcolon (List.cons_ne_nil _ _)

/-- Different paths have different names. -/
theorem pathName_inj {functions others : List String} (hf : ∀ f ∈ functions, Part f)
    (ho : ∀ f ∈ others, Part f) : pathName functions = pathName others ↔ functions = others := by
  constructor
  · intro h
    have hparts := splitOn_pathName hf
    rw [h, splitOn_pathName ho, List.map_cons, List.map_cons] at hparts
    exact (List.map_inj_right fun _ _ => String.toList_inj.1).1 (List.cons.inj hparts).2.symm
  · exact congrArg pathName

/-- A key is written like the name of a scope inside the variable's scope. -/
theorem key_pathName (functions : List String) (v : String) :
    Table.key (pathName functions) v = pathName (functions ++ [v]) := by
  rw [pathName, pathName, List.foldl_append]
  rfl

theorem key_pathName_inj {functions others : List String} (hf : ∀ f ∈ functions, Part f)
    (ho : ∀ f ∈ others, Part f) {v w : String} (hv : Part v) (hw : Part w) :
    Table.key (pathName functions) v = Table.key (pathName others) w ↔
      functions = others ∧ v = w := by
  have append : ∀ {path : List String} {last : String}, (∀ f ∈ path, Part f) → Part last →
      ∀ f ∈ path ++ [last], Part f := by
    intro path last hpath hlast f hmem
    rcases List.mem_append.1 hmem with hmem | hmem
    · exact hpath f hmem
    · rwa [List.mem_singleton.1 hmem]
  rw [key_pathName, key_pathName, pathName_inj (append hf hv) (append ho hw)]
  constructor
  · intro h
    obtain ⟨hpath, hlast⟩ := List.append_inj' h rfl
    exact ⟨hpath, List.singleton_inj.1 hlast⟩
  · rintro ⟨rfl, rfl⟩
    rfl

/-- The local name of a scope is the last function of its path, and that of the global
scope is its whole name. -/
theorem Frame.localName_of_path {frame : Frame} {functions : List String}
    (parts : ∀ f ∈ functions, Part f) (hname : frame.name = pathName functions) :
    frame.localName = functions.getLastD globalName := by
  rw [Frame.localName, hname, splitOn_pathName parts, List.getLastD_eq_getLast?, List.getLast?_map,
    List.getLast?_cons, Option.map_some, Option.getD_some, String.ofList_toList,
    List.getLastD_eq_getLast?]

/-! ## Scopes entered one inside the other -/

namespace Chain

/-- Opens the scopes of functions, each inside the one before. -/
def enterAll (c : Chain) (functions : List (String × Span)) : Except Error Chain :=
  functions.foldlM (fun c function => c.enter function.1 function.2) c

/-- Where a scope is open, functions can be entered one inside the other, and the name
of the last one has all of theirs behind that of the first scope. -/
theorem enterAll_of_current {c : Chain} {frame : Frame} (h : c.current = .ok frame)
    (functions : List (String × Span)) :
    ∃ c' frame', c.enterAll functions = .ok c' ∧ c'.current = .ok frame' ∧
      frame'.name = (functions.map Prod.fst).foldl childName frame.name := by
  induction functions generalizing c frame with
  | nil => exact ⟨c, frame, rfl, h, rfl⟩
  | cons function functions ih =>
      have henter : c.enter function.1 function.2 =
          .ok { c with frames := ⟨childName frame.name function.1, [], some function.2⟩ ::
            c.frames } := by
        rw [enter, h]
        rfl
      obtain ⟨c', frame', hrest, hcurrent, hname⟩ := ih
        (c := { c with frames := ⟨childName frame.name function.1, [], some function.2⟩ ::
          c.frames }) rfl
      refine ⟨c', frame', ?_, hcurrent, hname⟩
      rw [enterAll, List.foldlM_cons, henter]
      exact hrest

/-- **Scopes and keys are told apart by their names.**  Whatever functions are
entered one inside the other, and whatever others: the names of the scopes that
are reached are the same just if the functions are, the keys of two variables in
them are the same just if the functions and the variables are, so functions with
different ancestors share no key, and the local name of a scope is the function
entered last, or that of the global scope if there is none. -/
theorem enterAll_names (functions others : List (String × Span))
    (hf : ∀ f ∈ functions.map Prod.fst, Part f) (ho : ∀ f ∈ others.map Prod.fst, Part f) :
    ∃ c frame d other,
      new.enterAll functions = .ok c ∧ c.current = .ok frame ∧
      new.enterAll others = .ok d ∧ d.current = .ok other ∧
      (frame.name = other.name ↔ functions.map Prod.fst = others.map Prod.fst) ∧
      (∀ v w, Part v → Part w → (Table.key frame.name v = Table.key other.name w ↔
        functions.map Prod.fst = others.map Prod.fst ∧ v = w)) ∧
      ((functions.map Prod.fst).dropLast ≠ (others.map Prod.fst).dropLast →
        ∀ v w, Part v → Part w → Table.key frame.name v ≠ Table.key other.name w) ∧
      frame.localName = (functions.map Prod.fst).getLastD globalName := by
  have start : new.current = .ok Frame.global := rfl
  obtain ⟨c, frame, henter, hcurrent, hname⟩ := enterAll_of_current start functions
  obtain ⟨d, other, henter', hcurrent', hname'⟩ := enterAll_of_current start others
  have hkey : ∀ v w, Part v → Part w → (Table.key frame.name v = Table.key other.name w ↔
      functions.map Prod.fst = others.map Prod.fst ∧ v = w) := by
    intro v w hv hw
    rw [hname, hname']
    exact key_pathName_inj hf ho hv hw
  refine ⟨c, frame, d, other, henter, hcurrent, henter', hcurrent', ?_, hkey, ?_, ?_⟩
  · rw [hname, hname']
    exact pathName_inj hf ho
  · intro hancestors v w hv hw hsame
    exact hancestors (congrArg List.dropLast ((hkey v w hv hw).1 hsame).1)
  · exact Frame.localName_of_path hf hname

/-- Two functions of the same name, one in `a` and one deeper, in an `a` of
another function, have no key in common. -/
theorem enterAll_names_under_ancestors :
    ∃ c frame d other,
      new.enterAll [("a", ⟨0, 20⟩), ("b", ⟨5, 15⟩)] = .ok c ∧ c.current = .ok frame ∧
      new.enterAll [("c", ⟨21, 60⟩), ("a", ⟨25, 55⟩), ("b", ⟨30, 50⟩)] = .ok d ∧
      d.current = .ok other ∧
      (∀ v w, Part v → Part w → Table.key frame.name v ≠ Table.key other.name w) ∧
      frame.localName = "b" := by
  obtain ⟨c, frame, d, other, henter, hcurrent, henter', hcurrent', -, -, hkeys, hlocal⟩ :=
    enterAll_names [("a", ⟨0, 20⟩), ("b", ⟨5, 15⟩)]
      [("c", ⟨21, 60⟩), ("a", ⟨25, 55⟩), ("b", ⟨30, 50⟩)] (by decide) (by decide)
  exact ⟨c, frame, d, other, henter, hcurrent, henter', hcurrent', hkeys (by decide), hlocal⟩

end Chain
end Scope
end ScopeTrack
