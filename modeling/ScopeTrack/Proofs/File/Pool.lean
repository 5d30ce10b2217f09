/-
# Tasks in any order

The inputs of a command are worked on side by side.  A pool is the tasks of all
inputs with the files that they share; a turn is one step of one of its tasks,
and a schedule tells whose turns they are, one after the other.

Nothing is asked of a schedule.  But every turn brings its task nearer to its
end, so a task that gets five turns is finished, whatever the others do in
between (`results?_of_turns`).  Once all tasks are finished, the command answers
from their results in the order of the inputs, not in that of the schedule: with
the first error (`announce_eq_error_iff`), or with one line for each input
(`announce_eq_ok_iff`).
-/

import ScopeTrack.Command
import ScopeTrack.Proofs.File.Storage
import Mathlib.Data.Set.List

namespace ScopeTrack

/-- The result of a task that is finished. -/
def Task.result? : Task → Option (Except Error ArtifactPaths)
  | .finished result => some result
  | .waiting _ _ => none
  | .writing _ _ => none

/-- Tasks, and the files that they share. -/
structure Pool (ε : Type) where
  tasks : List Task
  contents : String → ε

namespace Pool

variable {ε : Type}

/-- The task of an input. -/
def taskFor (directory : Option String) (input : String) : Task :=
  .waiting input (Command.directoryFor directory input)

/-- The paths of the artifacts of an input. -/
def artifactsOf (directory : Option String) (input : String) : List String :=
  (ArtifactPaths.forInput input (Command.directoryFor directory input)).toList

/-- The tasks of inputs, before any of them has begun. -/
def start (inputs : List String) (directory : Option String) (contents : String → ε) : Pool ε :=
  ⟨inputs.map (taskFor directory), contents⟩

/-- The results of the tasks, once all of them are finished. -/
def results? (pool : Pool ε) : Option (List (Except Error ArtifactPaths)) :=
  pool.tasks.mapM Task.result?

section

variable (storage : Storage ε) (parser : Parser) (tableName : String)

/-- One step of one of the tasks. -/
def turn (pool : Pool ε) (i : Nat) : Pool ε :=
  match pool.tasks[i]? with
  | none => pool
  | some task =>
    let (next, contents) := task.stepOn storage parser tableName pool.contents
    ⟨pool.tasks.set i next, contents⟩

/-- Steps of the tasks in the order of a schedule. -/
def follow (pool : Pool ε) (schedule : List Nat) : Pool ε :=
  schedule.foldl (turn storage parser tableName) pool

/-! ## Turns -/

/-- The turn of a task is one step of it; the others stay as they are. -/
theorem turn_of_getElem? {pool : Pool ε} {i : Nat} {task : Task} (h : pool.tasks[i]? = some task) :
    pool.turn storage parser tableName i =
      ⟨pool.tasks.set i (task.stepOn storage parser tableName pool.contents).1,
        (task.stepOn storage parser tableName pool.contents).2⟩ := by
  simp only [turn, h]

theorem turn_of_none {pool : Pool ε} {i : Nat} (h : pool.tasks[i]? = none) :
    pool.turn storage parser tableName i = pool := by
  simp only [turn, h]

/-- After a turn there is the next task in its place, and the same tasks elsewhere. -/
theorem task_of_set {tasks : List Task} {i j : Nat} {next task : Task} (hi : i < tasks.length)
    (h : (tasks.set i next)[j]? = some task) :
    i = j ∧ task = next ∨ i ≠ j ∧ tasks[j]? = some task := by
  by_cases hij : i = j
  · subst hij
    rw [List.getElem?_set_self hi] at h
    exact .inl ⟨rfl, (Option.some.inj h).symm⟩
  · rw [List.getElem?_set_ne hij] at h
    exact .inr ⟨hij, h⟩

/-- **What every turn keeps, every schedule keeps.**  -/
theorem follow_induction {motive : Pool ε → Prop} {pool : Pool ε} (base : motive pool)
    (step : ∀ {pool : Pool ε} {i : Nat} {task : Task}, pool.tasks[i]? = some task → motive pool →
      motive ⟨pool.tasks.set i (task.stepOn storage parser tableName pool.contents).1,
        (task.stepOn storage parser tableName pool.contents).2⟩)
    (schedule : List Nat) : motive (pool.follow storage parser tableName schedule) := by
  induction schedule generalizing pool with
  | nil => exact base
  | cons i schedule ih =>
    apply ih
    cases h : pool.tasks[i]? with
    | none => rwa [turn_of_none storage parser tableName h]
    | some task =>
      rw [turn_of_getElem? storage parser tableName h]
      exact step h base

/-- No turn adds or removes a task. -/
theorem length_follow (pool : Pool ε) (schedule : List Nat) :
    (pool.follow storage parser tableName schedule).tasks.length = pool.tasks.length :=
  follow_induction storage parser tableName (motive := fun p => p.tasks.length = pool.tasks.length)
    rfl (fun _ h => by rwa [List.length_set]) schedule

/-! ## The end of a schedule -/

/-- How many steps a task of a pool is from its end at most. -/
def stepsLeft (pool : Pool ε) (i : Nat) : Nat :=
  (pool.tasks[i]?.map Task.stepsLeft).getD 0

/-- A turn brings its own task nearer to the end and leaves the others alone. -/
theorem stepsLeft_turn (pool : Pool ε) (i j : Nat) :
    (pool.turn storage parser tableName i).stepsLeft j ≤
      pool.stepsLeft j - if i = j then 1 else 0 := by
  cases h : pool.tasks[i]? with
  | none =>
    rw [turn_of_none storage parser tableName h]
    split
    next hij =>
      subst hij
      simp [stepsLeft, h]
    next => exact Nat.le_refl _
  | some task =>
    rw [turn_of_getElem? storage parser tableName h]
    split
    next hij =>
      subst hij
      have move := task.move_stepOn storage parser tableName pool.contents
      have hlength := (List.getElem?_eq_some_iff.mp h).1
      rw [stepsLeft, stepsLeft, List.getElem?_set_self hlength, h]
      exact move.stepsLeft_le
    next hij => simp [stepsLeft, List.getElem?_set_ne hij]

/-- **Each turn of a task brings it nearer to its end, and no other turn takes it away
from there.**  So after as many turns as it has steps left it is finished, whatever came
in between. -/
theorem stepsLeft_follow (pool : Pool ε) (schedule : List Nat) (i : Nat) :
    (pool.follow storage parser tableName schedule).stepsLeft i ≤
      pool.stepsLeft i - schedule.count i := by
  induction schedule generalizing pool with
  | nil => exact Nat.le_refl _
  | cons j schedule ih =>
    have hrest := ih (pool.turn storage parser tableName j)
    have hturn := stepsLeft_turn storage parser tableName pool j i
    rw [List.count_cons]
    simp only [follow, List.foldl_cons, beq_iff_eq] at hrest ⊢
    omega

end

/-- There are results just if every task is finished. -/
theorem results?_eq_some_iff {pool : Pool ε} {results : List (Except Error ArtifactPaths)} :
    pool.results? = some results ↔ pool.tasks = results.map .finished := by
  obtain ⟨tasks, contents⟩ := pool
  simp only [results?]
  induction tasks generalizing results with
  | nil => cases results <;> simp
  | cons task tasks ih =>
    cases results with
    | nil => simp [Option.bind_eq_some_iff]
    | cons result results =>
      cases task <;> simp [Task.result?, Option.bind_eq_some_iff, ih, and_comm]

/-- **Every schedule with turns enough comes to an end**: five for each task, at
whatever time. -/
theorem results?_of_turns (storage : Storage ε) (parser : Parser) (tableName : String)
    (inputs : List String) (directory : Option String) (before : String → ε)
    {schedule : List Nat} (turns : ∀ i < inputs.length, 5 ≤ schedule.count i) :
    ∃ results,
      ((start inputs directory before).follow storage parser tableName schedule).results? =
        some results := by
  generalize hpool : (start inputs directory before).follow storage parser tableName schedule = pool
  have hlength : pool.tasks.length = inputs.length := by
    rw [← hpool, length_follow, start, List.length_map]
  have finished : ∀ task ∈ pool.tasks, task ∈ Set.range Task.finished := by
    intro task htask
    obtain ⟨i, hi, rfl⟩ := List.mem_iff_getElem.mp htask
    have hinput : i < inputs.length := hlength ▸ hi
    have hleft := stepsLeft_follow storage parser tableName (start inputs directory before)
      schedule i
    have hstart : (start inputs directory before).stepsLeft i = 5 := by
      simp [stepsLeft, start, hinput, taskFor, Task.stepsLeft]
    rw [hpool, hstart, stepsLeft, List.getElem?_eq_getElem hi] at hleft
    have hzero : pool.tasks[i].stepsLeft = 0 :=
      Nat.le_zero.mp (hleft.trans (Nat.sub_eq_zero_of_le (turns i hinput)).le)
    obtain ⟨result, hresult⟩ := Task.eq_finished hzero
    exact ⟨result, hresult.symm⟩
  have hrange : pool.tasks ∈ Set.range (List.map Task.finished) := by
    rw [Set.range_list_map]
    exact finished
  obtain ⟨results, hresults⟩ := hrange
  exact ⟨results, results?_eq_some_iff.mpr hresults.symm⟩

end Pool

/-- What the command works on: a file system with its files at the start, a
parser, and the arguments. -/
structure Job (ε : Type) where
  storage : Storage ε
  parser : Parser
  tableName : String
  inputs : List String
  directory : Option String
  before : String → ε

/-- The tasks of all inputs, after steps in the order of a schedule. -/
def Job.after {ε : Type} (job : Job ε) (schedule : List Nat) : Pool ε :=
  (Pool.start job.inputs job.directory job.before).follow job.storage job.parser job.tableName
    schedule

/-! ## The answer of the command -/

namespace Command

theorem announce_cons_error (input : String) (e : Error)
    (outcomes : List (String × Except Error ArtifactPaths)) :
    announce ((input, .error e) :: outcomes) = .error e := by
  simp [announce, Except.map, bind, Except.bind]

/-- A result that is good is announced in front of the others, if they are good too. -/
theorem announce_cons_ok (input : String) (paths : ArtifactPaths)
    (outcomes : List (String × Except Error ArtifactPaths)) :
    announce ((input, .ok paths) :: outcomes) =
      (announce outcomes).map (doneLine input paths ++ ·) := by
  simp only [announce, List.mapM_cons]
  generalize (List.mapM _ outcomes : Except Error (List String)) = lines
  cases lines <;> simp [Except.map, bind, Except.bind, pure, Except.pure]

/-- **The answer is the error of the first input that failed.**  -/
theorem announce_eq_error_iff {outcomes : List (String × Except Error ArtifactPaths)} {e : Error} :
    announce outcomes = .error e ↔
      ∃ done input rest, outcomes = done ++ (input, .error e) :: rest ∧
        ∀ outcome ∈ done, ∃ paths, outcome.2 = .ok paths := by
  induction outcomes with
  | nil =>
    constructor
    · intro h
      cases h
    · rintro ⟨done, input, rest, h, -⟩
      simp at h
  | cons outcome outcomes ih =>
    obtain ⟨input, e' | paths⟩ := outcome
    · rw [announce_cons_error]
      constructor
      · rintro ⟨⟩
        exact ⟨[], input, outcomes, rfl, fun _ h => absurd h List.not_mem_nil⟩
      · rintro ⟨done, input', rest, h, hdone⟩
        -- What failed stands first, so nothing can be before it.
        cases done with
        | nil => simp_all
        | cons first done =>
          obtain ⟨rfl, -⟩ := List.cons.inj h
          obtain ⟨⟨paths, hpaths⟩, -⟩ := List.forall_mem_cons.mp hdone
          cases hpaths
    · rw [announce_cons_ok]
      constructor
      · intro h
        cases hrest : announce outcomes with
        | ok printed => simp [hrest, Except.map] at h
        | error e' =>
          obtain rfl : e' = e := by simpa [hrest, Except.map] using h
          obtain ⟨done, input', rest, rfl, hdone⟩ := ih.mp hrest
          exact ⟨(input, .ok paths) :: done, input', rest, rfl,
            List.forall_mem_cons.mpr ⟨⟨paths, rfl⟩, hdone⟩⟩
      · rintro ⟨done, input', rest, h, hdone⟩
        cases done with
        | nil => simp at h
        | cons first done =>
          obtain ⟨-, h⟩ := List.cons.inj h
          rw [ih.mpr ⟨done, input', rest, h, (List.forall_mem_cons.mp hdone).2⟩]
          rfl

/-- **Lines are printed only if all inputs succeeded**, one for each, in order. -/
theorem announce_eq_ok_iff {outcomes : List (String × Except Error ArtifactPaths)}
    {printed : String} :
    announce outcomes = .ok printed ↔
      ∃ done : List (String × ArtifactPaths),
        outcomes = done.map (fun (input, paths) => (input, .ok paths)) ∧
        printed = String.join (done.map fun (input, paths) => doneLine input paths) := by
  induction outcomes generalizing printed with
  | nil =>
    constructor
    · rintro ⟨⟩
      exact ⟨[], rfl, rfl⟩
    · rintro ⟨done, h, rfl⟩
      obtain rfl := List.map_eq_nil_iff.mp h.symm
      rfl
  | cons outcome outcomes ih =>
    obtain ⟨input, e | paths⟩ := outcome
    · rw [announce_cons_error]
      constructor
      · rintro ⟨⟩
      · rintro ⟨_ | ⟨first, done⟩, h, -⟩ <;> simp at h
    · rw [announce_cons_ok]
      constructor
      · intro h
        cases hrest : announce outcomes with
        | error e => simp [hrest, Except.map] at h
        | ok rest =>
          obtain rfl : doneLine input paths ++ rest = printed := by
            simpa [hrest, Except.map] using h
          obtain ⟨done, rfl, rfl⟩ := ih.mp hrest
          exact ⟨(input, paths) :: done, rfl, by simp⟩
      · rintro ⟨_ | ⟨first, done⟩, h, rfl⟩
        · simp at h
        · simp only [List.map_cons, List.cons.injEq, Prod.mk.injEq, Except.ok.injEq] at h
          obtain ⟨⟨rfl, rfl⟩, rfl⟩ := h
          rw [ih.mpr ⟨done, rfl, rfl⟩]
          simp [Except.map]

end Command
end ScopeTrack
