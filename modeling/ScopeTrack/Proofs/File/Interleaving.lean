/-
# The order of the work does not matter

Tasks that touch nothing that another one writes do not notice each other.  At
any time of any schedule, each task would, if it ran on alone from there, end
like the task of the same input alone from the start: with the same result and
the same entries at its artifacts (`Task.Continues`).  A turn keeps this for the
task whose turn it is, because a run is a step and the run of what is left, and
for the others, because a run uses only what its task touches (`Follows.turn`).

When all tasks are finished, the files are settled: each artifact is as its own
input alone would leave it, and everything else is as it was (`Settled`).  There
is only one such file system (`Settled.unique`), and working on the inputs one
after the other settles the files too (`settled_oneByOne`).
-/

import ScopeTrack.Proofs.File.Pool

namespace ScopeTrack

variable {ε : Type}

/-! ## Tasks that do not notice each other -/

namespace Task

/-- Neither of two tasks writes what the other one touches. -/
structure Apart (task other : Task) : Prop where
  left : ∀ path ∈ task.writes, path ∉ other.touches
  right : ∀ path ∈ other.writes, path ∉ task.touches

theorem Apart.symm {task other : Task} (apart : Apart task other) : Apart other task :=
  ⟨apart.right, apart.left⟩

/-- Of tasks that are apart by pairs, two at different places in the list are apart,
whichever of them comes first. -/
theorem apart_of_ne {tasks : List Task} (apart : tasks.Pairwise Apart) {i j : Nat}
    (hij : i ≠ j) {task other : Task} (hi : tasks[i]? = some task) (hj : tasks[j]? = some other) :
    task.Apart other := by
  obtain ⟨hi', rfl⟩ := List.getElem?_eq_some_iff.mp hi
  obtain ⟨hj', rfl⟩ := List.getElem?_eq_some_iff.mp hj
  rcases Nat.lt_or_gt_of_ne hij with hlt | hlt
  · exact List.pairwise_iff_getElem.mp apart i j hi' hj' hlt
  · exact (List.pairwise_iff_getElem.mp apart j i hj' hi' hlt).symm

theorem mem_touches_of_mem_writes {task : Task} {path : String} (h : path ∈ task.writes) :
    path ∈ task.touches :=
  List.mem_append_right _ h

/-- What is left of a task ends like the whole task. -/
structure Continues (storage : Storage ε) (parser : Parser) (tableName : String) (first : Task)
    (before : String → ε) (task : Task) (now : String → ε) : Prop where
  result : (task.runOn storage parser tableName now).1 =
    (first.runOn storage parser tableName before).1
  entries : ∀ path ∈ first.writes, (task.runOn storage parser tableName now).2 path =
    (first.runOn storage parser tableName before).2 path
  touches : task.touches ⊆ first.touches
  writes : task.writes ⊆ first.writes

namespace Continues

variable {storage : Storage ε} {parser : Parser} {tableName : String} {first task : Task}
  {before now : String → ε}

theorem refl (task : Task) (now : String → ε) :
    Continues storage parser tableName task now task now :=
  ⟨rfl, fun _ _ => rfl, List.Subset.refl _, List.Subset.refl _⟩

/-- A task continues when it makes a step. -/
theorem step (h : Continues storage parser tableName first before task now) :
    Continues storage parser tableName first before
      (task.stepOn storage parser tableName now).1
      (task.stepOn storage parser tableName now).2 := by
  have move := task.move_stepOn storage parser tableName now
  refine ⟨?_, ?_, List.Subset.trans move.touches_subset h.touches,
    List.Subset.trans move.writes_subset h.writes⟩
  · rw [runOn_stepOn]
    exact h.result
  · rw [runOn_stepOn]
    exact h.entries

/-- A task continues when entries change that it does not touch. -/
theorem of_agree (h : Continues storage parser tableName first before task now)
    {later : String → ε} (same : ∀ path ∈ first.touches, later path = now path) :
    Continues storage parser tableName first before task later := by
  obtain ⟨hresult, hentries⟩ := runOn_congr storage parser tableName
    fun path (hpath : path ∈ task.touches) => same path (h.touches hpath)
  refine ⟨hresult.trans h.result, fun path hpath => ?_, h.touches, h.writes⟩
  rw [hentries path (same path (mem_touches_of_mem_writes hpath))]
  exact h.entries path hpath

end Continues
end Task

namespace Pool

/-! ## What every schedule keeps -/

/-- A pool that goes on from another one: each task continues, and nothing is
written but artifacts of the tasks. -/
structure Follows (storage : Storage ε) (parser : Parser) (tableName : String)
    (origin pool : Pool ε) : Prop where
  length : pool.tasks.length = origin.tasks.length
  continues : ∀ {i : Nat} {first task : Task}, origin.tasks[i]? = some first →
    pool.tasks[i]? = some task →
    Task.Continues storage parser tableName first origin.contents task pool.contents
  others : ∀ path, (∀ first ∈ origin.tasks, path ∉ first.writes) →
    pool.contents path = origin.contents path

/-- **A turn changes no ending**: neither that of the task whose turn it is, nor
those of the others. -/
theorem Follows.turn {storage : Storage ε} {parser : Parser} {tableName : String}
    {origin pool : Pool ε} (h : Follows storage parser tableName origin pool)
    (apart : origin.tasks.Pairwise Task.Apart) {i : Nat} {task : Task}
    (htask : pool.tasks[i]? = some task) :
    Follows storage parser tableName origin
      ⟨pool.tasks.set i (task.stepOn storage parser tableName pool.contents).1,
        (task.stepOn storage parser tableName pool.contents).2⟩ := by
  have hi : i < pool.tasks.length := (List.getElem?_eq_some_iff.mp htask).1
  obtain ⟨first, hfirst⟩ : ∃ first, origin.tasks[i]? = some first :=
    ⟨_, List.getElem?_eq_getElem (h.length ▸ hi)⟩
  have hcontinues := h.continues hfirst htask
  have move := task.move_stepOn storage parser tableName pool.contents
  refine ⟨?_, ?_, ?_⟩
  · rw [List.length_set]
    exact h.length
  · intro j first' task' hfirst' htask'
    rcases task_of_set hi htask' with ⟨rfl, rfl⟩ | ⟨hij, htask'⟩
    · obtain rfl : first = first' := Option.some.inj (hfirst.symm.trans hfirst')
      exact hcontinues.step
    · refine (h.continues hfirst' htask').of_agree fun path hpath => move.frame fun hwrites => ?_
      exact (Task.apart_of_ne apart hij hfirst hfirst').left path (hcontinues.writes hwrites) hpath
  · intro path hpath
    have hown := hpath first (List.mem_of_getElem? hfirst)
    exact (move.frame fun hwrites => hown (hcontinues.writes hwrites)).trans (h.others path hpath)

/-- **In any schedule each task goes on as if it were alone**: every turn keeps this,
because what the other tasks write is not touched by it. -/
theorem follows_follow (storage : Storage ε) (parser : Parser) (tableName : String)
    {origin : Pool ε} (apart : origin.tasks.Pairwise Task.Apart) (schedule : List Nat) :
    Follows storage parser tableName origin
      (origin.follow storage parser tableName schedule) := by
  apply follow_induction storage parser tableName
  · refine ⟨rfl, fun hfirst htask => ?_, fun path _ => rfl⟩
    obtain rfl := Option.some.inj (hfirst.symm.trans htask)
    exact .refl _ _
  · exact fun htask h => h.turn apart htask

/-! ## The files at the end -/

/-- Each artifact is as its own task alone would leave it, and everything else is
as it was. -/
structure Settled (storage : Storage ε) (parser : Parser) (tableName : String)
    (tasks : List Task) (before after : String → ε) : Prop where
  entries : ∀ task ∈ tasks, ∀ path ∈ task.writes,
    after path = (task.runOn storage parser tableName before).2 path
  others : ∀ path, (∀ task ∈ tasks, path ∉ task.writes) → after path = before path

/-- The files at the end are told completely, so two ends of the same tasks are the
same. -/
theorem Settled.unique {storage : Storage ε} {parser : Parser} {tableName : String}
    {tasks : List Task} {before after after' : String → ε}
    (h : Settled storage parser tableName tasks before after)
    (h' : Settled storage parser tableName tasks before after') : after = after' := by
  funext path
  by_cases hpath : ∃ task ∈ tasks, path ∈ task.writes
  · obtain ⟨task, htask, hwrites⟩ := hpath
    rw [h.entries task htask path hwrites, h'.entries task htask path hwrites]
  · have hnone : ∀ task ∈ tasks, path ∉ task.writes := fun task htask hwrites =>
      hpath ⟨task, htask, hwrites⟩
    rw [h.others path hnone, h'.others path hnone]

/-- **A pool that is finished is settled**, with the result that each task has
alone. -/
theorem Follows.settled {storage : Storage ε} {parser : Parser} {tableName : String}
    {origin pool : Pool ε} (h : Follows storage parser tableName origin pool)
    {results : List (Except Error ArtifactPaths)} (hresults : pool.results? = some results) :
    results =
        origin.tasks.map (fun task => (task.runOn storage parser tableName origin.contents).1) ∧
      Settled storage parser tableName origin.tasks origin.contents pool.contents := by
  have htasks := results?_eq_some_iff.mp hresults
  have hlength : results.length = origin.tasks.length := by
    rw [← h.length, htasks, List.length_map]
  have hcontinues {i : Nat} (hi : i < origin.tasks.length) (hi' : i < results.length) :=
    h.continues (List.getElem?_eq_getElem hi)
      (show pool.tasks[i]? = some (.finished results[i]) by simp [htasks])
  refine ⟨List.ext_getElem (by rw [hlength, List.length_map]) ?_, ?_, h.others⟩
  · intro i hi hi'
    rw [List.getElem_map]
    exact (hcontinues (hlength ▸ hi) hi).result
  · intro task htask path hpath
    obtain ⟨i, hi, rfl⟩ := List.mem_iff_getElem.mp htask
    exact (hcontinues hi (hlength ▸ hi)).entries path hpath

/-! ## One input after the other -/

section

variable (storage : Storage ε) (parser : Parser) (tableName : String) (directory : Option String)

/-- The work on inputs, one after the other. -/
def oneByOne (inputs : List String) :
    StateM (String → ε) (List (String × Except Error ArtifactPaths)) :=
  inputs.mapM fun input => do
    let result ← instrumentFile storage.files parser tableName input
      (Command.directoryFor directory input)
    return (input, result)

/-- One input after the other: the first one is worked on with the files as they are,
the others with those that it leaves. -/
theorem run_oneByOne_cons (input : String) (inputs : List String) (before : String → ε) :
    (oneByOne storage parser tableName directory (input :: inputs)).run before =
      let first := (taskFor directory input).runOn storage parser tableName before
      let rest := (oneByOne storage parser tableName directory inputs).run first.2
      ((input, first.1) :: rest.1, rest.2) := by
  rw [oneByOne, List.mapM_cons]
  rfl

/-- **Work on one input after the other settles the files.**  -/
theorem settled_oneByOne {inputs : List String}
    (apart : (inputs.map (taskFor directory)).Pairwise Task.Apart) (before : String → ε) :
    ((oneByOne storage parser tableName directory inputs).run before).1 =
        inputs.map (fun input =>
          (input, ((taskFor directory input).runOn storage parser tableName before).1)) ∧
      Settled storage parser tableName (inputs.map (taskFor directory)) before
        ((oneByOne storage parser tableName directory inputs).run before).2 := by
  induction inputs generalizing before with
  | nil => exact ⟨rfl, fun task htask => absurd htask List.not_mem_nil, fun path _ => rfl⟩
  | cons input inputs ih =>
    obtain ⟨hfirst, apart⟩ := List.pairwise_cons.mp apart
    generalize hmid : ((taskFor directory input).runOn storage parser tableName before).2 = mid
    -- The others find what they touch as it was.
    have hsame : ∀ task ∈ inputs.map (taskFor directory), ∀ path ∈ task.touches,
        mid path = before path := by
      intro task htask path hpath
      rw [← hmid]
      refine Task.runOn_frame storage parser tableName (fun hwrites => ?_) before
      exact (hfirst task htask).left path hwrites hpath
    obtain ⟨hresults, hsettled⟩ := ih apart mid
    rw [run_oneByOne_cons]
    simp only [hmid]
    refine ⟨?_, ?_, ?_⟩
    · rw [hresults, List.map_cons, List.cons.injEq]
      refine ⟨rfl, List.map_congr_left fun other hother => ?_⟩
      have htask : taskFor directory other ∈ inputs.map (taskFor directory) :=
        List.mem_map_of_mem hother
      rw [(Task.runOn_congr storage parser tableName (hsame _ htask)).1]
    · intro task htask path hpath
      rcases List.mem_cons.mp htask with rfl | htask
      · rw [hsettled.others path fun other hother hwrites =>
          (hfirst other hother).left path hpath (Task.mem_touches_of_mem_writes hwrites), hmid]
      · have htouches := hsame task htask path (Task.mem_touches_of_mem_writes hpath)
        rw [hsettled.entries task htask path hpath,
          (Task.runOn_congr storage parser tableName (hsame task htask)).2 path htouches]
    · intro path hpath
      obtain ⟨hown, hothers⟩ := List.forall_mem_cons.mp hpath
      rw [hsettled.others path hothers, ← hmid, Task.runOn_frame storage parser tableName hown]

/-- The command itself works on one input after the other and then announces the
results, if the name of the table is valid. -/
theorem run_instrumentAll (valid : TableName.isValid tableName) (inputs : List String)
    (before : String → ε) :
    (Command.instrumentAll storage.files parser inputs directory tableName).run before =
      let done := (oneByOne storage parser tableName directory inputs).run before
      (Command.announce done.1, done.2) := by
  rw [Command.instrumentAll, TableName.check, if_pos valid]
  rfl

end

/-- Inputs whose artifacts go to different paths, and to none of the inputs, have tasks
that are apart: a task touches its input and its artifacts. -/
theorem apart_of_disjoint {inputs : List String} {directory : Option String}
    (disjoint : inputs.Pairwise fun input other =>
      ∀ path ∈ artifactsOf directory input, path ∉ artifactsOf directory other)
    (unread : ∀ input ∈ inputs, ∀ other ∈ inputs, input ∉ artifactsOf directory other) :
    (inputs.map (taskFor directory)).Pairwise Task.Apart := by
  rw [List.pairwise_map]
  refine disjoint.imp_of_mem fun {input other} hinput hother h => ⟨?_, ?_⟩
  · intro path hpath htouches
    rcases List.mem_cons.mp htouches with rfl | hwrites
    · exact unread path hother input hinput hpath
    · exact h path hpath hwrites
  · intro path hpath htouches
    rcases List.mem_cons.mp htouches with rfl | hwrites
    · exact unread path hinput other hother hpath
    · exact h path hwrites hpath

end Pool

namespace Job

/-- **The order of the work does not matter.**  Let the artifacts of the inputs
go to different paths, and to none of the inputs.  Then every schedule that gives
each task five turns comes to an end; and at the end of any schedule, whatever
fails in it:

* the answer and the files are those of the command that works on one input after
  the other, and each input has the result that it has alone;
* the answer is the error of the first input that failed, or else one line for
  each input, in order;
* each input that did not fail has its three artifacts, with the texts that its
  source gives. -/
theorem instrument_any_order (job : Job ε) (valid : TableName.isValid job.tableName)
    (disjoint : job.inputs.Pairwise fun input other =>
      ∀ path ∈ Pool.artifactsOf job.directory input, path ∉ Pool.artifactsOf job.directory other)
    (unread : ∀ input ∈ job.inputs, ∀ other ∈ job.inputs,
      input ∉ Pool.artifactsOf job.directory other) (schedule : List Nat) :
    let pool := job.after schedule
    ((∀ i < job.inputs.length, 5 ≤ schedule.count i) → ∃ results, pool.results? = some results) ∧
    ∀ results, pool.results? = some results →
      let outcomes := job.inputs.zip results
      (Command.instrumentAll job.storage.files job.parser job.inputs job.directory
          job.tableName).run job.before = (Command.announce outcomes, pool.contents) ∧
      results = job.inputs.map (fun input => ((instrumentFile job.storage.files job.parser
        job.tableName input (Command.directoryFor job.directory input)).run job.before).1) ∧
      (∀ e, Command.announce outcomes = .error e ↔
        ∃ done input rest, outcomes = done ++ (input, .error e) :: rest ∧
          ∀ outcome ∈ done, ∃ paths, outcome.2 = .ok paths) ∧
      (∀ printed, Command.announce outcomes = .ok printed ↔
        ∃ done : List (String × ArtifactPaths),
          outcomes = done.map (fun (input, paths) => (input, .ok paths)) ∧
          printed = String.join (done.map fun (input, paths) => Command.doneLine input paths)) ∧
      ∀ input paths, (input, .ok paths) ∈ outcomes →
        paths = ArtifactPaths.forInput input (Command.directoryFor job.directory input) ∧
        ∃ source output,
          Files.decode input (job.storage.read input (job.before input)) = .ok source ∧
          (instrument job.tableName input source (job.parser input source)).value = .ok output ∧
          job.storage.HoldsOutput pool.contents paths output := by
  intro pool
  have apart : (Pool.start job.inputs job.directory job.before).tasks.Pairwise Task.Apart :=
    Pool.apart_of_disjoint disjoint unread
  refine ⟨Pool.results?_of_turns job.storage job.parser job.tableName job.inputs job.directory
    job.before, ?_⟩
  intro results hresults outcomes
  obtain ⟨halone, hsettled⟩ :=
    (Pool.follows_follow job.storage job.parser job.tableName apart schedule).settled hresults
  -- One after the other is an order as well, and leaves the same files.
  obtain ⟨hdone, hsettled'⟩ :=
    Pool.settled_oneByOne job.storage job.parser job.tableName job.directory apart job.before
  have houtcomes : outcomes = job.inputs.map (fun input =>
      (input, ((Pool.taskFor job.directory input).runOn job.storage job.parser job.tableName
        job.before).1)) := by
    rw [List.map_prod_left_eq_zip]
    exact congrArg (job.inputs.zip ·) (halone.trans List.map_map)
  refine ⟨?_, halone.trans List.map_map, fun _ => Command.announce_eq_error_iff,
    fun _ => Command.announce_eq_ok_iff, ?_⟩
  · rw [Pool.run_instrumentAll job.storage job.parser job.tableName job.directory valid,
      houtcomes, ← hdone]
    exact Prod.ext rfl (hsettled'.unique hsettled)
  · intro input paths hmem
    rw [houtcomes, List.mem_map] at hmem
    obtain ⟨input', hinput, heq⟩ := hmem
    obtain ⟨rfl, hok⟩ := Prod.ext_iff.mp heq
    obtain ⟨texts, hprepared, hholds⟩ := Task.holds_runOn_waiting hok
    obtain ⟨rfl, source, output, hsource, houtput, rfl⟩ := Task.prepared_ok hprepared
    refine ⟨rfl, source, output, hsource, houtput, ?_⟩
    -- The artifacts are those of the task alone, which holds what it has written.
    rw [← Storage.holds_contents_iff]
    intro file hfile
    have hentry := hsettled.entries _ (List.mem_map_of_mem hinput) file.1
      (List.mem_map_of_mem hfile)
    exact (congrArg (job.storage.read file.1) hentry).trans (hholds file hfile)

/-- A file system where a path has the bytes of a file or nothing, and where
writing never fails. -/
def faultless : Storage (Option ByteArray) where
  read _ entry := entry.elim (.error .notFound) .ok
  write _ bytes _ := (.ok (), some bytes)
  read_written := by
    rintro path bytes old new ⟨⟩
    rfl

/-- Takes every text for a program without statements. -/
def lenientParser : Parser := fun _ _ => .ok ⟨.other, .program, ⟨0, 0⟩, []⟩

/-- Two inputs, of which the first is missing. -/
def missingInput : Job (Option ByteArray) where
  storage := faultless
  parser := lenientParser
  tableName := TableName.standard
  inputs := ["a.js", "b.js"]
  directory := none
  before path := if path = "b.js" then some "b".toUTF8 else none

/-- The first input is found missing while the artifacts of the other one are being
written: these are written all the same, each at its path and with its own text. -/
theorem instrument_any_order_missingInput :
    ∃ pool : Pool (Option ByteArray),
      pool = missingInput.after [1, 1, 0, 1, 1, 1, 0, 0, 0, 0] ∧
      (Command.instrumentAll faultless.files lenientParser ["a.js", "b.js"] none
          TableName.standard).run missingInput.before =
        (.error (.unreadable "a.js" .notFound), pool.contents) ∧
      (∃ output, faultless.HoldsOutput pool.contents (ArtifactPaths.forInput "b.js" "") output) ∧
      pool.contents "state_manager_b.json" = some "\x7b\x7d".toUTF8 ∧
      pool.contents "scope_list_b.json" =
        some "[\x7b\"name\":\"Program\",\"declared\":[]\x7d]".toUTF8 ∧
      pool.contents "final_b.js" = some ("/* autogen added */\nlet stateManager = \x7b\x7d;\n" ++
        "/* end autogen added */\n\nb").toUTF8 := by
  obtain ⟨hturns, hend⟩ := instrument_any_order missingInput TableName.isValid_standard
    (by decide +kernel) (by decide +kernel) [1, 1, 0, 1, 1, 1, 0, 0, 0, 0]
  obtain ⟨results, hresults⟩ := hturns (by decide)
  obtain ⟨hrun, hvalue, -, -, hwritten⟩ := hend results hresults
  have hresults' : results = [.error (.unreadable "a.js" .notFound),
      .ok (ArtifactPaths.forInput "b.js" "")] := hvalue
  subst hresults'
  obtain ⟨-, source, output, -, -, hholds⟩ :=
    hwritten "b.js" (ArtifactPaths.forInput "b.js" "") (by simp [missingInput])
  exact ⟨_, rfl, hrun, ⟨output, hholds⟩, by decide +kernel, by decide +kernel,
    by decide +kernel⟩

end Job
end ScopeTrack
