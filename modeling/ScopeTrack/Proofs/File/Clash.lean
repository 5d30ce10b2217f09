/-
# Artifacts that share a path

Nothing keeps two inputs from having an artifact at the same path: the path is
made of a directory and of the key of the input, and the key is only a part of
the path of the input.  The task that comes last then replaces what the others
wrote, and all of them succeed.

What can be said of such a schedule is that a path, once it is written, has a text
that one of the inputs has for it (`Traced`).  No step undoes this as long as
nothing fails (`OnTrack.step`).  So after a command that succeeded every input
finds its own artifacts (`Intact`) just if no two inputs have different texts for
the same path (`NoClash`), and where all artifacts go to one directory, just if
inputs of the same key have the same artifacts (`noClash_iff_of_directory`).
-/

import ScopeTrack.Proofs.File.Interleaving

namespace ScopeTrack

namespace Job

variable {ε : Type}

/-- What an input gives with the files as they are at the start. -/
def prepared (job : Job ε) (input : String) :
    Except Error (ArtifactPaths × List (String × String)) :=
  job.storage.prepared job.parser job.tableName job.before input
    (Command.directoryFor job.directory input)

/-- What is made of an input with the files as they are at the start. -/
def output (job : Job ε) (input : String) : Except Error Output :=
  (Files.decode input (job.storage.read input (job.before input))).bind fun source =>
    (instrument job.tableName input source (job.parser input source)).value

/-- Where the artifacts of an input go, and where they are reported. -/
def paths (job : Job ε) (input : String) : ArtifactPaths :=
  ArtifactPaths.forInput input (Command.directoryFor job.directory input)

/-- The artifacts of an input: its table, its list of scopes and its instrumented
source, each with the path where it is reported.  An input of which nothing is made
has none. -/
def texts (job : Job ε) (input : String) : List (String × String) :=
  match job.output input with
  | .ok output =>
    [((job.paths input).table, output.tableText), ((job.paths input).scopes, output.scopesText),
      ((job.paths input).instrumented, output.instrumented)]
  | .error _ => []

/-- A path has a text that one of the inputs has for it. -/
def Traced (job : Job ε) (contents : String → ε) (path : String) : Prop :=
  ∃ input ∈ job.inputs, ∃ text, (path, text) ∈ job.texts input ∧
    job.storage.read path (contents path) = .ok text.toUTF8

/-- How far the task of an input can be, if it has not failed: the paths that it
has written are traced. -/
inductive OnTrack (job : Job ε) (contents : String → ε) (input : String) : Task → Prop where
  | waiting : OnTrack job contents input (Pool.taskFor job.directory input)
  | writing {paths : ArtifactPaths} {texts pending : List (String × String)}
      (hprepared : job.prepared input = .ok (paths, texts)) (hpending : pending ⊆ texts)
      (hwritten : ∀ file ∈ texts, file ∉ pending → job.Traced contents file.1) :
      OnTrack job contents input (.writing paths pending)
  | finished {paths : ArtifactPaths} {texts : List (String × String)}
      (hprepared : job.prepared input = .ok (paths, texts))
      (hwritten : ∀ file ∈ texts, job.Traced contents file.1) :
      OnTrack job contents input (.finished (.ok paths))

variable {job : Job ε}

/-- The output of an input that is read and instrumented. -/
theorem output_of_source {input source : String} {output : Output}
    (hsource : Files.decode input (job.storage.read input (job.before input)) = .ok source)
    (houtput : (instrument job.tableName input source (job.parser input source)).value =
      .ok output) : job.output input = .ok output := by
  rw [Job.output, hsource]
  exact houtput

/-- Where an input gives something, its artifacts are those of its output. -/
theorem texts_of_output {input : String} {output : Output} (h : job.output input = .ok output) :
    job.texts input =
      [((job.paths input).table, output.tableText),
        ((job.paths input).scopes, output.scopesText),
        ((job.paths input).instrumented, output.instrumented)] := by
  rw [texts, h]

/-- What a task writes are the artifacts of its input. -/
theorem texts_of_prepared {input : String} {paths : ArtifactPaths}
    {texts : List (String × String)} (h : job.prepared input = .ok (paths, texts)) :
    job.texts input = texts := by
  obtain ⟨rfl, source, output, hsource, houtput, rfl⟩ := Task.prepared_ok h
  rw [texts_of_output (output_of_source hsource houtput)]
  rfl

/-- The artifacts of an input go to the three paths that are derived from it. -/
theorem map_fst_of_prepared {input : String} {paths : ArtifactPaths}
    {texts : List (String × String)} (h : job.prepared input = .ok (paths, texts)) :
    texts.map Prod.fst = Pool.artifactsOf job.directory input := by
  obtain ⟨rfl, source, output, -, -, rfl⟩ := Task.prepared_ok h
  rfl

/-- An input finds its artifacts just if the files at the three paths hold the three
texts of its output. -/
theorem holds_texts_iff {contents : String → ε} {input : String} :
    job.storage.Holds contents (job.texts input) ↔
      ∀ output, job.output input = .ok output →
        job.storage.HoldsOutput contents (job.paths input) output := by
  cases houtput : job.output input with
  | error e =>
    rw [texts, houtput]
    exact ⟨fun _ output h => (nomatch h), fun _ _ h => absurd h List.not_mem_nil⟩
  | ok output =>
    rw [texts_of_output houtput]
    constructor
    · rintro h output ⟨⟩
      exact Storage.holds_contents_iff.1 h
    · exact fun h => Storage.holds_contents_iff.2 (h output rfl)

/-! ## One task -/

/-- A path that is written stays traced, whoever wrote it before. -/
theorem Traced.put {contents : String → ε} {input path text : String} {entry : ε}
    (hinput : input ∈ job.inputs) (hfile : (path, text) ∈ job.texts input)
    (hwrite : job.storage.write path text.toUTF8 (contents path) = (.ok (), entry))
    {other : String} (h : other = path ∨ job.Traced contents other) :
    job.Traced (Storage.put contents path entry) other := by
  by_cases hother : other = path
  · subst hother
    refine ⟨input, hinput, text, hfile, ?_⟩
    rw [Storage.put_self]
    exact job.storage.read_written hwrite
  · obtain ⟨input', hinput', text', hfile', hread⟩ := h.resolve_left hother
    refine ⟨input', hinput', text', hfile', ?_⟩
    rwa [Storage.put_of_ne hother]

namespace OnTrack

variable {contents later : String → ε} {input : String} {task next : Task}

/-- A task writes only where the artifacts of its input go, however far it is. -/
theorem writes_subset (h : job.OnTrack contents input task) :
    task.writes ⊆ Pool.artifactsOf job.directory input := by
  cases h with
  | waiting => exact List.Subset.refl _
  | writing hprepared hpending =>
    rw [← map_fst_of_prepared hprepared]
    exact List.map_subset _ hpending
  | finished => exact List.nil_subset _

/-- A task stays on track when others have their turns, if they keep what is traced to
the inputs. -/
theorem mono (h : job.OnTrack contents input task)
    (traced : ∀ path, job.Traced contents path → job.Traced later path) :
    job.OnTrack later input task := by
  cases h with
  | waiting => exact .waiting
  | writing hprepared hpending hwritten =>
    exact .writing hprepared hpending fun file hfile hdone => traced _ (hwritten file hfile hdone)
  | finished hprepared hwritten =>
    exact .finished hprepared fun file hfile => traced _ (hwritten file hfile)

/-- **A step keeps a task on track, and what is traced stays traced**, unless the
task fails. -/
theorem step (h : job.OnTrack contents input task) (hinput : input ∈ job.inputs)
    (hsame : contents input = job.before input)
    (move : task.Move job.storage job.parser job.tableName contents next later) :
    (∃ e, next = .finished (.error e)) ∨
      job.OnTrack later input next ∧ ∀ path, job.Traced contents path → job.Traced later path := by
  cases h with
  | waiting =>
    cases move with
    | refused => exact .inl ⟨_, rfl⟩
    | read hprepared =>
      rw [Storage.prepared, hsame] at hprepared
      exact .inr ⟨.writing hprepared (List.Subset.refl _)
        fun file hfile hdone => absurd hfile hdone, fun _ h => h⟩
  | writing hprepared hpending hwritten =>
    cases move with
    | failed => exact .inl ⟨_, rfl⟩
    | done => exact .inr ⟨.finished hprepared fun file hfile =>
        hwritten file hfile List.not_mem_nil, fun _ h => h⟩
    -- The file that is written is one of the texts of the input, so its path is traced now,
    -- also if another input had its text there before.
    | @wrote paths path text pending contents entry hwrite =>
      have hfile : (path, text) ∈ job.texts input := by
        rw [texts_of_prepared hprepared]
        exact hpending List.mem_cons_self
      refine .inr ⟨.writing hprepared (List.Subset.trans (List.subset_cons_self _ _) hpending) ?_,
        fun other hother => .put hinput hfile hwrite (.inr hother)⟩
      intro other hother hdone
      by_cases heq : other = (path, text)
      · exact .put hinput hfile hwrite (.inl (congrArg Prod.fst heq))
      · have hnot : other ∉ (path, text) :: pending := by simp [heq, hdone]
        exact .put hinput hfile hwrite (.inr (hwritten other hother hnot))
  | finished hprepared hwritten =>
    cases move with
    | idle => exact .inr ⟨.finished hprepared hwritten, fun _ h => h⟩

end OnTrack

/-! ## All tasks -/

/-- The inputs are as they were, and each task is on track. -/
structure Keeps (job : Job ε) (pool : Pool ε) : Prop where
  length : pool.tasks.length = job.inputs.length
  inputs : ∀ input ∈ job.inputs, pool.contents input = job.before input
  tasks : ∀ {i : Nat} {input : String} {task : Task}, job.inputs[i]? = some input →
    pool.tasks[i]? = some task → job.OnTrack pool.contents input task

/-- A task that failed stays failed. -/
theorem failed_turn {pool : Pool ε} {i : Nat} {task : Task} (htask : pool.tasks[i]? = some task)
    (h : ∃ e, Task.finished (.error e) ∈ pool.tasks) :
    ∃ e, Task.finished (.error e) ∈
      pool.tasks.set i (task.stepOn job.storage job.parser job.tableName pool.contents).1 := by
  obtain ⟨e, he⟩ := h
  obtain ⟨j, hj⟩ := List.mem_iff_getElem?.mp he
  refine ⟨e, List.mem_iff_getElem?.mpr ⟨j, ?_⟩⟩
  by_cases hij : i = j
  · subst hij
    obtain rfl := Option.some.inj (htask.symm.trans hj)
    rw [List.getElem?_set_self (List.getElem?_eq_some_iff.mp hj).1]
    rfl
  · rwa [List.getElem?_set_ne hij]

/-- **A turn keeps the inputs as they were and every task on track**, unless the task
that has it fails.  That task reads its input, makes its texts from it, or writes the
next of them; no input is written over, as no artifact goes to one. -/
theorem Keeps.turn {pool : Pool ε} (h : job.Keeps pool)
    (unread : ∀ input ∈ job.inputs, ∀ other ∈ job.inputs,
      input ∉ Pool.artifactsOf job.directory other)
    {i : Nat} {task : Task} (htask : pool.tasks[i]? = some task) :
    let step := task.stepOn job.storage job.parser job.tableName pool.contents
    (∃ e, Task.finished (.error e) ∈ pool.tasks.set i step.1) ∨
      job.Keeps ⟨pool.tasks.set i step.1, step.2⟩ := by
  intro step
  have hi : i < pool.tasks.length := (List.getElem?_eq_some_iff.mp htask).1
  obtain ⟨input, hinput⟩ : ∃ input, job.inputs[i]? = some input :=
    ⟨_, List.getElem?_eq_getElem (h.length ▸ hi)⟩
  have hmem : input ∈ job.inputs := List.mem_of_getElem? hinput
  have htrack := h.tasks hinput htask
  have move := task.move_stepOn job.storage job.parser job.tableName pool.contents
  rcases htrack.step hmem (h.inputs input hmem) move with ⟨e, he⟩ | ⟨hnext, htraced⟩
  · exact .inl ⟨e, he ▸ List.mem_set hi _⟩
  · refine .inr ⟨?_, ?_, ?_⟩
    · rw [List.length_set]
      exact h.length
    · intro other hother
      have hframe := move.frame fun hwrites =>
        unread other hother input hmem (htrack.writes_subset hwrites)
      exact hframe.trans (h.inputs other hother)
    · intro j other task' hother htask'
      rcases Pool.task_of_set hi htask' with ⟨rfl, rfl⟩ | ⟨-, htask'⟩
      · obtain rfl := Option.some.inj (hinput.symm.trans hother)
        exact hnext
      · exact (h.tasks hother htask').mono htraced

/-- **In any schedule a task fails, or the inputs stay as they were and every task on
track.**  -/
theorem keeps_after (job : Job ε)
    (unread : ∀ input ∈ job.inputs, ∀ other ∈ job.inputs,
      input ∉ Pool.artifactsOf job.directory other) (schedule : List Nat) :
    (∃ e, Task.finished (.error e) ∈ (job.after schedule).tasks) ∨
      job.Keeps (job.after schedule) := by
  refine Pool.follow_induction job.storage job.parser job.tableName
    (motive := fun pool => (∃ e, .finished (.error e) ∈ pool.tasks) ∨ job.Keeps pool) ?_ ?_ schedule
  · refine .inr ⟨List.length_map _, fun input _ => rfl, fun {i input task} hinput htask => ?_⟩
    rw [Pool.start, List.getElem?_map, hinput] at htask
    obtain rfl := Option.some.inj htask
    exact .waiting
  · intro pool i task htask h
    rcases h with hfailed | h
    · exact .inl (failed_turn htask hfailed)
    · exact h.turn unread htask

/-! ## After a command that succeeded -/

theorem length_results {schedule : List Nat} {results : List (Except Error ArtifactPaths)}
    (h : (job.after schedule).results? = some results) :
    results.length = job.inputs.length := by
  have hlength := Pool.length_follow job.storage job.parser job.tableName
    (Pool.start job.inputs job.directory job.before) schedule
  rwa [← after, Pool.results?_eq_some_iff.mp h, List.length_map, Pool.start,
    List.length_map] at hlength

/-- Where all inputs are reported done, no task has failed, so every task has stayed on
track to the end. -/
theorem keeps_of_success
    (unread : ∀ input ∈ job.inputs, ∀ other ∈ job.inputs,
      input ∉ Pool.artifactsOf job.directory other)
    {schedule : List Nat} {results : List (Except Error ArtifactPaths)}
    (hresults : (job.after schedule).results? = some results) {printed : String}
    (success : Command.announce (job.inputs.zip results) = .ok printed) :
    job.Keeps (job.after schedule) := by
  refine (keeps_after job unread schedule).resolve_left ?_
  rintro ⟨e, he⟩
  obtain ⟨done, hdone, -⟩ := Command.announce_eq_ok_iff.mp success
  have hsnd := List.map_snd_zip (length_results hresults).le
  rw [hdone, List.map_map] at hsnd
  rw [Pool.results?_eq_some_iff.mp hresults, ← hsnd] at he
  simp at he

/-- Every input of a command that succeeded has artifacts of its own, and their
paths are traced. -/
theorem Keeps.finished {schedule : List Nat} (h : job.Keeps (job.after schedule))
    {results : List (Except Error ArtifactPaths)}
    (hresults : (job.after schedule).results? = some results) {input : String}
    {result : Except Error ArtifactPaths} (hmem : (input, result) ∈ job.inputs.zip results) :
    ∃ paths, result = .ok paths ∧ job.prepared input = .ok (paths, job.texts input) ∧
      ∀ file ∈ job.texts input, job.Traced (job.after schedule).contents file.1 := by
  obtain ⟨i, hi⟩ := List.mem_iff_getElem?.mp hmem
  obtain ⟨hinput, hresult⟩ := List.getElem?_zip_eq_some.mp hi
  have htask : (job.after schedule).tasks[i]? = some (.finished result) := by
    rw [Pool.results?_eq_some_iff.mp hresults, List.getElem?_map, hresult, Option.map_some]
  cases h.tasks hinput htask with
  | @finished paths texts hprepared hwritten =>
    rw [texts_of_prepared hprepared]
    exact ⟨paths, rfl, hprepared, hwritten⟩

/-- Every input finds its own artifacts: the files at the paths that are reported for
it hold its table, its list of scopes and its instrumented source. -/
def Intact (job : Job ε) (contents : String → ε) : Prop :=
  ∀ input ∈ job.inputs, ∀ output, job.output input = .ok output →
    job.storage.HoldsOutput contents (job.paths input) output

/-- No two inputs have different texts for the same path. -/
def NoClash (job : Job ε) : Prop :=
  ∀ input ∈ job.inputs, ∀ other ∈ job.inputs, ∀ file ∈ job.texts input,
    ∀ file' ∈ job.texts other, file.1 = file'.1 → file.2 = file'.2

/-- Where artifacts clash, one of the inputs does not find its own. -/
theorem Intact.noClash {contents : String → ε} (h : job.Intact contents) : job.NoClash := by
  intro input hinput other hother file hfile file' hfile' hpath
  have hread := holds_texts_iff.2 (h input hinput) file hfile
  rw [hpath, holds_texts_iff.2 (h other hother) file' hfile'] at hread
  exact (String.toByteArray_inj.mp (Except.ok.inj hread)).symm

/-- Without a clash, a file that is traced to some input has the text of the input that
is asked for: the inputs whose artifacts go there have the same texts. -/
theorem NoClash.holds (h : job.NoClash) {contents : String → ε} {input : String}
    (hinput : input ∈ job.inputs)
    (traced : ∀ file ∈ job.texts input, job.Traced contents file.1) :
    job.storage.Holds contents (job.texts input) := by
  intro file hfile
  obtain ⟨other, hother, text, htext, hread⟩ := traced file hfile
  rw [h input hinput other hother file hfile (file.1, text) htext rfl]
  exact hread

/-- Lists of files with the same paths are the same if they agree on each path. -/
theorem texts_ext {texts texts' : List (String × String)}
    (hpaths : texts.map Prod.fst = texts'.map Prod.fst)
    (h : ∀ file ∈ texts, ∀ file' ∈ texts', file.1 = file'.1 → file.2 = file'.2) :
    texts = texts' := by
  have hlength : texts.length = texts'.length := by
    simpa using congrArg List.length hpaths
  refine List.ext_getElem hlength fun i hi hi' => ?_
  have hpath : texts[i].1 = texts'[i].1 := by
    simpa [hi, hi'] using congrArg (fun paths => paths[i]?) hpaths
  exact Prod.ext hpath (h _ (List.getElem_mem hi) _ (List.getElem_mem hi') hpath)

/-- In one directory artifacts clash by the keys of their inputs. -/
theorem noClash_iff_of_directory {shared : String} (hdirectory : job.directory = some shared)
    (prepared : ∀ input ∈ job.inputs, ∃ paths, job.prepared input = .ok (paths, job.texts input)) :
    job.NoClash ↔ ∀ input ∈ job.inputs, ∀ other ∈ job.inputs, fileKey input = fileKey other →
      job.texts input = job.texts other := by
  have hpaths {input : String} (hinput : input ∈ job.inputs) :
      (job.texts input).map Prod.fst = (ArtifactPaths.forInput input shared).toList := by
    obtain ⟨paths, hprepared⟩ := prepared input hinput
    rw [map_fst_of_prepared hprepared, Pool.artifactsOf, hdirectory]
    rfl
  constructor
  · intro h input hinput other hother hkey
    apply texts_ext _ (h input hinput other hother)
    rw [hpaths hinput, hpaths hother, ArtifactPaths.toList_forInput,
      ArtifactPaths.toList_forInput, hkey]
  · intro h input hinput other hother file hfile file' hfile' hpath
    have hmem : file.1 ∈ (ArtifactPaths.forInput input shared).toList :=
      hpaths hinput ▸ List.mem_map_of_mem hfile
    have hmem' : file.1 ∈ (ArtifactPaths.forInput other shared).toList :=
      hpath ▸ hpaths hother ▸ List.mem_map_of_mem hfile'
    -- A shared path has one name in the directory, and so one key.
    have hkey := (ArtifactPaths.shared_path_iff input other shared).mp ⟨file.1, hmem, hmem'⟩
    rw [← h input hinput other hother hkey] at hfile'
    have hnodup := hpaths hinput ▸ ArtifactPaths.nodup_toList input shared
    exact congrArg Prod.snd (List.inj_on_of_nodup_map hnodup hfile hfile' hpath)

/-- **Artifacts are lost to other inputs just where they clash.**  Let no input be
an artifact.  Whenever the command succeeds, whatever the order of its work, each
input has given artifacts, and their paths are reported; but every input finds its
own artifacts just if no two inputs have different texts for the same path.  With
one directory for all, that is: just if inputs of the same key have the same
artifacts, wherever they are and whatever their extension. -/
theorem intact_iff_noClash (job : Job ε)
    (unread : ∀ input ∈ job.inputs, ∀ other ∈ job.inputs,
      input ∉ Pool.artifactsOf job.directory other)
    {schedule : List Nat} {results : List (Except Error ArtifactPaths)}
    (hresults : (job.after schedule).results? = some results) {printed : String}
    (success : Command.announce (job.inputs.zip results) = .ok printed) :
    (∀ input result, (input, result) ∈ job.inputs.zip results →
      ∃ source output,
        Files.decode input (job.storage.read input (job.before input)) = .ok source ∧
        (instrument job.tableName input source (job.parser input source)).value = .ok output ∧
        job.output input = .ok output ∧ result = .ok (job.paths input) ∧
        job.texts input =
          [((job.paths input).table, output.tableText),
            ((job.paths input).scopes, output.scopesText),
            ((job.paths input).instrumented, output.instrumented)]) ∧
    (job.Intact (job.after schedule).contents ↔ job.NoClash) ∧
    ∀ shared, job.directory = some shared →
      (job.Intact (job.after schedule).contents ↔
        ∀ input ∈ job.inputs, ∀ other ∈ job.inputs, fileKey input = fileKey other →
          job.texts input = job.texts other) := by
  have hkeeps := keeps_of_success unread hresults success
  -- Every input has finished well, so all that it wrote is traced.
  have hfinished (input : String) (hinput : input ∈ job.inputs) :
      ∃ paths, job.prepared input = .ok (paths, job.texts input) ∧
        ∀ file ∈ job.texts input, job.Traced (job.after schedule).contents file.1 := by
    have hfst := List.map_fst_zip (length_results hresults).ge
    rw [← hfst, List.mem_map] at hinput
    obtain ⟨⟨_, result⟩, hmem, rfl⟩ := hinput
    obtain ⟨paths, -, hprepared, htraced⟩ := hkeeps.finished hresults hmem
    exact ⟨paths, hprepared, htraced⟩
  have hiff : job.Intact (job.after schedule).contents ↔ job.NoClash := by
    refine ⟨Intact.noClash, fun h input hinput => ?_⟩
    obtain ⟨paths, -, htraced⟩ := hfinished input hinput
    exact holds_texts_iff.1 (h.holds hinput htraced)
  refine ⟨?_, hiff, ?_⟩
  · intro input result hmem
    obtain ⟨paths, rfl, hprepared, -⟩ := hkeeps.finished hresults hmem
    obtain ⟨rfl, source, output, hsource, houtput, htexts⟩ := Task.prepared_ok hprepared
    have hjob := output_of_source hsource houtput
    exact ⟨source, output, hsource, houtput, hjob, rfl, texts_of_output hjob⟩
  · intro shared hdirectory
    rw [hiff]
    exact noClash_iff_of_directory hdirectory fun input hinput =>
      let ⟨paths, hprepared, _⟩ := hfinished input hinput
      ⟨paths, hprepared⟩

/-- Two files of the same name in different directories, with their artifacts in
one directory. -/
def sameName : Job (Option ByteArray) where
  storage := faultless
  parser := lenientParser
  tableName := TableName.standard
  inputs := ["a/x.js", "b/x.js"]
  directory := some "out"
  before path :=
    if path = "a/x.js" then some "a".toUTF8
    else if path = "b/x.js" then some "b".toUTF8
    else none

/-- The command succeeds on both files and reports the same path for both, but what is
there in the end is the text of the second one: the artifacts of the first are lost. -/
theorem intact_iff_noClash_sameName :
    ∃ pool results, pool = sameName.after [0, 1, 0, 1, 0, 1, 0, 1, 0, 1] ∧
      pool.results? = some results ∧
      Command.announce (sameName.inputs.zip results) =
        .ok "Instrumented a/x.js -> out/final_x.js\nInstrumented b/x.js -> out/final_x.js\n" ∧
      pool.contents "out/final_x.js" =
        some ("/* autogen added */\nlet stateManager = \x7b\x7d;\n" ++
          "/* end autogen added */\n\nb").toUTF8 ∧
      ¬ sameName.Intact pool.contents := by
  have hresults : (sameName.after [0, 1, 0, 1, 0, 1, 0, 1, 0, 1]).results? =
      some [.ok (ArtifactPaths.forInput "a/x.js" "out"),
        .ok (ArtifactPaths.forInput "b/x.js" "out")] := by
    decide +kernel
  have success : Command.announce (sameName.inputs.zip
      [.ok (ArtifactPaths.forInput "a/x.js" "out"), .ok (ArtifactPaths.forInput "b/x.js" "out")]) =
        .ok "Instrumented a/x.js -> out/final_x.js\nInstrumented b/x.js -> out/final_x.js\n" := by
    decide +kernel
  obtain ⟨-, -, hkeys⟩ := intact_iff_noClash sameName (by decide +kernel) hresults success
  refine ⟨_, _, rfl, hresults, success, by decide +kernel, fun hintact => ?_⟩
  have hsame := (hkeys "out" rfl).mp hintact "a/x.js" (by decide) "b/x.js" (by decide)
    (by decide +kernel)
  exact absurd hsame (by decide +kernel)

end Job
end ScopeTrack
