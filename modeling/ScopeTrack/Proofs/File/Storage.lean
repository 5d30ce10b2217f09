/-
# Tasks on a file system

A file system has an entry at every path.  What an access to a path gives and
what it leaves there depend on the entry at that path only; a write that fails
may also leave something else there (`Storage`).  Nothing else is known of the
entries.

All that a step of a task can do is told once (`Task.Move`, `move_stepOn`).  A
step reads the input or writes an artifact of its task, and nothing more: it
leaves the other entries as they are (`Move.frame`) and does not depend on them
(`stepOn_congr`).  As a run is made of steps (`Task.step_bind_run`), the same holds
of a whole run (`runOn_frame`, `runOn_congr`), and a run that succeeds leaves all
artifacts of its input (`holds_runOn_waiting`).
-/

import ScopeTrack.File.Task
import ScopeTrack.Proofs.File.Artifact

namespace ScopeTrack

/-- How a file system treats the entries at its paths. -/
structure Storage (ε : Type) where
  read : String → ε → Except FileFault ByteArray
  /-- The answer to a write, and the entry that it leaves. -/
  write : String → ByteArray → ε → Except FileFault Unit × ε
  /-- What has been written is what is read. -/
  read_written : ∀ {path : String} {bytes : ByteArray} {old new : ε},
    write path bytes old = (.ok (), new) → read path new = .ok bytes

namespace Storage

variable {ε : Type}

/-- The entries with another one at a path. -/
def put (contents : String → ε) (path : String) (entry : ε) : String → ε := fun other =>
  if other = path then entry else contents other

@[simp] theorem put_self (contents : String → ε) (path : String) (entry : ε) :
    put contents path entry path = entry :=
  if_pos rfl

theorem put_of_ne {contents : String → ε} {path other : String} {entry : ε} (h : other ≠ path) :
    put contents path entry other = contents other :=
  if_neg h

/-- Access to the files of a file system. -/
def files (storage : Storage ε) : Files (StateM (String → ε)) where
  read path := fun contents => (storage.read path (contents path), contents)
  write path bytes := fun contents =>
    let written := storage.write path bytes (contents path)
    (written.1, put contents path written.2)

/-- What an input gives with the file system as it is: where its artifacts go,
and the files to write. -/
def prepared (storage : Storage ε) (parser : Parser) (tableName : String)
    (contents : String → ε) (input directory : String) :
    Except Error (ArtifactPaths × List (String × String)) :=
  (Files.decode input (storage.read input (contents input))).bind
    (Task.prepare parser tableName input directory)

/-- Each of the files is there, with its text. -/
def Holds (storage : Storage ε) (contents : String → ε) (texts : List (String × String)) : Prop :=
  ∀ file ∈ texts, storage.read file.1 (contents file.1) = .ok file.2.toUTF8

/-- The three artifacts of an output are there: the table, the list of scopes and the
instrumented source, each at its own path and with its own text. -/
structure HoldsOutput (storage : Storage ε) (contents : String → ε) (paths : ArtifactPaths)
    (output : Output) : Prop where
  table : storage.read paths.table (contents paths.table) = .ok output.tableText.toUTF8
  scopes : storage.read paths.scopes (contents paths.scopes) = .ok output.scopesText.toUTF8
  instrumented : storage.read paths.instrumented (contents paths.instrumented) =
    .ok output.instrumented.toUTF8

/-- The files that a task writes are the three artifacts, and no others. -/
theorem holds_contents_iff {storage : Storage ε} {contents : String → ε} {paths : ArtifactPaths}
    {output : Output} :
    storage.Holds contents (paths.contents output) ↔
      storage.HoldsOutput contents paths output := by
  simp only [Holds, ArtifactPaths.contents, List.forall_mem_cons]
  constructor
  · rintro ⟨htable, hscopes, hinstrumented, -⟩
    exact ⟨htable, hscopes, hinstrumented⟩
  · rintro ⟨htable, hscopes, hinstrumented⟩
    exact ⟨htable, hscopes, hinstrumented, fun _ h => absurd h List.not_mem_nil⟩

end Storage

namespace Task

variable {ε : Type}

/-- The paths that are still to be read. -/
def reads : Task → List String
  | waiting input _ => [input]
  | writing _ _ => []
  | finished _ => []

/-- The paths that may still be written. -/
def writes : Task → List String
  | waiting input directory => (ArtifactPaths.forInput input directory).toList
  | writing _ pending => pending.map Prod.fst
  | finished _ => []

/-- The paths that may still be read or written. -/
def touches (task : Task) : List String :=
  task.reads ++ task.writes

/-- How many steps it takes at most to finish. -/
def stepsLeft : Task → Nat
  | waiting _ _ => 5
  | writing _ pending => pending.length + 1
  | finished _ => 0

/-- **All that one step of a task can do**: what it goes on as, and what becomes
of the files. -/
inductive Move (storage : Storage ε) (parser : Parser) (tableName : String) :
    Task → (String → ε) → Task → (String → ε) → Prop where
  | read {input directory : String} {contents : String → ε} {paths : ArtifactPaths}
      {pending : List (String × String)}
      (h : storage.prepared parser tableName contents input directory = .ok (paths, pending)) :
      Move storage parser tableName (.waiting input directory) contents
        (.writing paths pending) contents
  | refused {input directory : String} {contents : String → ε} {e : Error}
      (h : storage.prepared parser tableName contents input directory = .error e) :
      Move storage parser tableName (.waiting input directory) contents
        (.finished (.error e)) contents
  | wrote {paths : ArtifactPaths} {path text : String} {pending : List (String × String)}
      {contents : String → ε} {entry : ε}
      (h : storage.write path text.toUTF8 (contents path) = (.ok (), entry)) :
      Move storage parser tableName (.writing paths ((path, text) :: pending)) contents
        (.writing paths pending) (Storage.put contents path entry)
  | failed {paths : ArtifactPaths} {path text : String} {pending : List (String × String)}
      {contents : String → ε} {fault : FileFault} {entry : ε}
      (h : storage.write path text.toUTF8 (contents path) = (.error fault, entry)) :
      Move storage parser tableName (.writing paths ((path, text) :: pending)) contents
        (.finished (.error (.unwritable path fault))) (Storage.put contents path entry)
  | done {paths : ArtifactPaths} {contents : String → ε} :
      Move storage parser tableName (.writing paths []) contents (.finished (.ok paths)) contents
  | idle {result : Except Error ArtifactPaths} {contents : String → ε} :
      Move storage parser tableName (.finished result) contents (.finished result) contents

section

variable (storage : Storage ε) (parser : Parser) (tableName : String)

/-- A step of a task on the files of a file system. -/
def stepOn (task : Task) (contents : String → ε) : Task × (String → ε) :=
  (task.step storage.files parser tableName).run contents

/-- The run of a task on the files of a file system. -/
def runOn (task : Task) (contents : String → ε) : Except Error ArtifactPaths × (String → ε) :=
  (task.run storage.files parser tableName).run contents

/-- The first step of a task reads its input and makes all the texts from it.  Nothing
is written yet, whether that succeeds or not. -/
theorem stepOn_waiting (input directory : String) (contents : String → ε) :
    (waiting input directory).stepOn storage parser tableName contents =
      match storage.prepared parser tableName contents input directory with
      | .ok (paths, pending) => (.writing paths pending, contents)
      | .error e => (.finished (.error e), contents) := by
  change (match storage.prepared parser tableName contents input directory with
      | .ok (paths, pending) => (pure (writing paths pending) : StateM (String → ε) Task)
      | .error e => pure (finished (.error e))) contents = _
  rcases storage.prepared parser tableName contents input directory with _ | ⟨_, _⟩ <;> rfl

/-- A step of writing puts one file in its place, and a failure ends the task. -/
theorem stepOn_writing (paths : ArtifactPaths) (path text : String)
    (pending : List (String × String)) (contents : String → ε) :
    (writing paths ((path, text) :: pending)).stepOn storage parser tableName contents =
      match storage.write path text.toUTF8 (contents path) with
      | (.ok (), entry) => (.writing paths pending, Storage.put contents path entry)
      | (.error fault, entry) =>
        (.finished (.error (.unwritable path fault)), Storage.put contents path entry) := by
  unfold stepOn step Files.writeText Storage.files
  simp only [StateT.run_bind]
  simp only [StateT.run]
  rcases storage.write path text.toUTF8 (contents path) with ⟨_ | _, _⟩ <;> rfl

/-- **Every step is a move.**  -/
theorem move_stepOn (task : Task) (contents : String → ε) :
    Move storage parser tableName task contents
      (task.stepOn storage parser tableName contents).1
      (task.stepOn storage parser tableName contents).2 := by
  match task with
  | .waiting input directory =>
    rw [stepOn_waiting]
    rcases h : storage.prepared parser tableName contents input directory with e | ⟨paths, pending⟩
    · exact .refused h
    · exact .read h
  | .writing paths [] => exact .done
  | .writing paths ((path, text) :: pending) =>
    rw [stepOn_writing]
    rcases h : storage.write path text.toUTF8 (contents path) with ⟨fault | _, entry⟩
    · exact .failed h
    · exact .wrote h
  | .finished result => exact .idle

/-- A step uses of the files only what the task touches. -/
theorem stepOn_congr {task : Task} {contents others : String → ε}
    (same : ∀ path ∈ task.touches, others path = contents path) :
    (task.stepOn storage parser tableName others).1 =
        (task.stepOn storage parser tableName contents).1 ∧
      ∀ path, others path = contents path →
        (task.stepOn storage parser tableName others).2 path =
          (task.stepOn storage parser tableName contents).2 path := by
  match task, same with
  | .waiting input directory, same =>
    have hinput : others input = contents input := same input (by simp [touches, reads])
    simp only [stepOn_waiting, Storage.prepared, hinput]
    split <;> exact ⟨rfl, fun path h => h⟩
  | .writing paths [], _ => exact ⟨rfl, fun path h => h⟩
  | .writing paths ((path, text) :: pending), same =>
    have hpath : others path = contents path := same path (by simp [touches, reads, writes])
    have hput (entry : ε) (other : String) (h : others other = contents other) :
        Storage.put others path entry other = Storage.put contents path entry other := by
      simp only [Storage.put, h]
    simp only [stepOn_writing, hpath]
    split <;> exact ⟨rfl, hput _⟩
  | .finished result, _ => exact ⟨rfl, fun path h => h⟩

/-- A run is a step and the run of what is left. -/
theorem runOn_stepOn (task : Task) (contents : String → ε) :
    (task.stepOn storage parser tableName contents).1.runOn storage parser tableName
        (task.stepOn storage parser tableName contents).2 =
      task.runOn storage parser tableName contents :=
  congrFun (step_bind_run storage.files parser tableName task) contents

end

/-! ## What a step touches -/

section

variable {storage : Storage ε} {parser : Parser} {tableName : String}

/-- What is prepared for an input: its artifacts, at their own paths and with the
texts that its source gives. -/
theorem prepared_ok {contents : String → ε} {input directory : String} {paths : ArtifactPaths}
    {pending : List (String × String)}
    (h : storage.prepared parser tableName contents input directory = .ok (paths, pending)) :
    paths = ArtifactPaths.forInput input directory ∧
      ∃ source output,
        Files.decode input (storage.read input (contents input)) = .ok source ∧
        (instrument tableName input source (parser input source)).value = .ok output ∧
        pending = paths.contents output := by
  cases hsource : Files.decode input (storage.read input (contents input)) with
  | error e => simp [Storage.prepared, hsource, Except.bind] at h
  | ok source =>
    cases houtput : (instrument tableName input source (parser input source)).value with
    | error e => simp [Storage.prepared, hsource, Except.bind, prepare, houtput, bind] at h
    | ok output =>
      simp only [Storage.prepared, hsource, Except.bind, prepare, houtput, bind, pure,
        Except.pure, Except.ok.injEq, Prod.mk.injEq] at h
      obtain ⟨rfl, rfl⟩ := h
      exact ⟨rfl, source, output, rfl, houtput, rfl⟩

namespace Move

variable {task next : Task} {contents later : String → ε}

/-- **A step writes nothing but what the task writes.**  -/
theorem frame (move : Move storage parser tableName task contents next later) {path : String}
    (h : path ∉ task.writes) : later path = contents path := by
  cases move with
  | read | refused | done | idle => rfl
  | wrote | failed => exact Storage.put_of_ne (by simp_all [writes])

/-- No step adds to what a task is going to write. -/
theorem writes_subset (move : Move storage parser tableName task contents next later) :
    next.writes ⊆ task.writes := by
  cases move with
  | read h =>
    obtain ⟨rfl, source, output, -, -, rfl⟩ := prepared_ok h
    exact List.Subset.refl _
  | wrote => exact List.subset_cons_self _ _
  | refused | failed | done | idle => exact List.nil_subset _

theorem reads_subset (move : Move storage parser tableName task contents next later) :
    next.reads ⊆ task.reads := by
  cases move <;> exact List.nil_subset _

theorem touches_subset (move : Move storage parser tableName task contents next later) :
    next.touches ⊆ task.touches :=
  List.append_subset.mpr
    ⟨List.subset_append_of_subset_left _ move.reads_subset,
      List.subset_append_of_subset_right _ move.writes_subset⟩

/-- **A step brings a task nearer to its end**, until it is there. -/
theorem stepsLeft_le (move : Move storage parser tableName task contents next later) :
    next.stepsLeft ≤ task.stepsLeft - 1 := by
  cases move with
  | read h =>
    obtain ⟨rfl, source, output, -, -, rfl⟩ := prepared_ok h
    exact Nat.le_refl _
  | refused | wrote | failed | done | idle => simp [stepsLeft]

end Move

end

/-! ## What a run touches -/

theorem eq_finished {task : Task} (h : task.stepsLeft = 0) : ∃ result, task = .finished result := by
  cases task with
  | waiting | writing => simp [stepsLeft] at h
  | finished result => exact ⟨result, rfl⟩

/-- What holds of finished tasks, and of each task if it holds of those that are
nearer to their end, holds of all tasks. -/
@[elab_as_elim]
theorem induction_steps {motive : Task → Prop}
    (finished : ∀ result, motive (.finished result))
    (step : ∀ task, (∀ next : Task, next.stepsLeft ≤ task.stepsLeft - 1 → motive next) →
      motive task)
    (task : Task) : motive task := by
  have bounded (n : Nat) : ∀ task : Task, task.stepsLeft ≤ n → motive task := by
    induction n with
    | zero =>
      intro task h
      obtain ⟨result, rfl⟩ := eq_finished (Nat.le_zero.mp h)
      exact finished result
    | succ n ih =>
      intro task h
      exact step task fun next hnext => ih next (by omega)
  exact bounded task.stepsLeft task (Nat.le_refl _)

section

variable (storage : Storage ε) (parser : Parser) (tableName : String)

/-- **A run writes nothing but what the task writes.**  -/
theorem runOn_frame {task : Task} {path : String} (h : path ∉ task.writes)
    (contents : String → ε) :
    (task.runOn storage parser tableName contents).2 path = contents path := by
  induction task using induction_steps generalizing contents with
  | finished result => rfl
  | step task ih =>
    have move := move_stepOn storage parser tableName task contents
    have hnext := ih _ move.stepsLeft_le (fun hpath => h (move.writes_subset hpath))
    rw [← runOn_stepOn, hnext, move.frame h]

/-- **A run uses of the files only what the task touches.**  -/
theorem runOn_congr {task : Task} {contents others : String → ε}
    (same : ∀ path ∈ task.touches, others path = contents path) :
    (task.runOn storage parser tableName others).1 =
        (task.runOn storage parser tableName contents).1 ∧
      ∀ path, others path = contents path →
        (task.runOn storage parser tableName others).2 path =
          (task.runOn storage parser tableName contents).2 path := by
  induction task using induction_steps generalizing contents others with
  | finished result => exact ⟨rfl, fun path h => h⟩
  | step task ih =>
    have move := move_stepOn storage parser tableName task contents
    obtain ⟨hnext, hlater⟩ := stepOn_congr storage parser tableName same
    have hrun := ih _ move.stepsLeft_le fun path hpath =>
      hlater path (same path (move.touches_subset hpath))
    rw [← hnext, runOn_stepOn, hnext, runOn_stepOn] at hrun
    exact ⟨hrun.1, fun path h => hrun.2 path (hlater path h)⟩

end

/-! ## What a successful run leaves -/

section

variable {storage : Storage ε} {parser : Parser} {tableName : String}

/-- **A task that finishes its writing has written all of it.**  By induction on what is
still to be written; the paths are different, so no file is written over by a later one. -/
theorem holds_runOn_writing {paths reported : ArtifactPaths} {pending : List (String × String)}
    (nodup : (pending.map Prod.fst).Nodup) {contents : String → ε}
    (h : ((writing paths pending).runOn storage parser tableName contents).1 = .ok reported) :
    reported = paths ∧ storage.Holds
      ((writing paths pending).runOn storage parser tableName contents).2 pending := by
  induction pending generalizing contents with
  | nil => exact ⟨(Except.ok.inj h).symm, fun file hfile => absurd hfile List.not_mem_nil⟩
  | cons file pending ih =>
    obtain ⟨path, text⟩ := file
    obtain ⟨hpath, nodup⟩ := List.nodup_cons.mp nodup
    rw [← runOn_stepOn, stepOn_writing] at h ⊢
    rcases hwrite : storage.write path text.toUTF8 (contents path) with ⟨fault | _, entry⟩
    · rw [hwrite] at h
      cases h
    · rw [hwrite] at h
      change ((writing paths pending).runOn storage parser tableName
        (Storage.put contents path entry)).1 = .ok reported at h
      obtain ⟨hreported, hholds⟩ := ih nodup h
      refine ⟨hreported, List.forall_mem_cons.mpr ⟨?_, hholds⟩⟩
      -- Nothing that is still to be written goes to the path of the first file.
      have hafter := runOn_frame storage parser tableName
        (show path ∉ (writing paths pending).writes from hpath)
        (Storage.put contents path entry)
      rw [hafter, Storage.put_self]
      exact storage.read_written hwrite

/-- **A successful run leaves all artifacts of its input**, with the texts that
the input gave when the run began. -/
theorem holds_runOn_waiting {input directory : String} {paths : ArtifactPaths}
    {contents : String → ε}
    (h : ((waiting input directory).runOn storage parser tableName contents).1 = .ok paths) :
    ∃ texts, storage.prepared parser tableName contents input directory = .ok (paths, texts) ∧
      storage.Holds
        ((waiting input directory).runOn storage parser tableName contents).2 texts := by
  rw [← runOn_stepOn, stepOn_waiting] at h ⊢
  rcases hprepared : storage.prepared parser tableName contents input directory with
    e | ⟨reported, texts⟩
  · rw [hprepared] at h
    cases h
  · rw [hprepared] at h
    obtain ⟨rfl, source, output, -, -, rfl⟩ := prepared_ok hprepared
    have nodup := ArtifactPaths.nodup_toList input directory
    rw [← ArtifactPaths.map_fst_contents _ output] at nodup
    obtain ⟨rfl, hholds⟩ := holds_runOn_writing nodup h
    exact ⟨_, rfl, hholds⟩

end
end Task
end ScopeTrack
