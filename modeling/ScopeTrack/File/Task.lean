/-
# Tasks

Each input file is a task of its own: its text is read and instrumented, then
its three artifacts are written, one after the other.  The first failure ends
the task.  One step is one access to a file, so that the steps of several tasks
can come in any order.

| task | step | next |
| --- | --- | --- |
| waiting | reads the input | writing, or finished with an error |
| writing | writes the next artifact | writing, or finished with an error |
| writing, none left | none | finished |
| finished | none | the same |
-/

import ScopeTrack.File.Access
import ScopeTrack.File.Artifact
import ScopeTrack.Table.Name

namespace ScopeTrack

/-- A parser: it is given the path and the text of a file. -/
abbrev Parser := String → String → Parsed

/-- How far the work on an input is. -/
inductive Task where
  | waiting (input directory : String)
  /-- The artifacts that are still to be written, with their texts. -/
  | writing (paths : ArtifactPaths) (pending : List (String × String))
  | finished (result : Except Error ArtifactPaths)
deriving Repr

namespace Task

/-- The artifacts of an input with the given text: their paths, and the files to
write. -/
def prepare (parser : Parser) (tableName input directory source : String) :
    Except Error (ArtifactPaths × List (String × String)) := do
  let output ← (instrument tableName input source (parser input source)).value
  let paths := ArtifactPaths.forInput input directory
  return (paths, paths.contents output)

/-- One step of a task. -/
def step {m : Type → Type} [Monad m] (files : Files m) (parser : Parser) (tableName : String) :
    Task → m Task
  | .waiting input directory => do
    match (← files.readText input).bind (prepare parser tableName input directory) with
    | .ok (paths, pending) => return .writing paths pending
    | .error e => return .finished (.error e)
  | .writing paths [] => return .finished (.ok paths)
  | .writing paths ((path, text) :: pending) => do
    match ← files.writeText path text with
    | .ok () => return .writing paths pending
    | .error e => return .finished (.error e)
  | .finished result => return .finished result

/-- Writes files in order, up to the first failure. -/
def writeAll {m : Type → Type} [Monad m] (files : Files m) (paths : ArtifactPaths) :
    List (String × String) → m (Except Error ArtifactPaths)
  | [] => return .ok paths
  | (path, text) :: pending => do
    match ← files.writeText path text with
    | .ok () => writeAll files paths pending
    | .error e => return .error e

/-- Runs a task to its end. -/
def run {m : Type → Type} [Monad m] (files : Files m) (parser : Parser) (tableName : String) :
    Task → m (Except Error ArtifactPaths)
  | .waiting input directory => do
    match (← files.readText input).bind (prepare parser tableName input directory) with
    | .ok (paths, pending) => writeAll files paths pending
    | .error e => return .error e
  | .writing paths pending => writeAll files paths pending
  | .finished result => return result

/-- **A step is the start of a run.**  A task that makes a step and runs on from
there ends as if it had run at once. -/
theorem step_bind_run {m : Type → Type} [Monad m] [LawfulMonad m] (files : Files m)
    (parser : Parser) (tableName : String) (task : Task) :
    (task.step files parser tableName >>= run files parser tableName) =
      task.run files parser tableName := by
  match task with
  | .waiting input directory =>
    simp only [step, run, bind_assoc]
    congr 1
    funext text
    split <;> simp_all [run]
  | .writing paths [] => simp [step, run, writeAll]
  | .writing paths ((path, text) :: pending) =>
    simp only [step, run, writeAll, bind_assoc]
    congr 1
    funext written
    split <;> simp_all [run]
  | .finished result => simp [step, run]

end Task

/-- Instruments one file and writes its artifacts into a directory. -/
def instrumentFile {m : Type → Type} [Monad m] (files : Files m) (parser : Parser)
    (tableName input directory : String) : m (Except Error ArtifactPaths) :=
  (Task.waiting input directory).run files parser tableName

/-- Analyzes one file. -/
def analyzeFile {m : Type → Type} [Monad m] (files : Files m) (parser : Parser)
    (tableName input : String) : m (Except Error Analysis) := do
  match ← files.readText input with
  | .error e => return .error e
  | .ok source => return (analyze tableName input source (parser input source)).value

end ScopeTrack
