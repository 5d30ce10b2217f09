/-
# Commands

The two commands: `instrument` writes the artifacts of some files and tells
where the instrumented sources are; `inspect` prints the analysis of one file
and writes nothing.

All inputs of `instrument` are worked on, whatever becomes of the others.  Only
if all of them succeed is anything printed; otherwise the error is that of the
first input that failed, in the order of the arguments.

| exit status | meaning |
| --- | --- |
| 0 | done |
| 1 | an error, which is reported |
| 2 | refused arguments |
-/

import ScopeTrack.Command.Arguments
import ScopeTrack.File.Task

namespace ScopeTrack

/-- The forms of a printed analysis. -/
inductive Format where
  | json
  | text
deriving DecidableEq, Repr

/-- The format of a name. -/
def Format.ofName? : String → Option Format
  | "json" => some json
  | "text" => some text
  | _ => none

/-- An analysis in a format. -/
def Format.render : Format → Analysis → String
  | json, analysis => analysis.toJson.pretty ++ "\n"
  | text, analysis => analysis.report

/-- What the user asks for. -/
inductive Command where
  /-- Instrument the inputs, into a directory or each into its own. -/
  | instrument (inputs : List String) (directory : Option String) (tableName : String)
  | inspect (input : String) (format : Format)
  | version
  | help
deriving DecidableEq, Repr

namespace Command

/-- The options of `instrument`. -/
def instrumentOptions : List OptionName :=
  [⟨"out-dir", some 'o'⟩, ⟨"table-identifier", none⟩]

/-- The options of `inspect`. -/
def inspectOptions : List OptionName :=
  [⟨"format", some 'f'⟩]

/-- The inputs, the directory and the table name that `instrument` is given;
`none` if an option is repeated or a path is empty. -/
def instrumentGiven? (arguments : List Argument) :
    Option (List String × Option String × Option String) := do
  let inputs := Argument.plains arguments
  let directory ← Argument.value? "out-dir" arguments
  let tableName ← Argument.value? "table-identifier" arguments
  if "" ∈ inputs ∨ directory = some "" then none else some (inputs, directory, tableName)

/-- The command `instrument` with what it is given; it needs an input. -/
def instrument? : List String × Option String × Option String → Option Command
  | ([], _, _) => none
  | (inputs, directory, tableName) =>
    some (.instrument inputs directory (tableName.getD TableName.standard))

/-- The input and the format that `inspect` is given; `none` if the option is
repeated, the format is unknown, the path is empty, or there is more than one. -/
def inspectGiven? (arguments : List Argument) : Option (Option String × Format) := do
  let format ← Argument.value? "format" arguments
  let format ← Format.ofName? (format.getD "json")
  match Argument.plains arguments with
  | [] => some (none, format)
  | [input] => if input = "" then none else some (some input, format)
  | _ => none

/-- The command `inspect` with what it is given; it needs an input. -/
def inspect? : Option String × Format → Option Command
  | (none, _) => none
  | (some input, format) => some (.inspect input format)

/-- The command of the arguments after its name.  What stands before a request
for help must be right, but nothing needs to be there. -/
def ofScan? {α : Type} (options : List OptionName) (given? : List Argument → Option α)
    (command? : α → Option Command) (arguments : List String) : Option Command := do
  let arguments ← Argument.scan options arguments
  let given ← given? arguments
  if .help ∈ arguments then some .help else command? given

/-- The words that name a command. -/
def names : List String := ["instrument", "inspect", "help"]

/-- The command that the arguments ask for; `none` if they are refused.  Help is
given on the program or on one command. -/
def ofArguments? : List String → Option Command
  | "instrument" :: rest => ofScan? instrumentOptions instrumentGiven? instrument? rest
  | "inspect" :: rest => ofScan? inspectOptions inspectGiven? inspect? rest
  | ["help"] => some .help
  | ["help", name] => if name ∈ names then some .help else none
  | "--help" :: _ => some .help
  | "--version" :: _ => some .version
  | other :: _ =>
    match other.toList with
    | '-' :: 'V' :: _ => some .version
    | '-' :: 'h' :: _ => some .help
    | _ => none
  | [] => none

/-- The name and the version of the program. -/
def versionText : String := "js-state-tracker 0.1.0\n"

/-- The usage of the program. -/
def usage : String :=
  Text.unlines
    ["Usage: js-state-tracker instrument [--out-dir DIR] [--table-identifier NAME] INPUT...",
      "       js-state-tracker inspect [--format json|text] INPUT",
      "       js-state-tracker --version", ""]

/-- The directory for the artifacts of an input: the one asked for, or that of
the input. -/
def directoryFor (directory : Option String) (input : String) : String :=
  directory.getD ((Path.parent? input).getD ".")

/-- The line on an input that was instrumented. -/
def doneLine (input : String) (paths : ArtifactPaths) : String :=
  "Instrumented " ++ input ++ " -> " ++ paths.instrumented ++ "\n"

/-- What is printed for the results of all inputs, or the first error. -/
def announce (results : List (String × Except Error ArtifactPaths)) : Except Error String := do
  let lines ← results.mapM fun (input, result) => result.map (doneLine input)
  return String.join lines

/-- Instruments all inputs. -/
def instrumentAll {m : Type → Type} [Monad m] (files : Files m) (parser : Parser)
    (inputs : List String) (directory : Option String) (tableName : String) :
    m (Except Error String) := do
  match TableName.check tableName with
  | .error e => return .error e
  | .ok tableName =>
    let results ← inputs.mapM fun input => do
      let result ← instrumentFile files parser tableName input (directoryFor directory input)
      return (input, result)
    return announce results

/-- Analyzes a file and gives the analysis in a format. -/
def inspectFile {m : Type → Type} [Monad m] (files : Files m) (parser : Parser)
    (input : String) (format : Format) : m (Except Error String) := do
  return (← analyzeFile files parser TableName.standard input).map format.render

/-- Does what a command asks for; gives what is printed. -/
def run {m : Type → Type} [Monad m] (files : Files m) (parser : Parser) :
    Command → m (Except Error String)
  | .instrument inputs directory tableName =>
    instrumentAll files parser inputs directory tableName
  | .inspect input format => inspectFile files parser input format
  | .version => return .ok versionText
  | .help => return .ok usage

/-- The files that a command reads. -/
def inputs : Command → List String
  | .instrument inputs _ _ => inputs
  | .inspect input _ => [input]
  | .version => []
  | .help => []

end Command

/-- How a run of the program ends: its exit status, what it prints, and what it
complains about. -/
structure Outcome where
  status : UInt8
  printed : String := ""
  complaint : String := ""
deriving DecidableEq, Repr

/-- The outcome of a command's result. -/
def Outcome.ofResult : Except Error String → Outcome
  | .ok printed => { status := 0, printed := printed }
  | .error e => { status := 1, complaint := e.message }

/-- Runs the program with the given arguments. -/
def runProgram {m : Type → Type} [Monad m] (files : Files m) (parser : Parser)
    (arguments : List String) : m Outcome := do
  match Command.ofArguments? arguments with
  | some command => return .ofResult (← command.run files parser)
  | none => return { status := 2, complaint := Command.usage }

end ScopeTrack
