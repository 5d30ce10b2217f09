/-
# The program

Runs the commands on the files of the system.  The syntax tree of an input comes
from a file beside it, with `.ast.json` added to its name: a JSON object with
the ESTree document under `ast`, or with the parser's complaints under
`parse_errors`.
-/

import ScopeTrack.Command
import ScopeTrack.Tree.Estree

namespace ScopeTrack

/-- The fault behind an error of the system. -/
def faultOfError : IO.Error → FileFault
  | .noFileOrDirectory _ _ _ => .notFound
  | .inappropriateType _ code _ => if code = 20 then .notDirectory else .isDirectory
  | .invalidArgument (some _) 36 _ => .nameTooLong
  | error => .other error.toString

/-- Access to the files of the system. -/
def systemFiles : Files IO where
  read path := do
    try
      return .ok (← IO.FS.readBinFile path)
    catch error => return .error (faultOfError error)
  write path bytes := do
    try
      IO.FS.writeBinFile path bytes
      return .ok ()
    catch error => return .error (faultOfError error)

/-- The name of the file with the syntax tree of an input. -/
def treePath (input : String) : String := input ++ ".ast.json"

/-- The deepest nesting of a syntax tree's document. -/
def treeNesting : Nat := 100000

/-- What the parser made of an input, from the file beside it. -/
def readParsed (input : String) : IO (String × Parsed) := do
  match ← systemFiles.readText (treePath input) with
  | .error e => return (input, .error [e.message])
  | .ok text =>
    match (Json.parse? treeNesting text).bind Estree.parsed? with
    | some parsed => return (input, parsed)
    | none => return (input, .error [treePath input ++ " holds no syntax tree"])

/-- The parser that knows the given files. -/
def parserOf (known : List (String × Parsed)) : Parser := fun path _ =>
  (known.lookup path).getD (.error [])

end ScopeTrack

open ScopeTrack in
/-- Runs the program. -/
def main (arguments : List String) : IO UInt32 := do
  let inputs := ((Command.ofArguments? arguments).map Command.inputs).getD []
  let known ← inputs.mapM readParsed
  let outcome ← runProgram systemFiles (parserOf known) arguments
  IO.print outcome.printed
  if outcome.complaint ≠ "" then IO.eprintln outcome.complaint
  return outcome.status.toUInt32
