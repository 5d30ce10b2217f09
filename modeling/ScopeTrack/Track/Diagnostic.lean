/-
# Diagnostics

What the analysis finds odd in a program without giving up on it.
-/

import ScopeTrack.Json.Basic
import ScopeTrack.Source.Location
import ScopeTrack.Tree.Target

namespace ScopeTrack

/-- The name of a scope whose function has none. -/
def anonymousName : String := "<anonymous>"

/-- The kinds of diagnostics. -/
inductive DiagnosticKind where
  /-- A function expression has no name of its own. -/
  | notDeanonymized
  /-- The scope of a function has no name to be keyed by. -/
  | anonymousScope
  /-- An assignment writes to no variable that is known. -/
  | unresolvedTarget
deriving DecidableEq, Repr

/-- The name of a kind. -/
def DiagnosticKind.name : DiagnosticKind → String
  | notDeanonymized => "not_deanonymized"
  | anonymousScope => "anonymous_scope"
  | unresolvedTarget => "unresolved_target"

/-- An oddity and where it is. -/
structure Diagnostic where
  kind : DiagnosticKind
  location : Location
  message : String
deriving DecidableEq, Repr

namespace Diagnostic

/-- A function expression that only its binding names. -/
def notDeanonymizedMessage (binding : Option String) : String :=
  "function " ++ binding.getD anonymousName ++
    " not deanonymized; run the deanonymization pass first"

/-- A function that nothing names. -/
def anonymousScopeMessage : String :=
  "function has no name; its scope is keyed as " ++ anonymousName

/-- An assignment to no known variable. -/
def unresolvedTargetMessage (target : Target) : String :=
  "cannot resolve the variable written by this assignment (" ++ target.text ++ ")"

/-- A diagnostic in one line. -/
def text (d : Diagnostic) : String :=
  d.location.key ++ ": " ++ d.message

/-- A diagnostic as a JSON object. -/
def toJson (d : Diagnostic) : Json :=
  .obj [("kind", .str d.kind.name), ("location", .str d.location.key), ("message", .str d.message)]

end Diagnostic
end ScopeTrack
