/-
# Log records

The analysis tells what it does in records, each with a level.
-/

namespace ScopeTrack

/-- How much a record matters. -/
inductive Level where
  | debug
  | info
  | warn
deriving DecidableEq, Repr

/-- The name of a level. -/
def Level.name : Level → String
  | debug => "DEBUG"
  | info => "INFO"
  | warn => "WARN"

/-- One record of a log. -/
structure Record where
  level : Level
  message : String
deriving DecidableEq, Repr

/-- A record as one text. -/
def Record.text (r : Record) : String :=
  r.level.name ++ " " ++ r.message

/-- A result with the records of how it came about. -/
structure Logged (α : Type) where
  value : α
  log : List Record := []
deriving Repr

end ScopeTrack
