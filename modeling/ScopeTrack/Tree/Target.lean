/-
# Targets of assignments

The variable that an assignment writes to, or a label that says why none is
known.
-/

namespace ScopeTrack

/-- What an assignment writes to. -/
inductive Target where
  /-- A variable of this name. -/
  | named (name : String)
  /-- No variable that is known; the label tells the shape of the target. -/
  | unresolved (label : String)
deriving DecidableEq, Repr, Inhabited

namespace Target

/-- The name of the variable, if it is known. -/
def name? : Target → Option String
  | named name => some name
  | unresolved _ => none

/-- Whether the variable is known. -/
def isResolved (t : Target) : Bool :=
  t.name?.isSome

/-- A target as it is shown in messages. -/
def text : Target → String
  | named name => name
  | unresolved label => "<unresolved:" ++ label ++ ">"

end Target
end ScopeTrack
