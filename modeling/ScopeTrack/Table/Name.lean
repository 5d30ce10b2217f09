/-
# Names for the tracking table

The table is declared by `let`, so its name must be an identifier of ASCII
letters, digits, `_` and `$` that is no reserved word of strict code.
-/

import ScopeTrack.Error

namespace ScopeTrack
namespace TableName

/-- A character that an identifier may start with. -/
def isStart (c : Char) : Bool :=
  c.isAlpha || c == '_' || c == '$'

/-- A character that an identifier may go on with. -/
def isContinue (c : Char) : Bool :=
  isStart c || c.isDigit

/-- The words that cannot name a variable in strict code. -/
def reserved : List String :=
  ["arguments", "await", "break", "case", "catch", "class", "const", "continue", "debugger",
    "default", "delete", "do", "else", "enum", "eval", "export", "extends", "false", "finally",
    "for", "function", "if", "implements", "import", "in", "instanceof", "interface", "let",
    "new", "null", "package", "private", "protected", "public", "return", "static", "super",
    "switch", "this", "throw", "true", "try", "typeof", "var", "void", "while", "with", "yield"]

/-- Whether a name has the form of an identifier. -/
def isWellFormed : List Char → Bool
  | [] => false
  | c :: cs => isStart c && cs.all isContinue

/-- Whether the table may have this name. -/
def isValid (name : String) : Bool :=
  isWellFormed name.toList && !reserved.contains name

/-- The name that the table has unless another one is asked for. -/
def standard : String := "stateManager"

/-- The name itself, or the error that refuses it. -/
def check (name : String) : Except Error String :=
  if isValid name then .ok name else .error (.invalidIdentifier name)

/-- The name that is used when none is given is a valid one. -/
theorem isValid_standard : isValid standard := by
  decide +kernel

end TableName
end ScopeTrack
