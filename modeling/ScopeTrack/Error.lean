/-
# Errors

What can go wrong, by cause.  Each error has a message; those that are the
user's to mend have a code, and some have a line of help.
-/

import ScopeTrack.Source.Location

namespace ScopeTrack

/-- Why a file could not be read or written. -/
inductive FileFault where
  | notFound
  | notDirectory
  | isDirectory
  /-- The bytes of the file are no UTF-8. -/
  | notText
  | nameTooLong
  /-- The path holds a NUL character. -/
  | nulInPath
  /-- Anything else, in the words of the system. -/
  | other (text : String)
deriving DecidableEq, Repr

/-- The system's words for a fault. -/
def FileFault.text : FileFault → String
  | notFound => "No such file or directory (os error 2)"
  | notDirectory => "Not a directory (os error 20)"
  | isDirectory => "Is a directory (os error 21)"
  | notText => "stream did not contain valid UTF-8"
  | nameTooLong => "File name too long (os error 36)"
  | nulInPath => "file name contained an unexpected NUL byte"
  | other text => text

/-- A failure of the analysis, of the patching, or of the files around them. -/
inductive Error where
  | unreadable (path : String) (fault : FileFault)
  | unwritable (path : String) (fault : FileFault)
  /-- The parser refused the source, for the given reasons. -/
  | parse (file : String) (reasons : List String)
  /-- A site lies on a line that the source does not have. -/
  | patchOutOfRange (location : Location) (lineCount : Nat)
  | invalidLocation (key : String)
  | invalidIdentifier (name : String)
  /-- The current scope was asked for after the last one had been closed. -/
  | noOpenScope
deriving DecidableEq, Repr

namespace Error

/-- The reasons of the parser in one text. -/
def reasonsText (reasons : List String) : String :=
  if reasons = [] then "parser aborted" else "; ".intercalate reasons

/-- The message of an error. -/
def message : Error → String
  | unreadable path fault => "I/O error: failed to read " ++ path ++ ": " ++ fault.text
  | unwritable path fault => "I/O error: failed to write " ++ path ++ ": " ++ fault.text
  | parse file reasons => "Failed to parse " ++ file ++ ": " ++ reasonsText reasons
  | patchOutOfRange location lineCount =>
    "Update site " ++ location.key ++ " is outside the source (" ++ toString lineCount ++ " lines)"
  | invalidLocation key => "Invalid location key '" ++ key ++ "': expected <line>.<column>"
  | invalidIdentifier name => "Invalid tracking-table identifier '" ++ name ++ "'"
  | noOpenScope => "scope chain holds the global frame during traversal"

/-- The code under which an error is reported. -/
def code? : Error → Option String
  | unreadable _ _ => some "state_tracker::io_error"
  | unwritable _ _ => some "state_tracker::io_error"
  | parse _ _ => some "state_tracker::parse_error"
  | patchOutOfRange _ _ => some "state_tracker::patch_out_of_range"
  | invalidLocation _ => some "state_tracker::invalid_location"
  | invalidIdentifier _ => some "state_tracker::invalid_identifier"
  | noOpenScope => none

/-- What the user may do about an error. -/
def help? : Error → Option String
  | parse _ _ => some "the input must be a syntactically valid JavaScript program"
  | patchOutOfRange _ _ => some "update sites must come from an analysis of the same source text"
  | invalidIdentifier _ => some "use a plain JavaScript identifier such as `stateManager`"
  | _ => none

end Error

/-- The location that a key stands for, or the error that names the key. -/
def Location.ofKey (key : String) : Except Error Location :=
  match ofKey? key with
  | some location => .ok location
  | none => .error (.invalidLocation key)

end ScopeTrack
