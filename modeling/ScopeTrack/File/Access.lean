/-
# Access to files

What the work on files needs of its surroundings: to read and to write a file as
a whole.  Either can fail, and a failed write is taken to change nothing.
-/

import ScopeTrack.Error

namespace ScopeTrack

/-- Reading and writing whole files. -/
structure Files (m : Type → Type) where
  read : String → m (Except FileFault ByteArray)
  write : String → ByteArray → m (Except FileFault Unit)

namespace Files

/-- The text of the bytes that were read from a path. -/
def decode (path : String) : Except FileFault ByteArray → Except Error String
  | .error fault => .error (.unreadable path fault)
  | .ok bytes =>
    match String.fromUTF8? bytes with
    | some text => .ok text
    | none => .error (.unreadable path .notText)

/-- Reads a file as text. -/
def readText {m : Type → Type} [Monad m] (files : Files m) (path : String) :
    m (Except Error String) := do
  return decode path (← files.read path)

/-- Writes a text to a file. -/
def writeText {m : Type → Type} [Monad m] (files : Files m) (path text : String) :
    m (Except Error Unit) := do
  match ← files.write path text.toUTF8 with
  | .ok () => return .ok ()
  | .error fault => return .error (.unwritable path fault)

end Files
end ScopeTrack
