/-
# The chain of open scopes

The scopes that are open, innermost first, and the archive of those that have
been closed, in closing order.  A function closes only the scope that it opened
itself, and the global scope is closed when it is the only one left.  After
that no scope is current: entering and declaring fail with `Error.noOpenScope`.

| operation | open scopes | archive |
| --- | --- | --- |
| `enter` | one more in front | as before |
| `declare` | the first one may declare one more | as before |
| `leave?` | the first one goes | it comes last |
| `closeGlobal?` | the only one goes | it comes last |
-/

import ScopeTrack.Error
import ScopeTrack.Scope.Frame

namespace ScopeTrack
namespace Scope

/-- Open scopes, innermost first, and closed scopes, in closing order. -/
structure Chain where
  frames : List Frame
  archive : List Frame
deriving DecidableEq, Repr, Inhabited

namespace Chain

/-- The chain with only the global scope open. -/
def new : Chain := ⟨[Frame.global], []⟩

/-- The number of open scopes. -/
def depth (c : Chain) : Nat :=
  c.frames.length

/-- The innermost open scope. -/
def current (c : Chain) : Except Error Frame :=
  match c.frames with
  | [] => .error .noOpenScope
  | frame :: _ => .ok frame

/-- Replaces the innermost open scope. -/
def setCurrent (c : Chain) (frame : Frame) : Except Error Chain :=
  match c.frames with
  | [] => .error .noOpenScope
  | _ :: outer => .ok { c with frames := frame :: outer }

/-- Opens the scope of a function inside the current one. -/
def enter (c : Chain) (function : String) (owner : Span) : Except Error Chain := do
  let parent ← c.current
  let frame : Frame := { name := childName parent.name function, owner := some owner }
  return { c with frames := frame :: c.frames }

/-- Declares a variable in the current scope. -/
def declare (c : Chain) (name : String) : Except Error Chain := do
  let frame ← c.current
  c.setCurrent (frame.declare name)

/-- Whether the innermost open scope was opened by the function at `span`. -/
def isOwnedBy (c : Chain) (span : Span) : Bool :=
  (c.frames.head?.bind Frame.owner) == some span

/-- Closes the innermost scope if the function at `owner` opened it, and gives it
with the chain that is left; otherwise `none`. -/
def leave? (c : Chain) (owner : Span) : Option (Frame × Chain) :=
  match c.frames with
  | [] => none
  | frame :: outer =>
    if frame.owner = some owner then some (frame, ⟨outer, c.archive ++ [frame]⟩) else none

/-- Closes the scope that is open alone, and gives it with the chain that is
left; `none` if there are more, or none at all. -/
def closeGlobal? (c : Chain) : Option (Frame × Chain) :=
  match c.frames with
  | [frame] => some (frame, ⟨[], c.archive ++ [frame]⟩)
  | _ => none

end Chain
end Scope
end ScopeTrack
