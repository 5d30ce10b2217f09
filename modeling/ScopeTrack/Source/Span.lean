/-
# Spans

The stretch of a source text that a node covers, in UTF-8 byte offsets.
-/

namespace ScopeTrack

/-- A stretch of a source text, from `start` up to `stop`. -/
structure Span where
  start : Nat
  stop : Nat
deriving DecidableEq, Repr, Inhabited

end ScopeTrack
