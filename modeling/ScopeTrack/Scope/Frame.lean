/-
# Scopes

A scope is opened by a function, or is the global one.  Its name is the path of
the functions around it, `Program:outer:inner`, and it lists the variables that
are declared directly in it, each once, in the order in which they first appear.
-/

import ScopeTrack.Source.Span

namespace ScopeTrack
namespace Scope

/-- The name of the global scope. -/
def globalName : String := "Program"

/-- The name of the scope of a function inside a scope. -/
def childName (parent function : String) : String :=
  parent ++ ":" ++ function

/-- A scope and the variables declared in it. -/
structure Frame where
  name : String
  declared : List String := []
  /-- The function that opened the scope; the global scope has none. -/
  owner : Option Span := none
deriving DecidableEq, Repr, Inhabited

namespace Frame

/-- The global scope, with nothing declared. -/
def global : Frame := { name := globalName }

/-- Whether no function owns the scope. -/
def isGlobal (f : Frame) : Bool :=
  f.owner.isNone

/-- Declares a variable, unless it is declared already. -/
def declare (f : Frame) (name : String) : Frame :=
  if name ∈ f.declared then f else { f with declared := f.declared ++ [name] }

/-- A variable is declared once only. -/
theorem declare_of_mem {f : Frame} {v : String} (h : v ∈ f.declared) : f.declare v = f := by
  simp [declare, h]

/-- No variable is declared twice: a new one is put at the end only if it is not there. -/
theorem nodup_declare {f : Frame} (v : String) (h : f.declared.Nodup) :
    (f.declare v).declared.Nodup := by
  by_cases hv : v ∈ f.declared
  · simpa [declare, hv] using h
  · simpa [declare, hv, List.nodup_append] using ⟨h, fun a ha e => hv (e ▸ ha)⟩

/-- Declares some variables in order. -/
def declareAll (f : Frame) (names : List String) : Frame :=
  names.foldl declare f

/-- The last part of the scope's name: the function that opened it. -/
def localName (f : Frame) : String :=
  String.ofList ((f.name.toList.splitOn ':').getLastD [])

/-- The declared variables in one text. -/
def variablesText (f : Frame) : String :=
  if f.declared = [] then "NONE" else ", ".intercalate f.declared

/-- A line on the declared variables. -/
def summary (f : Frame) : String :=
  if f.isGlobal then
    "Variables declared in the global scope: " ++ f.variablesText
  else
    "Variables declared in the function " ++ f.localName ++ "(): " ++ f.variablesText

end Frame
end Scope
end ScopeTrack
