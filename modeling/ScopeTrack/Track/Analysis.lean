/-
# Analyses

The result of one traversal of a program: the tracking table, the scopes in the
order in which they were closed, the update sites and the diagnostics in the
order in which they were found, and the number of lines of the source text.
-/

import ScopeTrack.Text.Width
import ScopeTrack.Track.Tracker

namespace ScopeTrack

/-- What a traversal collects. -/
structure Analysis where
  table : Table
  /-- The closed scopes; the global one comes last. -/
  scopes : List Scope.Frame
  sites : List UpdateSite
  diagnostics : List Diagnostic
  lineCount : Nat
deriving Repr

namespace Analysis

/-- What a tracker has collected. -/
def ofTracker (t : Tracker) : Analysis :=
  ⟨t.table, t.chain.archive, t.sites, t.diagnostics, t.lines.lineCount⟩

/-- The analysis of a program, with its log. -/
def ofProgram (tableName source : String) (program : Node) :
    Except Error (Analysis × List Record) := do
  let t ← (Tracker.start source tableName).visit program
  return (ofTracker t, t.log)

/-- A line on the sizes of an analysis. -/
def sizes (a : Analysis) : String :=
  toString a.table.size ++ " tracked variables, " ++ toString a.scopes.length ++ " scopes, " ++
    toString a.sites.length ++ " update sites"

/-! ## Reports -/

/-- The names of a scope as a JSON object. -/
def frameJson (frame : Scope.Frame) : Json :=
  .obj [("name", .str frame.name), ("declared", .ofTexts frame.declared)]

/-- The scopes as a JSON array. -/
def scopesJson (a : Analysis) : Json :=
  .arr (a.scopes.map frameJson)

/-- The analysis as a JSON object. -/
def toJson (a : Analysis) : Json :=
  .obj [("state_table", a.table.toJson), ("scopes", a.scopesJson),
    ("update_sites", .arr (a.sites.map UpdateSite.toJson)),
    ("diagnostics", .arr (a.diagnostics.map Diagnostic.toJson)),
    ("line_count", .ofNat a.lineCount)]

/-- Lines that each start with two spaces. -/
def indented (lines : List String) : String :=
  String.join (lines.map fun line => "  " ++ line ++ "\n")

/-- The analysis as plain text; the diagnostics are left out if there are none. -/
def report (a : Analysis) : String :=
  "Scopes:\n" ++
    indented (a.scopes.map fun frame => Text.padRight 30 frame.name ++ " " ++ frame.summary) ++
    "\nTracking table:\n" ++ indented a.table.keys ++
    "\nUpdate sites:\n" ++
    indented (a.sites.map fun site => Text.padRight 8 site.location.key ++ " " ++ site.patch) ++
    if a.diagnostics = [] then ""
    else "\nDiagnostics:\n" ++ indented (a.diagnostics.map Diagnostic.text)

end Analysis
end ScopeTrack
