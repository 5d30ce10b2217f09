/-
# Instrumenting a source text

A source text and what the parser made of it give the analysis; the analysis
gives the tracking table and the scopes as JSON texts, and the instrumented
source.
-/

import ScopeTrack.Patch
import ScopeTrack.Track.Analysis

namespace ScopeTrack

/-- All that is made from one source text. -/
structure Output where
  analysis : Analysis
  tableText : String
  scopesText : String
  instrumented : String
deriving Repr

/-- The name of a source text that is in no file. -/
def unnamedSource : String := "<input>"

/-- The analysis of a source text; `file` is named in the error and in the log. -/
def analyze (tableName file source : String) : Parsed → Logged (Except Error Analysis)
  | .error reasons => ⟨.error (.parse file reasons), []⟩
  | .ok program =>
    match Analysis.ofProgram tableName source program with
    | .error e => ⟨.error e, []⟩
    | .ok (analysis, log) =>
      ⟨.ok analysis, log ++ [⟨.debug, file ++ ": " ++ analysis.sizes⟩]⟩

namespace Output

/-- What an analysis of the source text gives. -/
def ofAnalysis (tableName source : String) (analysis : Analysis) : Except Error Output := do
  let tableText := analysis.table.text
  let instrumented ← Patch.apply tableName tableText source analysis.sites
  return ⟨analysis, tableText, analysis.scopesJson.compact, instrumented⟩

end Output

/-- The source text instrumented. -/
def instrument (tableName file source : String) (parsed : Parsed) :
    Logged (Except Error Output) :=
  let result := analyze tableName file source parsed
  ⟨result.value.bind (Output.ofAnalysis tableName source), result.log⟩

end ScopeTrack
