/-
# What an output is made of

All parts of an output come from one analysis: the texts of the table and of the
scopes are those of the analysis, and the instrumented source is the source text
patched at the sites of the analysis (`Output.MadeFrom`).  The analysis in turn is
that of the program that the parser made of the source text.

Instrumenting succeeds with an output just if the source text was parsed and the
output is made from the program (`instrument_eq_ok_iff`).  So whatever is proved of
the outputs of instrumenting can be said of the analysis of the program, and an
output whose analysis or texts come from elsewhere is none.
-/

import ScopeTrack.Instrument

namespace ScopeTrack

/-- The output is what a program and its source text give: the analysis is that of
the program, the two JSON texts are those of its table and its scopes, and the
instrumented source has the table in front and the patches of its sites. -/
structure Output.MadeFrom (tableName source : String) (program : Node) (out : Output) : Prop where
  analysis : ∃ log, Analysis.ofProgram tableName source program = .ok (out.analysis, log)
  tableText : out.tableText = out.analysis.table.text
  scopesText : out.scopesText = out.analysis.scopesJson.compact
  instrumented : Patch.apply tableName out.tableText source out.analysis.sites =
    .ok out.instrumented

/-- An analysis gives an output just if its sites can be patched: the output is then
the analysis, its texts and the patched source. -/
theorem Output.ofAnalysis_eq_ok_iff {tableName source : String} {analysis : Analysis}
    {out : Output} :
    ofAnalysis tableName source analysis = .ok out ↔
      out.analysis = analysis ∧ out.tableText = analysis.table.text ∧
        out.scopesText = analysis.scopesJson.compact ∧
        Patch.apply tableName analysis.table.text source analysis.sites =
          .ok out.instrumented := by
  obtain ⟨analysis', tableText, scopesText, instrumented⟩ := out
  unfold ofAnalysis
  cases happly : Patch.apply tableName analysis.table.text source analysis.sites with
  | error e => simp [happly, bind, Except.bind]
  | ok text => simp [happly, bind, Except.bind, pure, Except.pure, eq_comm]

/-- **Instrumenting gives what is made from the program.**  It succeeds with an
output just if the parser accepted the source text and the output is made from the
program; the name of the file does not matter. -/
theorem instrument_eq_ok_iff {tableName file source : String} {parsed : Parsed} {out : Output} :
    (instrument tableName file source parsed).value = .ok out ↔
      ∃ program, parsed = .ok program ∧ out.MadeFrom tableName source program := by
  cases parsed with
  | error reasons => simp [instrument, analyze, Except.bind]
  | ok program =>
    cases hanalysis : Analysis.ofProgram tableName source program with
    | error e =>
      simp only [instrument, analyze, hanalysis, Except.bind]
      constructor
      · intro h
        cases h
      · rintro ⟨program', ⟨⟩, ⟨log, h⟩, -, -, -⟩
        rw [hanalysis] at h
        cases h
    | ok result =>
      obtain ⟨analysis, log⟩ := result
      simp only [instrument, analyze, hanalysis, Except.bind]
      rw [Output.ofAnalysis_eq_ok_iff]
      constructor
      · rintro ⟨rfl, htable, hscopes, happly⟩
        exact ⟨program, rfl, ⟨log, hanalysis⟩, htable, hscopes, htable ▸ happly⟩
      · rintro ⟨program', ⟨⟩, ⟨log', h⟩, htable, hscopes, happly⟩
        rw [hanalysis] at h
        obtain ⟨rfl, -⟩ := Prod.ext_iff.1 (Except.ok.inj h)
        exact ⟨rfl, htable, hscopes, htable ▸ happly⟩

end ScopeTrack
