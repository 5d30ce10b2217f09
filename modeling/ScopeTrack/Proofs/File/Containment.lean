/-
# What a failure leaves behind

Instrumenting a file reads the input, makes all three texts, and only then writes
(`run_instrumentFile`).  So if the input cannot be read or parsed, nothing is
written.  After that only writes can fail, and the one that fails is the last that
is tried: the artifacts before it are written, those from it on are not.

The names of the artifacts differ from each other and from the name of the input
(`apart_contents`, `ArtifactPaths.ne_fileName?`).  Where there are no links a place
has one name, so the artifacts do not get in each other's way, and the input is never
touched, however its path and the directory are written.  A link from an artifact to
the input undoes this (`overwritten_through_link`): a write follows it.
-/

import ScopeTrack.Proofs.File.Disk
import ScopeTrack.Proofs.File.Naming
import ScopeTrack.Proofs.Patch.Output

namespace ScopeTrack

/-- The files to write have the names of artifacts. -/
theorem ArtifactPaths.exists_name_of_mem_contents {input directory : String} {output : Output}
    {file : String × String} (h : file ∈ (forInput input directory).contents output) :
    ∃ name ∈ names (fileKey input), Path.fileName? file.1 = some name.toList := by
  have hpath : file.1 ∈ (forInput input directory).toList := by
    rw [← map_fst_contents _ output]
    exact List.mem_map_of_mem h
  have hname : Path.fileName? file.1 ∈ (forInput input directory).toList.map Path.fileName? :=
    List.mem_map_of_mem hpath
  rw [map_fileName?, List.mem_map] at hname
  obtain ⟨name, hmem, hname⟩ := hname
  exact ⟨name, hmem, hname.symm⟩

/-- The artifacts of an input have different file names. -/
theorem ArtifactPaths.apart_contents (input directory : String) (output : Output) :
    ((forInput input directory).contents output).Pairwise fun file other =>
      Path.fileName? file.1 ≠ Path.fileName? other.1 := by
  have hnodup : ((forInput input directory).toList.map Path.fileName?).Nodup := by
    rw [map_fileName?]
    exact (nodup_names _).map fun name other h => String.toList_inj.1 (Option.some.inj h)
  rw [← map_fst_contents _ output, List.map_map] at hnodup
  exact List.pairwise_map.1 hnodup

/-- What is to be written follows from the output: where it goes is told by the input
and the directory alone. -/
theorem Task.prepare_eq (parser : Parser) (tableName input directory source : String) :
    prepare parser tableName input directory source =
      (instrument tableName input source (parser input source)).value.map fun output =>
        (ArtifactPaths.forInput input directory,
          (ArtifactPaths.forInput input directory).contents output) := by
  unfold prepare
  cases (instrument tableName input source (parser input source)).value <;> rfl

namespace FileSystem

variable {σ : Type}

/-- What is made of the text of an input and of its tree. -/
def output (system : FileSystem σ) (parser : Parser) (tableName input : String) (s : σ) :
    Except Error Output :=
  (Files.decode input (system.read s input)).bind fun source =>
    (instrument tableName input source (parser input source)).value

/-- Writing comes after all else. -/
theorem run_instrumentFile (system : FileSystem σ) (parser : Parser)
    (tableName input directory : String) (s : σ) :
    (instrumentFile system.files parser tableName input directory).run s =
      match system.output parser tableName input s with
      | .ok output =>
        (Task.writeAll system.files (ArtifactPaths.forInput input directory)
          ((ArtifactPaths.forInput input directory).contents output)).run s
      | .error e => (.error e, s) := by
  have hread : (system.files.readText input).run s =
      (Files.decode input (system.read s input), s) :=
    Prod.ext rfl (system.read_state input s)
  rw [instrumentFile, Task.run, StateT.run_bind, hread]
  unfold output
  cases Files.decode input (system.read s input) with
  | error e => rfl
  | ok source =>
    simp only [bind, Except.bind, Task.prepare_eq]
    cases (instrument tableName input source (parser input source)).value <;> rfl

/-- Nothing is made of an input that cannot be read. -/
theorem output_of_unreadable {system : FileSystem σ} {input : String} {s : σ} {e : Error}
    (h : Files.decode input (system.read s input) = .error e) (parser : Parser)
    (tableName : String) : system.output parser tableName input s = .error e := by
  rw [output, h]
  rfl

/-- Nothing is made of a text that the parser refuses, and its reasons are the error. -/
theorem output_of_refused {system : FileSystem σ} {parser : Parser} {input source : String}
    {s : σ} {reasons : List String}
    (hsource : Files.decode input (system.read s input) = .ok source)
    (h : parser input source = .error reasons) (tableName : String) :
    system.output parser tableName input s = .error (.parse input reasons) := by
  rw [output, hsource]
  change (instrument tableName input source (parser input source)).value = _
  rw [h]
  rfl

/-- Something is made of an input only if it is read and parsed, and then from the tree
that the parser gave for the text that was read. -/
theorem exists_of_output {system : FileSystem σ} {parser : Parser} {tableName input : String}
    {s : σ} {output : Output} (h : system.output parser tableName input s = .ok output) :
    ∃ source program, Files.decode input (system.read s input) = .ok source ∧
      parser input source = .ok program ∧ output.MadeFrom tableName source program := by
  cases hsource : Files.decode input (system.read s input) with
  | error e =>
    rw [output_of_unreadable hsource] at h
    cases h
  | ok source =>
    rw [FileSystem.output, hsource] at h
    obtain ⟨program, hparsed, made⟩ := instrument_eq_ok_iff.1 h
    exact ⟨source, program, rfl, hparsed, made⟩

/-- Where something is made of an input, its text was read. -/
theorem exists_read_of_decode {path source : String} {answer : Except FileFault ByteArray}
    (h : Files.decode path answer = .ok source) : ∃ bytes, answer = .ok bytes := by
  cases answer with
  | error fault => cases h
  | ok bytes => exact ⟨bytes, rfl⟩

section

variable {system : FileSystem σ} {parser : Parser} {tableName input directory : String}
  {s later : σ} {output : Output} {written rest : List (String × String)}

/-- Where something is made of an input, the artifacts are written up to the first
failure. -/
theorem exists_run_of_output (sound : system.Sound s)
    (h : system.output parser tableName input s = .ok output) :
    ∃ written rest later result,
      (ArtifactPaths.forInput input directory).contents output = written ++ rest ∧
      (instrumentFile system.files parser tableName input directory).run s = (result, later) ∧
      system.Reached s later written ∧
      system.Ends (ArtifactPaths.forInput input directory) later rest result := by
  rw [run_instrumentFile, h]
  exact system.run_writeAll _ (.refl sound) (ArtifactPaths.apart_contents input directory output)

/-- Without links, what is still to be written is untouched. -/
theorem Reached.untouched_rest (reached : system.Reached s later written)
    (noLinks : system.NoLinks s)
    (hcontents : (ArtifactPaths.forInput input directory).contents output = written ++ rest) :
    ∀ file ∈ rest, system.Untouched s later file.1 := by
  intro file hfile
  obtain ⟨name, -, hname⟩ := ArtifactPaths.exists_name_of_mem_contents
    (hcontents ▸ List.mem_append_right written hfile)
  have apart := ArtifactPaths.apart_contents input directory output
  rw [hcontents, List.pairwise_append] at apart
  exact reached.untouched noLinks hname fun other hother =>
    hname ▸ apart.2.2 other hother file hfile

/-- **The input is none of the files that are written**, where there are no links: no
artifact has its file name. -/
theorem Reached.untouched_input (reached : system.Reached s later written)
    (sound : system.Sound s) (noLinks : system.NoLinks s)
    (hcontents : (ArtifactPaths.forInput input directory).contents output = written ++ rest)
    {bytes : ByteArray} (hread : system.read s input = .ok bytes) :
    system.Untouched s later input ∧ system.read later input = system.read s input := by
  obtain ⟨place, name, hplace, hname⟩ := system.read_place sound hread
  have huntouched : system.Untouched s later input := by
    refine reached.untouched noLinks hname fun file hfile hsame => ?_
    obtain ⟨artifact, hmem, hfileName⟩ := ArtifactPaths.exists_name_of_mem_contents
      (hcontents ▸ List.mem_append_left rest hfile)
    exact ArtifactPaths.ne_fileName? hmem (hname.trans (hsame.symm.trans hfileName))
  exact ⟨huntouched, system.read_eq hplace ((reached.place? input).trans hplace)
    (huntouched place hplace)⟩

end

/-- **A failure does no harm.**  If the input cannot be read or parsed, or nothing
can be made of it, that is the result, and the file system stays as it is.  In every
case nothing changes but where the three artifacts go.

Otherwise the table, the list of scopes and the instrumented source are written in
this order, and writing ends with all of them written or at one that cannot be
written; what has changed belongs to those before it.  So a result is reported just if
all three are written, and what is written was made from the tree that the parser gave
for the text that was read.

The rest needs that there are no links (`NoLinks`), as a write follows them: then what
is written holds its text in the end, the artifact that failed and those after it are
untouched, and the input is not changed in any case. -/
theorem instrumentFile_contained (system : FileSystem σ) (parser : Parser)
    (tableName input directory : String) {s : σ} (sound : system.Sound s) :
    let paths := ArtifactPaths.forInput input directory
    ∃ result later,
      (instrumentFile system.files parser tableName input directory).run s = (result, later) ∧
      (∀ e, Files.decode input (system.read s input) = .error e →
        result = .error e ∧ later = s) ∧
      (∀ source reasons, Files.decode input (system.read s input) = .ok source →
        parser input source = .error reasons →
          result = .error (.parse input reasons) ∧ later = s) ∧
      (∀ e, system.output parser tableName input s = .error e → result = .error e ∧ later = s) ∧
      system.ChangedOnly s later [paths.table, paths.scopes, paths.instrumented] ∧
      (∀ output, system.output parser tableName input s = .ok output →
        ∃ written rest,
          [(paths.table, output.tableText), (paths.scopes, output.scopesText),
            (paths.instrumented, output.instrumented)] = written ++ rest ∧
          system.ChangedOnly s later (written.map Prod.fst) ∧
          system.Ends paths later rest result ∧
          (system.NoLinks s → system.Holds later written ∧
            ∀ file ∈ rest, system.Untouched s later file.1)) ∧
      (∀ reported, result = .ok reported → reported = paths ∧
        ∃ (source : String) (program : Node) (output : Output),
          Files.decode input (system.read s input) = .ok source ∧
          parser input source = .ok program ∧ output.MadeFrom tableName source program ∧
          (system.NoLinks s →
            system.read later paths.table = .ok output.tableText.toUTF8 ∧
            system.read later paths.scopes = .ok output.scopesText.toUTF8 ∧
            system.read later paths.instrumented = .ok output.instrumented.toUTF8)) ∧
      (system.NoLinks s →
        system.Untouched s later input ∧ system.read later input = system.read s input) := by
  intro paths
  cases houtput : system.output parser tableName input s with
  | error e =>
    -- Nothing is made of the input, so there is no other result and nothing is written.
    have hfails {e' : Error} (h : system.output parser tableName input s = .error e') :
        (.error e : Except Error ArtifactPaths) = .error e' := by
      rw [houtput] at h
      rw [Except.error.inj h]
    refine ⟨.error e, s, by rw [run_instrumentFile, houtput],
      fun e' h => ⟨hfails (output_of_unreadable h parser tableName), rfl⟩,
      fun source reasons hsource h => ⟨hfails (output_of_refused hsource h tableName), rfl⟩,
      fun e' h => ⟨hfails (houtput.trans h), rfl⟩, fun place h => absurd rfl h, ?_, ?_,
      fun _ => ⟨fun _ _ => rfl, rfl⟩⟩
    · rintro output ⟨⟩
    · rintro reported ⟨⟩
  | ok output =>
    -- The texts are there, and are written up to the first failure.
    obtain ⟨written, rest, later, result, hcontents, hrun, reached, ends⟩ :=
      exists_run_of_output sound houtput
    obtain ⟨source, program, hsource, hparsed, made⟩ := exists_of_output houtput
    obtain ⟨bytes, hread⟩ := exists_read_of_decode hsource
    refine ⟨result, later, hrun, ?_, ?_, ?_, ?_, ?_, ?_,
      fun noLinks => reached.untouched_input sound noLinks hcontents hread⟩
    · intro e h
      rw [output_of_unreadable h] at houtput
      cases houtput
    · intro source reasons hsource h
      rw [output_of_refused hsource h] at houtput
      cases houtput
    · rintro e ⟨⟩
    · intro place hchanged
      obtain ⟨path, hpath, hplace⟩ := reached.changed place hchanged
      refine ⟨path, ?_, hplace⟩
      change path ∈ paths.toList
      rw [← ArtifactPaths.map_fst_contents paths output, hcontents, List.map_append]
      exact List.mem_append_left _ hpath
    · rintro output' ⟨⟩
      exact ⟨written, rest, hcontents, reached.changed, ends,
        fun noLinks => ⟨reached.holds noLinks, reached.untouched_rest noLinks hcontents⟩⟩
    · rintro reported rfl
      -- A result is reported only if nothing is left to write.
      cases ends with
      | done =>
        rw [List.append_nil] at hcontents
        refine ⟨rfl, source, program, output, hsource, hparsed, made, fun noLinks => ?_⟩
        have hholds := reached.holds noLinks
        rw [← hcontents] at hholds
        exact ⟨hholds _ (.head _), hholds _ (.tail _ (.head _)),
          hholds _ (.tail _ (.tail _ (.head _)))⟩

/-- The input `in/x.js`, and a directory where one of its artifacts should go. -/
def halfWritable : Disk :=
  ((Disk.empty []).addFile "in/x.js" "x = 1;".toUTF8).addDirectory "out/scope_list_x.json"

/-- The tree of `x = 1;`, whatever the text. -/
def assignmentParser : Parser := fun _ _ =>
  .ok ⟨.other, .program, ⟨0, 6⟩, [
    ⟨.statement, .expressionStatement, ⟨0, 6⟩, [
      ⟨.value, .assignment, ⟨0, 5⟩, [
        ⟨.subject, .identifier "x", ⟨0, 1⟩, []⟩,
        ⟨.value, .other, ⟨4, 5⟩, []⟩]⟩]⟩]⟩

/-- In the one directory the table is written, the list of scopes cannot be, and the
instrumented source is not tried; in the other one all three artifacts are written,
each with its text.  The input is as it was both times. -/
theorem instrumentFile_contained_halfWritable :
    halfWritable.WellFormed ∧ Disk.fileSystem.NoLinks halfWritable ∧
      (∃ later, (instrumentFile Disk.files assignmentParser "state" "./in/x.js" "in/../out").run
          halfWritable = (.error (.unwritable "in/../out/scope_list_x.json" .isDirectory), later) ∧
        later.read "out/state_manager_x.json" = .ok "\x7b\"Program:x\":null\x7d".toUTF8 ∧
        later.read "out/final_x.js" = .error .notFound ∧
        Disk.fileSystem.ChangedOnly halfWritable later ["in/../out/state_manager_x.json",
          "in/../out/scope_list_x.json", "in/../out/final_x.js"] ∧
        later.read "./in/x.js" = .ok "x = 1;".toUTF8) ∧
      ∃ later, (instrumentFile Disk.files assignmentParser "state" "./in/x.js" "in").run
          halfWritable = (.ok (ArtifactPaths.forInput "./in/x.js" "in"), later) ∧
        later.read "in/state_manager_x.json" = .ok "\x7b\"Program:x\":null\x7d".toUTF8 ∧
        later.read "in/scope_list_x.json" =
          .ok "[\x7b\"name\":\"Program\",\"declared\":[]\x7d]".toUTF8 ∧
        later.read "in/final_x.js" =
          .ok ("/* autogen added */\nlet state = \x7b\"Program:x\":null\x7d;\n" ++
            "/* end autogen added */\n\nx = 1;\n" ++
            "state[\"Program:x\"] = x; /* autogen added */").toUTF8 ∧
        later.read "./in/x.js" = .ok "x = 1;".toUTF8 := by
  have wellFormed : halfWritable.WellFormed := Disk.wellFormed_of_entries (by decide +kernel)
  refine ⟨wellFormed, halfWritable.noLinks, ?_, ?_⟩
  · obtain ⟨result, later, hrun, -, -, -, hchanged, -, -, hinput⟩ :=
      instrumentFile_contained Disk.fileSystem assignmentParser "state" "./in/x.js" "in/../out"
        wellFormed
    obtain ⟨-, hinput⟩ := hinput halfWritable.noLinks
    have hresult : result = .error (.unwritable "in/../out/scope_list_x.json" .isDirectory) :=
      (congrArg Prod.fst hrun).symm.trans (by decide +kernel)
    have hlater : ((instrumentFile Disk.files assignmentParser "state" "./in/x.js" "in/../out").run
        halfWritable).2 = later := congrArg Prod.snd hrun
    subst hresult
    refine ⟨later, hrun, ?_, ?_, hchanged, hinput.trans (by decide +kernel)⟩
    · rw [← hlater]
      decide +kernel
    · rw [← hlater]
      decide +kernel
  · obtain ⟨result, later, hrun, -, -, -, -, -, -, hinput⟩ :=
      instrumentFile_contained Disk.fileSystem assignmentParser "state" "./in/x.js" "in" wellFormed
    obtain ⟨-, hinput⟩ := hinput halfWritable.noLinks
    have hresult : result = .ok (ArtifactPaths.forInput "./in/x.js" "in") :=
      (congrArg Prod.fst hrun).symm.trans (by decide +kernel)
    have hlater : ((instrumentFile Disk.files assignmentParser "state" "./in/x.js" "in").run
        halfWritable).2 = later := congrArg Prod.snd hrun
    subst hresult
    refine ⟨later, hrun, ?_, ?_, ?_, hinput.trans (by decide +kernel)⟩
    · rw [← hlater]
      decide +kernel
    · rw [← hlater]
      decide +kernel
    · rw [← hlater]
      decide +kernel

/-- The instrumented source of `in/x.js` is a link back to it. -/
def backLink (path : String) : String :=
  if path = "out/final_x.js" then "in/x.js" else path

/-- What is linked has a file name itself. -/
theorem backLink_named (path : String) (name : List Char)
    (h : Path.fileName? (backLink path) = some name) :
    ∃ own, Path.fileName? path = some own := by
  unfold backLink at h
  split at h
  · next hpath =>
    subst hpath
    exact ⟨"final_x.js".toList, by decide +kernel⟩
  · exact ⟨name, h⟩

/-- The input `in/x.js`, and a directory for its artifacts. -/
def writable : Disk :=
  ((Disk.empty []).addFile "in/x.js" "x = 1;".toUTF8).addDirectory "out"

/-- **A link undoes it**: where an artifact is a link to the input, all is reported to
be written, and the input is overwritten.  So `instrumentFile_contained` cannot do
without `NoLinks`. -/
theorem overwritten_through_link :
    let system := Disk.fileSystem.linked backLink backLink_named
    system.Sound writable ∧ ¬system.NoLinks writable ∧
      ((instrumentFile system.files assignmentParser "state" "in/x.js" "out").run writable).1 =
        .ok (ArtifactPaths.forInput "in/x.js" "out") ∧
      system.read writable "in/x.js" = .ok "x = 1;".toUTF8 ∧
      system.read ((instrumentFile system.files assignmentParser "state" "in/x.js" "out").run
        writable).2 "in/x.js" ≠ .ok "x = 1;".toUTF8 := by
  refine ⟨Disk.wellFormed_of_entries (by decide +kernel), fun noLinks => ?_, by decide +kernel,
    by decide +kernel, by decide +kernel⟩
  have hlink : writable.place? (backLink "out/final_x.js") = some ["x.js", "in"] := by
    decide +kernel
  have hinput : writable.place? (backLink "in/x.js") = some ["x.js", "in"] := by decide +kernel
  have hsame := noLinks "out/final_x.js" "in/x.js" _ "final_x.js".toList "x.js".toList hlink
    hinput (by decide +kernel) (by decide +kernel)
  exact absurd hsame (by decide)

end FileSystem
end ScopeTrack
