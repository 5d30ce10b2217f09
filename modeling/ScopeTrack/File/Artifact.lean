/-
# Artifacts

Three files are written for each input: the tracking table, the list of scopes,
and the instrumented source.  Their names come from the key of the input, which
is the stem of its file name without the mark `updated_` at the start.
-/

import ScopeTrack.File.Path
import ScopeTrack.Instrument

namespace ScopeTrack

/-- The mark at the start of the names of inputs. -/
def inputMark : String := "updated_"

/-- The stem without the mark, unless nothing else is left. -/
def unmarked (stem : List Char) : List Char :=
  match inputMark.toList.isPrefixOf stem, stem.drop inputMark.toList.length with
  | true, c :: cs => c :: cs
  | _, _ => stem

/-- The key of an input path; the empty text if it has no file name. -/
def fileKey (input : String) : String :=
  String.ofList (unmarked (((Path.fileName? input).map Path.stem).getD []))

/-- Where the artifacts of an input go. -/
structure ArtifactPaths where
  table : String
  scopes : String
  instrumented : String
deriving DecidableEq, Repr

namespace ArtifactPaths

/-- The artifacts of an input in a directory. -/
def forInput (input directory : String) : ArtifactPaths :=
  let key := fileKey input
  { table := Path.join directory ("state_manager_" ++ key ++ ".json")
    scopes := Path.join directory ("scope_list_" ++ key ++ ".json")
    instrumented := Path.join directory ("final_" ++ key ++ ".js") }

/-- The paths in the order in which they are written. -/
def toList (paths : ArtifactPaths) : List String :=
  [paths.table, paths.scopes, paths.instrumented]

/-- The files to write, in order, with their texts. -/
def contents (paths : ArtifactPaths) (output : Output) : List (String × String) :=
  [(paths.table, output.tableText), (paths.scopes, output.scopesText),
    (paths.instrumented, output.instrumented)]

/-- The files that are written go to the paths of the artifacts, in this order. -/
theorem map_fst_contents (paths : ArtifactPaths) (output : Output) :
    (paths.contents output).map Prod.fst = paths.toList :=
  rfl

end ArtifactPaths
end ScopeTrack
