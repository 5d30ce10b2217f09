/-
# Patching a source text

The patch of each site becomes a line of its own, right after the line of the
site's location; sites of one line come in the order of their columns, and sites
of one location in the order of their sequence.  In front stand a header that
declares the tracking table, and an empty line.

A site on a line that the text does not have refuses the whole text.
-/

import ScopeTrack.Error
import ScopeTrack.Text.Blank
import ScopeTrack.Text.Lines
import ScopeTrack.Track.UpdateSite

namespace ScopeTrack
namespace Patch

/-- Whether a text of so many lines has the line of the site. -/
def inRange (lineCount : Nat) (site : UpdateSite) : Bool :=
  1 ≤ site.location.line.toNat && site.location.line.toNat ≤ lineCount

/-- The sites from the last to the first; sites that nothing tells apart keep
their order. -/
def descending (sites : List UpdateSite) : List UpdateSite :=
  sites.mergeSort fun a b => b.precedes a

/-- Puts the patches between the lines.  The lines come from the last, which has
the given number, to the first, and the sites in descending order; what is
finished is in order. -/
def weave (number : Nat) : List String → List UpdateSite → List String → List String
  | [], _, finished => finished
  | line :: earlier, pending, finished =>
    let (here, pending) := pending.span fun site => site.location.line.toNat == number
    weave (number - 1) earlier pending
      (line :: ((here.map UpdateSite.patch).reverse ++ finished))

/-- The lines with the patch of each site after the line of its location. -/
def spliceLines (lines : List String) (sites : List UpdateSite) : Except Error (List String) :=
  match sites.find? fun site => !inRange lines.length site with
  | some site => .error (.patchOutOfRange site.location lines.length)
  | none => .ok (weave lines.length lines.reverse (descending sites) [])

/-- The text of the lines with the patches in their places. -/
def splice (lines : List String) (sites : List UpdateSite) : Except Error String :=
  (spliceLines lines sites).map Text.unlines

/-- The comment that ends the header. -/
def headerEnd : String := "/* end autogen added */"

/-- The number of lines in front of the body, the empty line among them. -/
def headerLines : Nat := 4

/-- The declaration of the table, between two comments. -/
def header (table tableText : String) : String :=
  Text.unlines [autogenMark, "let " ++ table ++ " = " ++ Text.trim tableText ++ ";", headerEnd]

/-- The source text with the header in front and the patches in their places. -/
def apply (table tableText source : String) (sites : List UpdateSite) : Except Error String := do
  let body ← splice (Text.lines source) sites
  return header table tableText ++ "\n\n" ++ body

end Patch
end ScopeTrack
