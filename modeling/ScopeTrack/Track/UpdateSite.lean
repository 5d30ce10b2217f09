/-
# Update sites

Each place where a variable changes gets one line that copies the variable's
value into the tracking table.  The line goes after the line on which the
changing construct ends.  Where the variable is not known, a comment takes the
place of the statement.

| target | key | patch |
| --- | --- | --- |
| variable `x` in scope `S` | `S:x` | `TABLE["S:x"] = x; /* autogen added */` |
| unresolved | none | `/* autogen skipped: unresolved mutation target (LABEL) */` |
-/

import ScopeTrack.Source.Location
import ScopeTrack.Table

namespace ScopeTrack

/-- The comment that marks generated code. -/
def autogenMark : String := "/* autogen added */"

/-- A patch for the line of a location. -/
structure UpdateSite where
  location : Location
  /-- The place in the order of collection; it orders sites of equal location. -/
  sequence : Nat
  /-- The key that the patch writes, if the target is known. -/
  key : Option String
  patch : String
deriving DecidableEq, Repr, Inhabited

namespace UpdateSite

/-- The statement that copies a variable into the table under a key. -/
def writeBack (table key name : String) : String :=
  table ++ "[" ++ Json.quote key ++ "] = " ++ name ++ "; " ++ autogenMark

/-- The comment for a target that is not known. -/
def skipped (label : String) : String :=
  "/* autogen skipped: unresolved mutation target (" ++ label ++ ") */"

/-- The site of a change of `target` in `scope`. -/
def make (table : String) (location : Location) (sequence : Nat) (scope : String) :
    Target → UpdateSite
  | .named name =>
    let key := Table.key scope name
    ⟨location, sequence, some key, writeBack table key name⟩
  | .unresolved label => ⟨location, sequence, none, skipped label⟩

/-- The sites with one more for a change of `target` in `scope`. -/
def record (table : String) (sites : List UpdateSite) (location : Location) (scope : String)
    (target : Target) : List UpdateSite :=
  sites ++ [make table location sites.length scope target]

/-- A site as a JSON object. -/
def toJson (site : UpdateSite) : Json :=
  .obj [("loc", .str site.location.key), ("sequence", .ofNat site.sequence),
    ("key", .ofText? site.key), ("patch", .str site.patch)]

/-- A key in JSON: a text, or null for none. -/
def keyOfJson? : Json → Option (Option String)
  | .str key => some (some key)
  | .null => some none
  | _ => none

/-- A site from the JSON values of its fields. -/
def ofFields? (loc sequence key patch : Json) : Option UpdateSite := do
  let location ← loc.text?.bind Location.ofKey?
  let sequence ← sequence.nat?
  let key ← keyOfJson? key
  let patch ← patch.text?
  return ⟨location, sequence, key, patch⟩

/-- The site that an object holds, or a list of its four fields in order.  In an object
a field that stands twice is refused, also if the values are equal.  Other members are
ignored, and a missing key is no key. -/
def ofJson? : Json → Option UpdateSite
  | .arr [loc, sequence, key, patch] => ofFields? loc sequence key patch
  | .arr _ => none
  | json =>
    match json.named "loc", json.named "sequence", json.named "key", json.named "patch" with
    | [loc], [sequence], [key], [patch] => ofFields? loc sequence key patch
    | [loc], [sequence], [], [patch] => ofFields? loc sequence .null patch
    | _, _, _, _ => none

/-- Sites in the order in which they were collected for each location. -/
def precedes (a b : UpdateSite) : Bool :=
  a.location < b.location || (a.location = b.location && a.sequence ≤ b.sequence)

end UpdateSite
end ScopeTrack
