/-
# The table as a literal

The text of a table stands in the header of an instrumented source, and each
patch names a key of the table in brackets.  Header and patches are written
apart, so they agree only as far as both quote a key in the same way:

| where | text |
| --- | --- |
| header | `let TABLE = ` table text `;` |
| table text | `QUOTED:null` for each key, between braces, with commas |
| patch | `TABLE[QUOTED] = NAME; ` mark |

Whatever the keys are, the text of the table is read as the object with these
keys in their order, and a quoted key is read as the key; so a patch writes the
property that the header declares for its key, and no other
(`text_is_literal`).
-/

import Mathlib.Data.List.Basic
import ScopeTrack.Patch
import ScopeTrack.Proofs.Json.RoundTrip
import ScopeTrack.Proofs.Table.History

namespace ScopeTrack

/-- A text that neither starts nor ends with a blank is not trimmed. -/
theorem Text.trim_eq_self {text : String} {first last : Char} {middle : List Char}
    (hfirst : isBlank first = false) (hlast : isBlank last = false)
    (h : text.toList = first :: (middle ++ [last])) : trim text = text := by
  have hstart : trimStart text.toList = text.toList := by
    rw [h, trimStart, List.dropWhile_cons_of_neg (by simp [hfirst])]
  have hend : trimStart text.toList.reverse = text.toList.reverse := by
    rw [h, trimStart, List.reverse_cons, List.reverse_append, List.reverse_singleton,
      List.singleton_append, List.cons_append, List.dropWhile_cons_of_neg (by simp [hlast])]
  rw [trim, hstart, hend, List.reverse_reverse, String.ofList_toList]

namespace Table

section Null

variable {t : Table} (null : ∀ entry ∈ t.entries, entry.2 = .null)
include null

/-- A table without values is told by its keys: its entries are the keys in their order,
each with null.  All that follows speaks of the keys for that reason. -/
theorem entries_eq_of_null : t.entries = t.keys.map fun key => (key, .null) := by
  have hentry : ∀ entry ∈ t.entries, (entry.1, Json.null) = entry :=
    fun entry h => Prod.ext rfl (null entry h).symm
  rw [keys, List.map_map]
  exact ((List.map_congr_left hentry).trans (List.map_id _)).symm

/-- The object of such a table is nested one level deep, so every reader that takes
objects at all takes it. -/
theorem fits_toJson (limit : Nat) : t.toJson.Fits (limit + 1) := by
  refine .obj fun entry hentry => ?_
  rw [null entry hentry]
  exact .null

/-- **The text spelled out**: the quoted keys, each with a colon and `null`, between
braces and with commas in between.  All but the quoted keys is fixed. -/
theorem text_eq : t.text =
    "\x7b" ++ ",".intercalate (t.keys.map fun key => Json.quote key ++ ":null") ++ "\x7d" := by
  have hnull : ∀ key : String, Json.quote key ++ ":" ++ "null" = Json.quote key ++ ":null" := by
    intro key
    rw [String.append_assoc]
    congr 1
  rw [text, toJson, entries_eq_of_null null, Json.compact, Json.compactMembers_eq, List.map_map]
  simp only [Function.comp_def, Json.compact, hnull]

/-- **The text taken apart by the lexer.**  A key becomes one text token whatever
characters it holds, because quoting leaves no quote inside it that could end the token
early. -/
theorem tokens?_text : Json.tokens? t.text =
    some (.openObject :: ([.comma].intercalate
      (t.keys.map fun key => [.text key, .colon, .scalar .null]) ++ [.closeObject])) := by
  rw [text, Json.tokens?_of_lexes (Json.lexes_compact (fits_toJson null 0)), toJson, Json.tokens,
    Json.tokensMembers_eq, entries_eq_of_null null, List.map_map]
  simp only [Function.comp_def, Json.tokens]

/-- **The text read back** is the object with the keys in their order.  No key is lost
or moved, although the keys may hold quotes, colons or braces. -/
theorem parse?_text (limit : Nat) : Json.parse? (limit + 1) t.text =
    some (.obj (t.keys.map fun key => (key, .null))) := by
  rw [text, Json.parse?_compact (fits_toJson null limit), toJson, ← entries_eq_of_null null]

/-- Trimming, as the header does it, takes nothing away: the text starts and ends with a
brace. -/
theorem trim_text : Text.trim t.text = t.text := by
  have hfirst : Text.isBlank '\x7b' = false := by decide
  have hlast : Text.isBlank '\x7d' = false := by decide
  obtain ⟨middle, hmiddle⟩ : ∃ middle, t.text.toList = '\x7b' :: (middle ++ ['\x7d']) := by
    rw [text_eq null, String.toList_append, String.toList_append]
    exact ⟨_, rfl⟩
  exact Text.trim_eq_self hfirst hlast hmiddle

end Null

/-- **The text of a table is a literal with the keys of the table, on which header
and patches agree.**  After any calls, the text of the table

* holds no control character;
* is read as the object with the keys in the order of registration, each null;
* consists of the quoted keys, each with the value null;
* stands in the header as it is.

In the patch for a key the brackets hold the quoted key, which is read as the key.
It spells a key of the table just if the key is one, and it spells no other. -/
theorem text_is_literal (history : List (Scope.Frame × Call)) :
    let t := empty.after history
    t.keys = (registered history).eraseDups ∧
      (∀ c ∈ t.text.toList, 0x20 ≤ c.toNat) ∧
      (∀ limit, Json.parse? (limit + 1) t.text =
        some (.obj (t.keys.map fun key => (key, .null)))) ∧
      Json.tokens? t.text =
        some (.openObject :: ([.comma].intercalate
          (t.keys.map fun key => [.text key, .colon, .scalar .null]) ++ [.closeObject])) ∧
      t.text = "\x7b" ++ ",".intercalate (t.keys.map fun key => Json.quote key ++ ":null")
        ++ "\x7d" ∧
      ∀ tableName,
        Patch.header tableName t.text = Text.unlines
            [autogenMark, "let " ++ tableName ++ " = " ++ t.text ++ ";", Patch.headerEnd] ∧
          ∀ key name,
            UpdateSite.writeBack tableName key name =
                tableName ++ "[" ++ Json.quote key ++ "] = " ++ name ++ "; " ++ autogenMark ∧
              Json.tokens? (Json.quote key) = some [.text key] ∧
              (∀ limit, Json.parse? limit (Json.quote key) = some (.str key)) ∧
              (Json.quote key ∈ t.keys.map Json.quote ↔ key ∈ t.keys) ∧
              ∀ other, Json.quote key = Json.quote other ↔ key = other := by
  intro t
  have null : ∀ entry ∈ t.entries, entry.2 = .null := null_of_mem_after history
  have hkeys : t.keys = (registered history).eraseDups := keys_after_empty history
  clear_value t
  refine ⟨hkeys, Json.le_of_mem_compact (fits_toJson null 0), parse?_text null,
    tokens?_text null, text_eq null, fun tableName => ⟨?_, fun key name =>
      ⟨rfl, ?_, fun limit => ?_, ?_, fun other => ?_⟩⟩⟩
  · rw [Patch.header, trim_text null]
  · exact Json.tokens?_of_lexes (Json.lexes_quote key)
  · exact Json.parse?_quote limit key
  · exact List.mem_map_of_injective Json.quote_injective
  · exact Json.quote_injective.eq_iff

end Table
end ScopeTrack
