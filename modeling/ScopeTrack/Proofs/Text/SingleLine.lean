/-
# Texts of a single line

Patches and the declaration of the table are put between lines, so none of them
may hold a line feed.  Joining texts of a single line without line feeds gives
one line again.  Quoting takes every control character out of a text
(`Json.le_of_mem_quote`), so that a table whose values are null is written on a
single line whatever its keys are (`Table.singleLine_text`).
-/

import ScopeTrack.Table.Name
import ScopeTrack.Table
import ScopeTrack.Text.Blank
import ScopeTrack.Text.Lines

namespace ScopeTrack
namespace Text

/-- A text without line feeds. -/
def SingleLine (text : String) : Prop :=
  '\n' ∉ text.toList

instance (text : String) : Decidable (SingleLine text) :=
  inferInstanceAs (Decidable ('\n' ∉ text.toList))

/-- Two texts of a single line, one after the other, are a single line. -/
theorem singleLine_append {a b : String} (ha : SingleLine a) (hb : SingleLine b) :
    SingleLine (a ++ b) := by
  unfold SingleLine
  rw [String.toList_append, List.mem_append]
  rintro (h | h)
  · exact ha h
  · exact hb h

/-- What has been checked for all characters of a text holds of each.  Fixed parts of a
text are checked by evaluation in this way. -/
theorem forall_mem_of_all {P : Char → Prop} [DecidablePred P] {text : String}
    (h : (text.toList.all fun c => P c) = true) : ∀ c ∈ text.toList, P c := by
  simpa using h

/-- A property of all characters goes through the parts of a text. -/
theorem forall_mem_append {P : Char → Prop} {a b : String} :
    (∀ c ∈ (a ++ b).toList, P c) ↔ (∀ c ∈ a.toList, P c) ∧ ∀ c ∈ b.toList, P c := by
  rw [String.toList_append, List.forall_mem_append]

/-- Joined texts hold the characters of the separator and of the parts only. -/
theorem forall_mem_intercalate {P : Char → Prop} {separator : String} {parts : List String}
    (hs : ∀ c ∈ separator.toList, P c) (hp : ∀ part ∈ parts, ∀ c ∈ part.toList, P c) :
    ∀ c ∈ (separator.intercalate parts).toList, P c := by
  induction parts with
  | nil => simp
  | cons part parts ih =>
      obtain ⟨hpart, hparts⟩ := List.forall_mem_cons.1 hp
      by_cases hnil : parts = []
      · rw [hnil, String.intercalate_singleton]
        exact hpart
      · rw [String.intercalate_cons_of_ne_nil hnil, forall_mem_append, forall_mem_append]
        exact ⟨⟨hpart, hs⟩, ih hparts⟩

theorem singleLine_iff {text : String} : SingleLine text ↔ ∀ c ∈ text.toList, c ≠ '\n' :=
  ⟨fun h _ hc => ne_of_mem_of_not_mem hc h, fun h hc => h _ hc rfl⟩

/-- Texts of a single line are joined to a single line, unless the separator breaks it. -/
theorem singleLine_intercalate {separator : String} {parts : List String}
    (hs : SingleLine separator) (hp : ∀ part ∈ parts, SingleLine part) :
    SingleLine (separator.intercalate parts) := by
  rw [singleLine_iff] at hs ⊢
  exact forall_mem_intercalate hs fun part hpart => singleLine_iff.1 (hp part hpart)

theorem mem_of_mem_trimStart {c : Char} {cs : List Char} (h : c ∈ trimStart cs) : c ∈ cs :=
  (List.dropWhile_sublist _).subset h

/-- A single line stays one when its ends are trimmed. -/
theorem singleLine_trim {text : String} (h : SingleLine text) : SingleLine (trim text) := by
  intro hmem
  rw [trim, String.toList_ofList, List.mem_reverse] at hmem
  have := List.mem_reverse.1 (mem_of_mem_trimStart hmem)
  exact h (mem_of_mem_trimStart this)

/-- The pieces of a list that is cut at a character do not hold it.  The induction
follows the cut: the head starts a piece of its own or joins the first one. -/
theorem not_mem_of_mem_splitOn (c : Char) (cs : List Char) : ∀ part ∈ cs.splitOn c, c ∉ part := by
  induction cs with
  | nil => simp
  | cons d cs ih =>
      rw [List.splitOn_cons_eq_if_modifyHead]
      cases hsplit : cs.splitOn c with
      | nil => exact absurd hsplit (List.splitOn_ne_nil c cs)
      | cons first rest =>
          rw [hsplit, List.forall_mem_cons] at ih
          by_cases hd : d = c
          · simpa [hd] using ih
          · simpa [hd, Ne.symm hd] using ih

/-- The lines of a text hold no line feed. -/
theorem singleLine_of_mem_lines {text line : String} (h : line ∈ lines text) :
    SingleLine line := by
  obtain ⟨part, hpart, rfl⟩ := List.mem_map.1 h
  unfold SingleLine
  rw [String.toList_ofList]
  exact not_mem_of_mem_splitOn '\n' _ part hpart

/-- Lines in two groups: the first text, a line feed, and the second text.  Neither
group may be empty, as there would be no line to put the line feed after. -/
theorem unlines_append {parts others : List String} (hp : parts ≠ []) (ho : others ≠ []) :
    unlines (parts ++ others) = unlines parts ++ "\n" ++ unlines others :=
  String.intercalate_append_of_ne_nil hp ho

end Text

namespace Json

/-- The escape of a character holds no control character.  The short escapes are a
backslash and another character, the long one ends with two hexadecimal digits, and a
character that stays as it is is none of those that are escaped. -/
theorem le_of_mem_escape {c d : Char} (h : d ∈ escape c) : 0x20 ≤ d.toNat := by
  have hhex : ∀ n < 16, 0x20 ≤ (hexDigit n).toNat := by decide
  unfold escape at h
  -- The seven characters with a short escape.
  iterate 7
    split at h
    · simp only [List.mem_cons, List.not_mem_nil, or_false] at h
      rcases h with rfl | rfl <;> decide
  split at h
  · simp only [List.mem_cons, List.not_mem_nil, or_false] at h
    rcases h with rfl | rfl | rfl | rfl | rfl | rfl
    · decide
    · decide
    · decide
    · decide
    · exact hhex _ (by omega)
    · exact hhex _ (by omega)
  · rw [List.mem_singleton] at h
    rw [h]
    omega

/-- A quoted text holds no control character. -/
theorem le_of_mem_quote {text : String} {c : Char} (h : c ∈ (quote text).toList) :
    0x20 ≤ c.toNat := by
  rw [quote, String.toList_ofList, List.cons_append, List.mem_cons, List.mem_append,
    List.mem_flatMap, List.mem_singleton] at h
  rcases h with rfl | ⟨d, -, hd⟩ | rfl
  · decide
  · exact le_of_mem_escape hd
  · decide

/-- A quoted text is a single line, because a line feed is a control character. -/
theorem singleLine_quote (text : String) : Text.SingleLine (quote text) := by
  intro h
  have := le_of_mem_quote h
  revert this
  decide

/-- A member whose value is null is written on a single line, whatever its name is. -/
theorem singleLine_of_mem_compactMembers {members : List (String × Json)}
    (null : ∀ member ∈ members, member.2 = .null) {part : String}
    (h : part ∈ compactMembers members) : Text.SingleLine part := by
  induction members with
  | nil => cases h
  | cons member members ih =>
      obtain ⟨name, value⟩ := member
      obtain rfl : value = .null := null _ List.mem_cons_self
      rw [compactMembers, List.mem_cons] at h
      rcases h with rfl | h
      · exact Text.singleLine_append (Text.singleLine_append (singleLine_quote name) (by decide))
          (by rw [compact]; decide)
      · exact ih (fun other ho => null other (List.mem_cons_of_mem _ ho)) h

end Json

/-- A table without values is written on a single line. -/
theorem Table.singleLine_text {t : Table} (null : ∀ entry ∈ t.entries, entry.2 = .null) :
    Text.SingleLine t.text := by
  rw [text, toJson, Json.compact]
  refine Text.singleLine_append (Text.singleLine_append (by decide) ?_) (by decide)
  exact Text.singleLine_intercalate (by decide)
    fun part hpart => Json.singleLine_of_mem_compactMembers null hpart

/-- The name of a table holds no line feed. -/
theorem TableName.singleLine_of_isValid {name : String} (h : isValid name = true) :
    Text.SingleLine name := by
  rw [isValid, Bool.and_eq_true] at h
  intro hmem
  cases hname : name.toList with
  | nil =>
      rw [hname] at hmem
      cases hmem
  | cons c cs =>
      rw [hname, isWellFormed, Bool.and_eq_true, List.all_eq_true] at h
      rw [hname, List.mem_cons] at hmem
      rcases hmem with rfl | hmem
      · exact absurd h.1.1 (by decide)
      · exact absurd (h.1.2 _ hmem) (by decide)

end ScopeTrack
