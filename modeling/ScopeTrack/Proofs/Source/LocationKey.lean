/-
# Keys of locations

A key of a location is its line and its column, each spelled as a numeral, with
a dot between them (`Location.IsKey`).  A numeral holds no dot, so the first dot
of a key is its only one, and the reader, which cuts at the first dot, takes just
the keys (`Location.ofKey_eq_ok_iff`).

| key | location |
| --- | --- |
| `12.10` | line 12, column 10 |
| `+12.010` | the same |
| `12`, `1.2.3`, `.5`, `++1.2`, `4294967296.0` | refused |

Of all keys of a location one is plain, with no plus sign and no zero that could
be left out: the one that is written (`Location.isPlainKey_iff`).  So writing and
reading undo each other, and update sites survive being written as JSON
(`Location.ofKey_inverts_key`).
-/

import Mathlib.Data.List.TakeDrop
import ScopeTrack.Error
import ScopeTrack.Proofs.Text.Numeral
import ScopeTrack.Track.UpdateSite

namespace ScopeTrack

namespace Location

/-- A line and a column in numerals of some kind, with a dot between them. -/
def SpelledBy (numeral : List Char → Nat → Prop) (key : String) (l : Location) : Prop :=
  ∃ line column, key.toList = line ++ '.' :: column ∧ numeral line l.line.toNat ∧
    numeral column l.column.toNat

/-- A key of a location. -/
def IsKey : String → Location → Prop :=
  SpelledBy Text.Spells

/-- A key without plus signs and without zeros in front. -/
def IsPlainKey : String → Location → Prop :=
  SpelledBy fun text value => Text.Spells text value ∧ Text.Plain text

/-- The key that is written for the location that a key stands for. -/
def reprint (key : String) : Except Error String :=
  (ofKey key).map Location.key

/-! ## Reading -/

/-- A numeral has no dot in it, so the first dot of a key is the one between its
numerals. -/
theorem dot_not_mem_of_spells {text : List Char} {value : Nat} (h : Text.Spells text value) :
    '.' ∉ text := by
  obtain ⟨digits, ⟨-, hdigits⟩, htext, -⟩ := h
  have hdot : '.' ∉ digits := fun hmem => absurd (hdigits '.' hmem) (by decide)
  rcases htext with rfl | rfl
  · exact hdot
  · exact fun hmem => hdot (List.mem_of_ne_of_mem (by decide) hmem)

/-- A text is cut at its first dot. -/
theorem span_dot {line column : List Char} (h : '.' ∉ line) :
    (line ++ '.' :: column).span (· != '.') = (line, '.' :: column) := by
  have hline : ∀ c ∈ line, (c != '.') = true := by
    intro c hc
    rw [bne_iff_ne]
    rintro rfl
    exact h hc
  rw [List.span_eq_takeWhile_dropWhile, List.takeWhile_append_of_pos hline,
    List.dropWhile_append_of_pos hline]
  simp

/-- **The reader takes just the keys of locations.**  The key is cut at its first dot.
What is left may hold another one, but no numeral does, so such a text is no key. -/
theorem ofKey?_eq_some_iff {key : String} {l : Location} : ofKey? key = some l ↔ IsKey key l := by
  constructor
  · intro h
    unfold ofKey? at h
    split at h
    · next line column hspan =>
        obtain ⟨a, ha, h⟩ := Option.bind_eq_some_iff.1 h
        obtain ⟨b, hb, h⟩ := Option.bind_eq_some_iff.1 h
        obtain rfl := Option.some.inj h
        refine ⟨line, column, ?_, Text.word32?_eq_some_iff.1 ha, Text.word32?_eq_some_iff.1 hb⟩
        rw [List.span_eq_takeWhile_dropWhile, Prod.mk.injEq] at hspan
        rw [← hspan.1, ← hspan.2, List.takeWhile_append_dropWhile]
    · cases h
  · rintro ⟨line, column, hkey, hline, hcolumn⟩
    -- The first dot is the one between the numerals, as the first numeral has none.
    rw [ofKey?, hkey, span_dot (dot_not_mem_of_spells hline)]
    simp only [Text.word32?_eq_some_iff.2 hline, Text.word32?_eq_some_iff.2 hcolumn]
    rfl

/-- **The reader takes just the keys.**  -/
theorem ofKey_eq_ok_iff {key : String} {l : Location} : ofKey key = .ok l ↔ IsKey key l := by
  rw [← ofKey?_eq_some_iff, ofKey]
  cases ofKey? key <;> simp

/-- What is refused is named in the error. -/
theorem ofKey_eq_error_iff {key : String} :
    ofKey key = .error (.invalidLocation key) ↔ ∀ l, ¬IsKey key l := by
  simp only [← ofKey?_eq_some_iff, ofKey]
  cases ofKey? key <;> simp

/-! ## Writing -/

/-- The key of a location: the decimal digits of its line, a dot, and those of its
column. -/
theorem toList_key (l : Location) :
    l.key.toList =
      Nat.toDigits 10 l.line.toNat ++ '.' :: Nat.toDigits 10 l.column.toNat := by
  simp [key]

/-- **The key that is written is the only plain one.**  -/
theorem isPlainKey_iff {key : String} {l : Location} : IsPlainKey key l ↔ key = l.key := by
  constructor
  · rintro ⟨line, column, hkey, ⟨hline, hplain⟩, ⟨hcolumn, hplain'⟩⟩
    apply String.toList_inj.1
    rw [hkey, toList_key, Text.eq_toDigits_of_plain hplain hline,
      Text.eq_toDigits_of_plain hplain' hcolumn]
  · rintro rfl
    exact ⟨_, _, toList_key l, ⟨Text.spells_toDigits _, Text.plain_toDigits _⟩,
      Text.spells_toDigits _, Text.plain_toDigits _⟩

theorem isKey_key (l : Location) : IsKey l.key l :=
  ⟨_, _, toList_key l, Text.spells_toDigits _, Text.spells_toDigits _⟩

/-- **Writing a key anew twice is writing it anew once.**  What is written is the key of
the location that was read, and that is read as the same location. -/
theorem reprint_reprint (key : String) : (reprint key).bind reprint = reprint key := by
  unfold reprint
  cases hread : ofKey key with
  | error e => rfl
  | ok l =>
      have hagain : ofKey l.key = .ok l := ofKey_eq_ok_iff.2 (isKey_key l)
      simp only [Except.map, Except.bind, hagain]

end Location

/-- A site is what its JSON object holds. -/
theorem UpdateSite.ofJson?_toJson (site : UpdateSite) : ofJson? site.toJson = some site := by
  have hlocation : Location.ofKey? site.location.key = some site.location :=
    Location.ofKey?_eq_some_iff.2 (Location.isKey_key site.location)
  have hkey : keyOfJson? (.ofText? site.key) = some site.key := by
    cases site.key <;> rfl
  simp [ofJson?, toJson, Json.named, ofFields?, Json.text?, hlocation, Json.ofNat,
    Json.nat?, hkey]

/-- **Reading keys and writing them undo each other.**  A text is read just if it
is the key of a location, as that location, and otherwise refused with an error
that names it.  The key that is written for a location is read as that location
again and is the only plain one, so writing a key anew changes nothing when it is
done again.  Update sites hold their location as its key, and are read back. -/
theorem Location.ofKey_inverts_key (key : String) (l : Location) (site : UpdateSite) :
    (ofKey key = .ok l ↔ IsKey key l) ∧
      (ofKey key = .error (.invalidLocation key) ↔ ∀ l, ¬IsKey key l) ∧
      ofKey l.key = .ok l ∧
      (IsPlainKey key l ↔ key = l.key) ∧
      (reprint key).bind reprint = reprint key ∧
      site.toJson.get? "loc" = some (.str site.location.key) ∧
      UpdateSite.ofJson? site.toJson = some site :=
  ⟨ofKey_eq_ok_iff, ofKey_eq_error_iff, ofKey_eq_ok_iff.2 (isKey_key l), isPlainKey_iff,
    reprint_reprint key, rfl, site.ofJson?_toJson⟩

end ScopeTrack
