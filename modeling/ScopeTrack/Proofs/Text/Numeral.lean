/-
# Which texts are numerals

A text spells a number if it is a row of decimal digits, with one plus sign in
front or none, and the digits have that value (`Spells`).  The reader of words
takes just the texts that spell a number below `2 ^ 32`, and gives that number
(`word32?_eq_some_iff`).

A number has many spellings, but one without a plus sign and without a zero in
front (`Plain`): the one in which numbers are written (`eq_toDigits_of_plain`).
-/

import Mathlib.Data.List.Induction
import ScopeTrack.Text.Numeral

namespace ScopeTrack
namespace Text

/-- A row of decimal digits. -/
def IsDigits (cs : List Char) : Prop :=
  cs ≠ [] ∧ ∀ c ∈ cs, c.isDigit = true

/-- A text spells a number: digits of that value, after at most one plus sign. -/
def Spells (text : List Char) (value : Nat) : Prop :=
  ∃ digits, IsDigits digits ∧ (text = digits ∨ text = '+' :: digits) ∧
    Nat.ofDigitChars 10 digits 0 = value

/-- A text with no plus sign in front, and no zero that could be left out. -/
def Plain (text : List Char) : Prop :=
  text.head? ≠ some '+' ∧ (text.head? = some '0' → text = ['0'])

theorem digitsValue_eq (start : Nat) (cs : List Char) :
    digitsValue start cs = Nat.ofDigitChars 10 cs start :=
  Nat.ofDigitChars_eq_foldl.symm

/-! ## Reading -/

theorem eq_unsigned_or (text : List Char) :
    text = unsigned text ∨ text = '+' :: unsigned text := by
  unfold unsigned
  split
  · exact .inr rfl
  · exact .inl rfl

/-- Digits have no plus sign to take off. -/
theorem unsigned_of_isDigits {digits : List Char} (h : IsDigits digits) :
    unsigned digits = digits := by
  unfold unsigned
  split
  · next rest => exact absurd (h.2 '+' List.mem_cons_self) (by decide)
  · rfl

/-- A text spells a number just if what follows its plus sign is the digits of
that number. -/
theorem spells_iff {text : List Char} {value : Nat} :
    Spells text value ↔
      IsDigits (unsigned text) ∧ Nat.ofDigitChars 10 (unsigned text) 0 = value := by
  constructor
  · rintro ⟨digits, hdigits, rfl | rfl, hvalue⟩
    · rw [unsigned_of_isDigits hdigits]
      exact ⟨hdigits, hvalue⟩
    · exact ⟨hdigits, hvalue⟩
  · rintro ⟨hdigits, hvalue⟩
    exact ⟨unsigned text, hdigits, eq_unsigned_or text, hvalue⟩

/-- **The reader takes just the numerals of words.**  -/
theorem word32?_eq_some_iff {text : List Char} {word : UInt32} :
    word32? text = some word ↔ Spells text word.toNat := by
  have hall : (unsigned text).all Char.isDigit = true ↔ ∀ c ∈ unsigned text, c.isDigit = true :=
    List.all_eq_true
  rw [spells_iff, word32?, digitsValue_eq]
  constructor
  · intro h
    split at h
    · next hread =>
        obtain ⟨hne, hdigits, hlt⟩ := hread
        obtain rfl := Option.some.inj h
        exact ⟨⟨hne, hall.1 hdigits⟩, (UInt32.toNat_ofNat_of_lt hlt).symm⟩
    · cases h
  · rintro ⟨⟨hne, hdigits⟩, hvalue⟩
    rw [hvalue, if_pos ⟨hne, hall.2 hdigits, word.toNat_lt⟩, UInt32.ofNat_toNat]

/-! ## Writing -/

/-- A number is written with digits, at least one of them. -/
theorem isDigits_toDigits (n : Nat) : IsDigits (Nat.toDigits 10 n) :=
  ⟨Nat.toDigits_ne_nil, fun _ => Nat.isDigit_of_mem_toDigits (by decide) (by decide)⟩

/-- A number is written with digits that spell it. -/
theorem spells_toDigits (n : Nat) : Spells (Nat.toDigits 10 n) n :=
  ⟨_, isDigits_toDigits n, .inl rfl, Nat.ofDigitChars_ten_toDigits⟩

/-- Only zero is written with a zero in front.  The first digit is that of the number
without its last one, so the induction goes down by tens. -/
theorem eq_zero_of_head_toDigits {n : Nat} (h : (Nat.toDigits 10 n).head? = some '0') : n = 0 := by
  induction n using Nat.strongRecOn with
  | ind n ih =>
      rw [Nat.toDigits_eq_if (by decide)] at h
      split at h
      · exact Nat.digitChar_eq_zero.1 (Option.some.inj h)
      · have hfront : (Nat.toDigits 10 (n / 10)).head? = some '0' := by
          rwa [List.head?_append, Option.or_of_isSome (by simp [Nat.toDigits_ne_nil])] at h
        have := ih (n / 10) (by omega) hfront
        omega

/-- Numbers are written plainly. -/
theorem plain_toDigits (n : Nat) : Plain (Nat.toDigits 10 n) := by
  constructor
  · intro hplus
    exact absurd ((isDigits_toDigits n).2 '+' (List.mem_of_head? hplus)) (by decide)
  · intro hzero
    rw [eq_zero_of_head_toDigits hzero]
    rfl

/-- A digit is written for the number that it stands for. -/
theorem toDigits_of_isDigit {c : Char} (h : c.isDigit = true) :
    c.toNat - 48 < 10 ∧ Nat.toDigits 10 (c.toNat - 48) = [c] := by
  rw [Char.isDigit, Bool.and_eq_true, decide_eq_true_eq, decide_eq_true_eq] at h
  have hbounds : 48 ≤ c.toNat ∧ c.toNat ≤ 57 := ⟨h.1, h.2⟩
  have hlt : c.toNat - 48 < 10 := by omega
  refine ⟨hlt, ?_⟩
  rw [Nat.toDigits_of_lt_base hlt, List.singleton_inj]
  apply Char.toNat_inj.1
  rw [Nat.toNat_digitChar_of_lt_ten hlt]
  omega

/-- Digits without a needless zero are those in which their value is written. -/
theorem eq_toDigits_of_isDigits {digits : List Char} (h : IsDigits digits)
    (hzero : digits.head? = some '0' → digits = ['0']) :
    digits = Nat.toDigits 10 (Nat.ofDigitChars 10 digits 0) := by
  induction digits using List.reverseRecOn with
  | nil => exact absurd rfl h.1
  | append_singleton front c ih =>
      have hc : c.isDigit = true := h.2 c (by simp)
      obtain ⟨hlt, hdigit⟩ := toDigits_of_isDigit hc
      have hvalue : Nat.ofDigitChars 10 (front ++ [c]) 0 =
          10 * Nat.ofDigitChars 10 front 0 + (c.toNat - 48) := by
        rw [Nat.ofDigitChars_append, Nat.ofDigitChars_cons, Nat.ofDigitChars_nil]
        rfl
      -- The last digit is the remainder by ten; those in front are the quotient.
      rw [hvalue]
      by_cases hnil : front = []
      · rw [hnil, Nat.ofDigitChars_nil, Nat.mul_zero, Nat.zero_add, hdigit]
        rfl
      · -- The last digit is put behind a number, which is not zero: zero stands alone.
        have hhead : front.head? ≠ some '0' := by
          intro hfront
          have halone := congrArg List.length (hzero (by rw [List.head?_append, hfront]; rfl))
          have hlength := List.length_pos_iff.2 hnil
          rw [List.length_append, List.length_singleton, List.length_singleton] at halone
          omega
        have hfront := ih ⟨hnil, fun d hd => h.2 d (by simp [hd])⟩ fun e => absurd e hhead
        have hpos : 0 < Nat.ofDigitChars 10 front 0 := by
          apply Nat.pos_of_ne_zero
          intro hz
          rw [hz] at hfront
          exact hhead (by rw [hfront]; rfl)
        rw [← Nat.toDigits_append_toDigits (by decide) hpos hlt, ← hfront, hdigit]

/-- **Only one spelling is plain**, the one in which the number is written. -/
theorem eq_toDigits_of_plain {text : List Char} {n : Nat} (hplain : Plain text)
    (h : Spells text n) : text = Nat.toDigits 10 n := by
  obtain ⟨digits, hdigits, rfl | rfl, rfl⟩ := h
  · exact eq_toDigits_of_isDigits hdigits hplain.2
  · exact absurd rfl hplain.1

end Text
end ScopeTrack
