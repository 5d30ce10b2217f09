/-
# The tokens that a written value has

Reading the characters of a written value gives back its tokens.  The argument
follows the way in which the text is put together: `Lexes` says of some
characters that they are those of some tokens, wherever they stand, and holds of

| characters | tokens |
| --- | --- |
| a word such as `null` | the word (`lexes_word`) |
| a quoted text | the text (`lexes_quote`) |
| two parts around a bracket, a comma or a colon | theirs, and the mark (`Lexes.join`) |

A mark ends a word and cannot belong to one, so parts that are joined by marks
do not run into each other.  What stands between quotes is never taken for a mark:
the machine leaves a quoted text at a quote that is not escaped, and `quote`
leaves none (`foldlM_escape`).
-/

import ScopeTrack.Json.Reader
import ScopeTrack.Json.Writer
import ScopeTrack.Proofs.Text.SingleLine

namespace ScopeTrack
namespace Json

/-! ## Tokens between marks -/

/-- The tokens so far in reverse, if the one that the machine is in ends here. -/
def Lexer.settled? (lexer : Lexer) : Option (List Token) :=
  match lexer.mode with
  | .between => some lexer.tokens
  | .word reversed => (wordToken? reversed.reverse).map fun token => token :: lexer.tokens
  | .quoted _ _ => none

/-- At the end the tokens are those settled so far, in their order.  Settling is what a
mark does as well, so a text can be taken apart at its marks. -/
theorem Lexer.finish?_eq (lexer : Lexer) : lexer.finish? = lexer.settled?.map List.reverse := by
  unfold finish? settled?
  cases lexer.mode with
  | between => rfl
  | word reversed => rw [Option.map_map]; rfl
  | quoted escape reversed => rfl

/-- Between two tokens a mark is a token by itself. -/
theorem stepBetween_mark {c : Char} {mark : Token} (h : mark? c = some mark)
    (before : List Token) : Lexer.stepBetween before c = some ⟨mark :: before, .between⟩ := by
  unfold mark? at h
  split at h <;> first | (obtain rfl := Option.some.inj h; rfl) | cases h

/-- No mark can go on a word; so a word in front of a mark ends there. -/
theorem not_isWordChar_of_mark {c : Char} {mark : Token} (h : mark? c = some mark) :
    isWordChar c = false := by
  unfold mark? at h
  split at h <;> first | rfl | cases h

/-- A mark ends the token in front of it. -/
theorem Lexer.step_mark {lexer : Lexer} {before : List Token} {c : Char} {mark : Token}
    (hsettled : lexer.settled? = some before) (h : mark? c = some mark) :
    lexer.step c = some ⟨mark :: before, .between⟩ := by
  obtain ⟨tokens, mode⟩ := lexer
  cases mode with
  | between =>
      obtain rfl := Option.some.inj hsettled
      exact stepBetween_mark h tokens
  | word reversed =>
      obtain ⟨token, htoken, rfl⟩ := Option.map_eq_some_iff.1 hsettled
      simp only [step, not_isWordChar_of_mark h, htoken]
      exact stepBetween_mark h _
  | quoted escape reversed => cases hsettled

/-- The characters are those of the tokens: read between two tokens, they add
just these. -/
def Lexes (cs : List Char) (tokens : List Token) : Prop :=
  ∀ before, ∃ lexer, cs.foldlM Lexer.step ⟨before, .between⟩ = some lexer ∧
    lexer.settled? = some (tokens.reverse ++ before)

/-- **A text is read as the tokens that its characters are those of.**  At the start of a
text there is nothing in front. -/
theorem tokens?_of_lexes {text : String} {tokens : List Token} (h : Lexes text.toList tokens) :
    tokens? text = some tokens := by
  obtain ⟨lexer, hread, hsettled⟩ := h []
  rw [tokens?, hread, Option.bind_some, Lexer.finish?_eq, hsettled]
  simp

theorem lexes_nil : Lexes [] [] :=
  fun before => ⟨⟨before, .between⟩, rfl, rfl⟩

/-- Parts around a mark do not run into each other. -/
theorem Lexes.join {front back : List Char} {tokens rest : List Token} {c : Char} {mark : Token}
    (hfront : Lexes front tokens) (hmark : mark? c = some mark) (hback : Lexes back rest) :
    Lexes (front ++ c :: back) (tokens ++ mark :: rest) := by
  intro before
  obtain ⟨middle, hreadFront, hmiddle⟩ := hfront before
  obtain ⟨last, hreadBack, hlast⟩ := hback (mark :: (tokens.reverse ++ before))
  refine ⟨last, ?_, ?_⟩
  · rw [List.foldlM_append, hreadFront, Option.bind_eq_bind, Option.bind_some, List.foldlM_cons,
      Lexer.step_mark hmiddle hmark]
    exact hreadBack
  · rw [hlast]
    simp

/-! ## Words -/

/-- Between two tokens a character of a word starts one: it is no space, no quote and no
mark. -/
theorem stepBetween_word {c : Char} (h : isWordChar c = true) (before : List Token) :
    Lexer.stepBetween before c = some ⟨before, .word [c]⟩ := by
  have hspace : isSpace c = false := by
    rw [← Bool.not_eq_true]
    intro hc
    simp only [isSpace, Bool.or_eq_true, decide_eq_true_eq] at hc
    rcases hc with ((rfl | rfl) | rfl) | rfl <;> exact absurd h (by decide)
  have hquote : c ≠ '"' := by
    rintro rfl
    exact absurd h (by decide)
  rw [Lexer.stepBetween, hspace, h]
  simp [hquote]

/-- Within a word its characters are collected, the last one first. -/
theorem foldlM_word {cs : List Char} (h : ∀ c ∈ cs, isWordChar c = true) (before : List Token)
    (reversed : List Char) :
    cs.foldlM Lexer.step ⟨before, .word reversed⟩ =
      some ⟨before, .word (cs.reverse ++ reversed)⟩ := by
  induction cs generalizing reversed with
  | nil => rfl
  | cons c cs ih =>
      obtain ⟨hc, hcs⟩ := List.forall_mem_cons.1 h
      have hstep : Lexer.step ⟨before, .word reversed⟩ c =
          some ⟨before, .word (c :: reversed)⟩ := by
        simp [Lexer.step, hc]
      rw [List.foldlM_cons, hstep, Option.bind_eq_bind, Option.bind_some, ih hcs]
      simp

/-- **A word is read as its token**, if it is one.  It is not empty, as its first
character is what starts it. -/
theorem lexes_word {cs : List Char} {token : Token} (hne : cs ≠ [])
    (h : cs.all isWordChar = true) (htoken : wordToken? cs = some token) : Lexes cs [token] := by
  intro before
  cases cs with
  | nil => exact absurd rfl hne
  | cons c cs =>
      obtain ⟨hc, hcs⟩ := List.forall_mem_cons.1 (List.all_eq_true.1 h)
      refine ⟨⟨before, .word (cs.reverse ++ [c])⟩, ?_, ?_⟩
      · rw [List.foldlM_cons]
        show (Lexer.stepBetween before c >>= _) = _
        rw [stepBetween_word hc, Option.bind_eq_bind, Option.bind_some, foldlM_word hcs]
      · simp [Lexer.settled?, htoken]

/-! ## Quoted texts -/

/-- The escape of a character is read as the character. -/
theorem foldlM_escape (c : Char) (before : List Token) (reversed : List Char) :
    (escape c).foldlM Lexer.step ⟨before, .quoted .plain reversed⟩ =
      some ⟨before, .quoted .plain (c :: reversed)⟩ := by
  unfold escape
  iterate 7
    split
    · next h => subst h; rfl
  split
  · next h =>
      -- The long escape spells the code of the character in hexadecimal digits.
      have hhigh := hexValue?_hexDigit (c.toNat / 16) (by omega)
      have hlow := hexValue?_hexDigit (c.toNat % 16) (by omega)
      have hzero : hexValue? '0' = some 0 := by decide
      have hvalue : 16 * (c.toNat / 16) + c.toNat % 16 = c.toNat := Nat.div_add_mod _ _
      have hclose : closeEscape? c.toNat none reversed = some (.quoted .plain (c :: reversed)) := by
        rw [closeEscape?, if_neg (by omega), if_neg (by omega), Char.ofNat_toNat]
      simp [Lexer.step, Lexer.stepQuoted, hzero, hhigh, hlow, hvalue, hclose]
  · simp [Lexer.step, Lexer.stepQuoted, *]

/-- Within quotes the escapes of characters are read as these characters, one after the
other.  The induction is on the characters that were escaped, not on what is written for
them. -/
theorem foldlM_escapes (cs : List Char) (before : List Token) (reversed : List Char) :
    (cs.flatMap escape).foldlM Lexer.step ⟨before, .quoted .plain reversed⟩ =
      some ⟨before, .quoted .plain (cs.reverse ++ reversed)⟩ := by
  induction cs generalizing reversed with
  | nil => rfl
  | cons c cs ih =>
      rw [List.flatMap_cons, List.foldlM_append, foldlM_escape, Option.bind_eq_bind,
        Option.bind_some, ih]
      simp

/-- **A quoted text is read as the text.**  -/
theorem lexes_quote (text : String) : Lexes (quote text).toList [.text text] := by
  intro before
  refine ⟨⟨.text text :: before, .between⟩, ?_, rfl⟩
  rw [quote, String.toList_ofList, List.cons_append, List.foldlM_cons]
  show List.foldlM Lexer.step ⟨before, .quoted .plain []⟩ _ = _
  rw [List.foldlM_append, foldlM_escapes, Option.bind_eq_bind, Option.bind_some]
  simp [Lexer.step, Lexer.stepQuoted]

/-- Quotes, backslashes and control characters are escaped, and nothing else. -/
example : quote "a\"\\\n\x01\u0085😀" = "\"a\\\"\\\\\\n\\u0001\u0085😀\"" := by
  decide

/-- Different texts are quoted differently, because the text can be read off from what
is written. -/
theorem quote_injective : Function.Injective quote := by
  intro text other h
  have htokens := tokens?_of_lexes (lexes_quote text)
  rw [h, tokens?_of_lexes (lexes_quote other)] at htokens
  simpa using htokens.symm

end Json
end ScopeTrack
