/-
# Tokens of a JSON text

The characters are read one by one by a machine with three modes: between
tokens, in a word (a number or one of `null`, `true`, `false`), and in a quoted
text.  Two words never touch in a JSON text, so a word ends at the first
character that cannot belong to one.

Escapes of UTF-16 surrogates count in pairs only: a high one must be followed
by an escaped low one, and a low one alone is refused.
-/

import ScopeTrack.Json.Number
import ScopeTrack.Json.Quoted

namespace ScopeTrack
namespace Json

/-- A token of a JSON text. -/
inductive Token where
  | openArray
  | closeArray
  | openObject
  | closeObject
  | comma
  | colon
  /-- A quoted text. -/
  | text (value : String)
  /-- A number, a truth value or null. -/
  | scalar (value : Json)
deriving Repr

/-- Where a quoted text stands between two of its characters. -/
inductive Escape where
  /-- Outside an escape. -/
  | plain
  /-- After a backslash. -/
  | backslash
  /-- After an escaped high surrogate: a backslash must follow. -/
  | paired (high : Nat)
  /-- After that backslash: the letter `u` must follow. -/
  | pairedMark (high : Nat)
  /-- In the digits of an escape: those still to come, the value so far, and the
  high surrogate before it. -/
  | hex (missing value : Nat) (high : Option Nat)
deriving DecidableEq, Repr

/-- What the machine is in the middle of. -/
inductive Mode where
  | between
  /-- In a word, its characters so far in reverse. -/
  | word (reversed : List Char)
  /-- In a quoted text, its characters so far in reverse. -/
  | quoted (escape : Escape) (reversed : List Char)
deriving Repr

/-- The machine: the tokens so far in reverse, and its mode. -/
structure Lexer where
  tokens : List Token := []
  mode : Mode := .between
deriving Repr

/-- A character that separates tokens and means nothing else. -/
def isSpace (c : Char) : Bool :=
  c = ' ' || c = '\n' || c = '\t' || c = '\r'

/-- A character that can belong to a word. -/
def isWordChar (c : Char) : Bool :=
  c.isAlphanum || c = '-' || c = '+' || c = '.'

/-- The token of a character that is one by itself. -/
def mark? : Char → Option Token
  | '[' => some .openArray
  | ']' => some .closeArray
  | '\x7b' => some .openObject
  | '\x7d' => some .closeObject
  | ',' => some .comma
  | ':' => some .colon
  | _ => none

/-- The token that a word is. -/
def wordToken? (cs : List Char) : Option Token :=
  if cs = "null".toList then some (.scalar .null)
  else if cs = "true".toList then some (.scalar (.bool true))
  else if cs = "false".toList then some (.scalar (.bool false))
  else (Number.ofChars? cs).map fun n => .scalar (.num n)

/-- The character of a finished escape of four digits, or the mode that waits
for its second half. -/
def closeEscape? (value : Nat) (high : Option Nat) (reversed : List Char) : Option Mode :=
  let isHigh := 0xD800 ≤ value ∧ value < 0xDC00
  let isLow := 0xDC00 ≤ value ∧ value < 0xE000
  match high with
  | some high =>
    if isLow then
      let c := Char.ofNat (0x10000 + (high - 0xD800) * 0x400 + (value - 0xDC00))
      some (.quoted .plain (c :: reversed))
    else none
  | none =>
    if isHigh then some (.quoted (.paired value) reversed)
    else if isLow then none
    else some (.quoted .plain (Char.ofNat value :: reversed))

namespace Lexer

/-- Reads one character between tokens. -/
def stepBetween (tokens : List Token) (c : Char) : Option Lexer :=
  if isSpace c then some ⟨tokens, .between⟩
  else if c = '"' then some ⟨tokens, .quoted .plain []⟩
  else if isWordChar c then some ⟨tokens, .word [c]⟩
  else (mark? c).map fun token => ⟨token :: tokens, .between⟩

/-- Reads one character of a quoted text. -/
def stepQuoted (tokens : List Token) (escape : Escape) (reversed : List Char) (c : Char) :
    Option Lexer :=
  match escape with
  | .plain =>
    if c = '"' then some ⟨.text (String.ofList reversed.reverse) :: tokens, .between⟩
    else if c = '\\' then some ⟨tokens, .quoted .backslash reversed⟩
    else if c.toNat < 0x20 then none
    else some ⟨tokens, .quoted .plain (c :: reversed)⟩
  | .backslash =>
    if c = 'u' then some ⟨tokens, .quoted (.hex 4 0 none) reversed⟩
    else (unescape? c).map fun c => ⟨tokens, .quoted .plain (c :: reversed)⟩
  | .paired high =>
    if c = '\\' then some ⟨tokens, .quoted (.pairedMark high) reversed⟩ else none
  | .pairedMark high =>
    if c = 'u' then some ⟨tokens, .quoted (.hex 4 0 (some high)) reversed⟩ else none
  | .hex missing value high => do
    let digit ← hexValue? c
    let value := 16 * value + digit
    if missing ≤ 1 then
      let mode ← closeEscape? value high reversed
      return ⟨tokens, mode⟩
    else
      return ⟨tokens, .quoted (.hex (missing - 1) value high) reversed⟩

/-- Reads one character. -/
def step (lexer : Lexer) (c : Char) : Option Lexer :=
  match lexer.mode with
  | .between => stepBetween lexer.tokens c
  | .word reversed =>
    if isWordChar c then some ⟨lexer.tokens, .word (c :: reversed)⟩
    else do
      let token ← wordToken? reversed.reverse
      stepBetween (token :: lexer.tokens) c
  | .quoted escape reversed => stepQuoted lexer.tokens escape reversed c

/-- The tokens at the end of the text; a quoted text must be closed. -/
def finish? (lexer : Lexer) : Option (List Token) :=
  match lexer.mode with
  | .between => some lexer.tokens.reverse
  | .word reversed => (wordToken? reversed.reverse).map fun token => (token :: lexer.tokens).reverse
  | .quoted _ _ => none

end Lexer

/-- The tokens of a text. -/
def tokens? (text : String) : Option (List Token) :=
  (text.toList.foldlM Lexer.step {}).bind Lexer.finish?

end Json
end ScopeTrack
