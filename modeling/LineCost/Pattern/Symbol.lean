import LineCost.Pattern.CharSet

/-!
The symbols of a pattern: its characters with the escapes resolved. A character is escaped by a
backslash before it, or written as its code in hexadecimal digits: `\xhh`, `\uhhhh`, `\Uhhhhhhhh`,
or any number of digits between braces.
-/

namespace LineCost.Pattern

inductive Symbol where
  /-- An unescaped character, which may be an operator. -/
  | plain (c : Char)
  /-- An escaped character, which stands for itself. -/
  | quoted (c : Char)
  /-- One character of a set. -/
  | set (s : CharSet)
  /-- An escape for the start of the text. -/
  | textStart
  /-- An escape for the end of the text. -/
  | textEnd
  /-- All that opens a group with a name. -/
  | opening (name : List Char)
  deriving DecidableEq

namespace Symbol

/-- What a backslash and a character mean together. Any character of ASCII but a letter, a digit or
an angle bracket may be escaped; a digit would refer back to a group, which no pattern can. -/
def escaped? (c : Char) : Option Symbol :=
  match c with
  | 'd' => some (.set (.kind .digit false))
  | 'D' => some (.set (.kind .digit true))
  | 'w' => some (.set (.kind .word false))
  | 'W' => some (.set (.kind .word true))
  | 's' => some (.set (.kind .blank false))
  | 'S' => some (.set (.kind .blank true))
  | 'A' => some .textStart
  | 'z' => some .textEnd
  | 't' => some (.quoted '\t')
  | 'n' => some (.quoted '\n')
  | 'r' => some (.quoted '\r')
  | 'f' => some (.quoted '\x0c')
  | 'v' => some (.quoted '\x0b')
  | 'a' => some (.quoted '\x07')
  | c => if c.toNat < 128 && !c.isAlphanum && c != '<' && c != '>' then some (.quoted c) else none

/-- How many digits a code has after the letter, if it is not in braces. -/
def codeLength? : Char → Option Nat
  | 'x' => some 2
  | 'u' => some 4
  | 'U' => some 8
  | _ => none

def hexDigit? (c : Char) : Option Nat :=
  if c.isDigit then some (c.toNat - '0'.toNat)
  else if 'a' ≤ c ∧ c ≤ 'f' then some (10 + (c.toNat - 'a'.toNat))
  else if 'A' ≤ c ∧ c ≤ 'F' then some (10 + (c.toNat - 'A'.toNat))
  else none

/-- The character of a code, as a symbol. -/
def ofCode? (code : Nat) : Option Symbol :=
  if code.isValidChar then some (.quoted (Char.ofNat code)) else none

/-- What the reading of symbols is in the middle of. Of a code it keeps the value of the digits so
far, if there are any. -/
inductive Spelling where
  | ready
  /-- After a backslash. -/
  | escape
  /-- In a code that takes `left` more digits, or one in braces if it has none so far. -/
  | code (left : Nat) (value : Option Nat)
  /-- In a code in braces. -/
  | braces (value : Option Nat)

namespace Spelling

/-- Reads a character, which ends a symbol or is one of the first that spell it. -/
def step? : Spelling → Char → Option (Spelling × Option Symbol)
  | .ready, c => if c = '\\' then some (.escape, none) else some (.ready, some (.plain c))
  | .escape, c =>
    match codeLength? c with
    | some length => some (.code length none, none)
    | none => do
      let s ← escaped? c
      return (.ready, some s)
  | .code left value, c =>
    if c = '\x7b' ∧ value = none then some (.braces none, none)
    else do
      let digit ← hexDigit? c
      let code := 16 * value.getD 0 + digit
      if 1 < left then return (.code (left - 1) (some code), none)
      else
        let s ← ofCode? code
        return (.ready, some s)
  | .braces value, c =>
    if c = '\x7d' then do
      let code ← value
      let s ← ofCode? code
      return (.ready, some s)
    else do
      let digit ← hexDigit? c
      return (.braces (some (16 * value.getD 0 + digit)), none)

end Spelling

/-- The symbols that end in the text, unless one is misspelled or not complete. -/
def ofTextFrom? : Spelling → List Char → Option (List Symbol)
  | .ready, [] => some []
  | _, [] => none
  | spelling, c :: rest => do
    let (spelling, s) ← spelling.step? c
    let symbols ← ofTextFrom? spelling rest
    return s.toList ++ symbols

/-- The symbols of a text, unless a backslash escapes nothing or nothing that can be escaped. -/
def ofText? (text : List Char) : Option (List Symbol) := ofTextFrom? .ready text

/-- The character that a symbol stands for inside a bracketed set. -/
def char? : Symbol → Option Char
  | .plain c => some c
  | .quoted c => some c
  | _ => none

/-- The characters that a symbol stands for inside a bracketed set. -/
def item? : Symbol → Option CharSet
  | .plain c => some (.letter c)
  | .quoted c => some (.letter c)
  | .set s => some s
  | _ => none

end Symbol

end LineCost.Pattern
