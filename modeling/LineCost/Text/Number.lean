import LineCost.Text.Blank

/-!
Unsigned decimal numbers with an upper limit.
-/

namespace LineCost.Text

/-- The largest line number, block size or label number, 2^32 - 1. -/
def lineLimit : Nat := 4294967295

/-- The largest counter, 2^64 - 1. -/
def counterLimit : Nat := 18446744073709551615

/-- The value of a row of digits `0` to `9`, most significant first. -/
def decimalValue (s : List Char) : Nat := s.foldl (fun n c => 10 * n + (c.toNat - '0'.toNat)) 0

/-- At least one digit `0` to `9`, nothing else, and a value within the limit. -/
def readDigits? (limit : Nat) (s : List Char) : Option Nat :=
  if s.isEmpty || !s.all Char.isDigit then none
  else if decimalValue s ≤ limit then some (decimalValue s) else none

/-- Digits with an optional plus sign in front. -/
def readNumber? (limit : Nat) : List Char → Option Nat
  | '+' :: s => readDigits? limit s
  | s => readDigits? limit s

end LineCost.Text
