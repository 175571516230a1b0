/-!
Sets of characters given as ascending lists of code ranges.
-/

namespace LineCost.Text

/-- Whether a code lies in one of the ranges. The ranges ascend, so the search stops at the first
one that begins beyond the code. -/
def within : List (Nat × Nat) → Nat → Bool
  | [], _ => false
  | (first, last) :: rest, n => first ≤ n && (n ≤ last || within rest n)

/-- Puts a range in front of ascending ones that do not begin before it, and swallows those that it
overlaps or touches. -/
def cover (first last : Nat) : List (Nat × Nat) → List (Nat × Nat)
  | [] => [(first, last)]
  | (a, b) :: rest =>
    if a ≤ last + 1 then cover first (max last b) rest else (first, last) :: (a, b) :: rest

/-- The same codes as ascending ranges that do not touch. -/
def ascending (ranges : List (Nat × Nat)) : List (Nat × Nat) :=
  (ranges.mergeSort fun r s => r.1 ≤ s.1).foldr (fun r rest => cover r.1 r.2 rest) []

/-- The largest code of a character. -/
def codeLimit : Nat := 0x10FFFF

/-- The codes from `n` on that lie between ascending ranges. -/
def gaps : Nat → List (Nat × Nat) → List (Nat × Nat)
  | n, [] => if n ≤ codeLimit then [(n, codeLimit)] else []
  | n, (first, last) :: rest =>
    if n < first then (n, first - 1) :: gaps (last + 1) rest else gaps (last + 1) rest

/-- The codes of all other characters. The codes D800 to DFFF belong to no character. -/
def complement (ranges : List (Nat × Nat)) : List (Nat × Nat) :=
  gaps 0 (ascending ((0xD800, 0xDFFF) :: ranges))

def common (a b : List (Nat × Nat)) : List (Nat × Nat) := complement (complement a ++ complement b)

end LineCost.Text
