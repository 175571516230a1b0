import LineCost.Pattern.Balance
import LineCost.Pattern.Marks

/-!
The search for a pattern in a text.
-/

namespace LineCost.Pattern

/-- A pattern made ready to be searched for. -/
structure Matcher where
  skips : Skips
  track : Track
  deriving DecidableEq

namespace Matcher

/-- Whether a piece that is marked or that begins here or later on ends in the text that is left,
and not in front of it. -/
def finds (f : Matcher) : (m : Marks) → (atStart : Bool) → List Char → Bool
  | _, _, [] => false
  | m, atStart, c :: rest =>
    let x := f.track.read ⟨c, Text.fold c, atStart, rest.isEmpty⟩ m 1
    x.2.testBit 0 || f.skips.allow false rest.isEmpty || f.finds x.1 false rest

def occursIn (f : Matcher) (text : List Char) : Bool :=
  f.skips.allow true text.isEmpty || f.finds .clear true text

end Matcher

def matcher (p : Pattern) : Matcher :=
  let q := p.balanced
  ⟨q.skips, .ofPattern q 1⟩

/-- Whether the pattern spans some piece of the text. -/
def occursIn (p : Pattern) (text : List Char) : Bool := p.matcher.occursIn text

end LineCost.Pattern
