import LineCost.Pattern.Parser
import LineCost.Pattern.Size

/-!
The limits on patterns. One that is nested too deeply or would make too large an automaton is
refused.
-/

namespace LineCost.Pattern

/-- How deeply a pattern may be nested. -/
def depthLimit : Nat := 250

/-- A bound that no automaton of the pattern exceeds, found without building any set. A letter has
few variants; the largest sets take some fifty thousand bytes. -/
def sizeBound : Pattern → Nat
  | .empty => 64
  | .one s =>
    match s with
    | .letter _ => 512
    | s => 262144 * s.items
  | .textStart => 64
  | .textEnd => 64
  | .seq p q => p.sizeBound + q.sizeBound + 128
  | .alt p q => p.sizeBound + q.sizeBound + 128
  | .repeated p least extra _ => (least + extra.getD 0 + 1) * (p.sizeBound + 64) + 128
  | .group _ p => p.sizeBound + 128

/-- Whether the automata of the pattern are within the limit, in both directions. Most patterns are
far below it, so that the bound decides. -/
def fits (p : Pattern) : Bool :=
  p.sizeBound + 256 ≤ sizeLimit ||
    (p.form.automaton? true).isSome && (p.form.automaton? false).isSome

/-- The pattern that a text describes, within the limits. -/
def ofText? (text : List Char) : Option Pattern := do
  let p ← parse? text
  if p.depth ≤ depthLimit && p.fits then return p else none

end LineCost.Pattern
