import LineCost.Pattern.ByteTree
import LineCost.Pattern.Form

/-!
The automaton that spans a pattern byte by byte over UTF-8, either forward from the start of a text
or backward from its end. The order in which its states are made is part of its construction, since
their numbers decide which ones are shared.
-/

namespace LineCost.Pattern

open Automaton (Build state grow)

/-- Leading on from the end of a part takes a branch if the end is a choice. -/
def leadOn (hanging : Bool) : Build Unit := if hanging then grow branchSize else return

/-- Copies of a part in a row after an end. The result tells whether their end is a choice. -/
def copies (part : Build Bool) : (n : Nat) → (hanging : Bool) → Build Bool
  | 0, hanging => return hanging
  | n + 1, hanging => do
    leadOn hanging
    copies part n (← part)

/-- Copies of a part in a row after an end, each of which may be left out with all that follow. -/
def optionalCopies (part : Build Bool) : (n : Nat) → (hanging : Bool) → Build Unit
  | 0, hanging => leadOn hanging
  | n + 1, hanging => do
    leadOn hanging
    let _ ← state (2 * branchSize)
    optionalCopies part n (← part)

/-- A repetition. One with an upper limit has a copy for every turn; one without has a way back from
the last copy, and another state if it may end before the first. -/
def buildRepeated (part : Build Bool) (consuming : Bool) : (least : Nat) → (extra : Option Nat) →
    Build Bool
  | 0, some 1 => do
    let _ ← state (2 * branchSize)
    leadOn (← part)
    let _ ← state 0
    return false
  | 0, none =>
    if consuming then do
      let _ ← state branchSize
      leadOn (← part)
      return true
    else do
      leadOn (← part)
      let _ ← state (2 * branchSize)
      let _ ← state (2 * branchSize)
      let _ ← state 0
      return false
  | n, none => do
    leadOn (← copies part n false)
    let _ ← state branchSize
    return true
  | n, some 0 => copies part n false
  | n, some m => do
    let hanging ← if n = 0 then do let _ ← state 0; pure false else copies part n false
    let _ ← state 0
    optionalCopies part m hanging
    return false

/-- A branch leads from the state of its choice to the end of it. -/
def buildBranch (branch : Build Bool) : Build Unit := do
  grow branchSize
  leadOn (← branch)

/-- A choice of branches. Its own state and its end are made after the second one. -/
def buildChoice : List (Build Bool) → Build Bool
  | [] => return false
  | [branch] => branch
  | p :: q :: rest => do
    buildBranch p
    buildBranch q
    let _ ← state 0
    let _ ← state 0
    rest.forM buildBranch
    return false

namespace Form

/-- Whether nothing can be spanned. -/
def impossible : Form → Bool
  | .fail => true
  | .group _ p => p.impossible
  | .cat p q => p.impossible || q.impossible
  | .alt p q => p.impossible || q.impossible
  | .repeated p _ _ _ => p.impossible
  | _ => false

/-- Whether every piece that is spanned has a character. -/
def consumes : Form → Bool
  | .literal _ => true
  | .set _ => true
  | .words _ => true
  | .group _ p => p.consumes
  | .cat p q => p.consumes || q.consumes
  | .alt p q => p.consumes && q.consumes
  | .repeated p least _ _ => 0 < least && p.consumes
  | _ => false

/-- The branches of a form. Each result tells whether the end of the branch is a choice, which is
left by one more way when anything follows. A group leaves marks at both ends, but only forward. -/
def builds (backward : Bool) : Form → List (Build Bool)
  | .empty => [do let _ ← state 0; return false]
  | .fail => [do let _ ← state 0; let _ ← state 0; return false]
  | .literal s => [do (bytes s).forM fun _ => discard (state 0); return false]
  | .set ranges => [do buildSet backward ranges; return false]
  | .textStart => [do let _ ← state 0; return false]
  | .textEnd => [do let _ ← state 0; return false]
  | .group _ p =>
    let part := buildChoice (p.builds backward)
    [if backward then part else do
      let _ ← state 0
      leadOn (← part)
      let _ ← state 0
      return false]
  | .cat p q =>
    let first := buildChoice (p.builds backward)
    let second := buildChoice (q.builds backward)
    [if backward then do
      leadOn (← second)
      first
    else do
      leadOn (← first)
      second]
  | .words ws => [do buildWords backward ws; return false]
  | .alt p q => buildChoice (p.builds backward) :: q.builds backward
  | .repeated p least extra _ =>
    let part := buildChoice (p.builds backward)
    [buildRepeated part (!p.impossible && p.consumes) least extra]

/-- Whether every piece that is spanned begins at the start of the text. -/
def startsAtStart : Form → Bool
  | .textStart => true
  | .group _ p => p.startsAtStart
  | .cat p q => p.startsAtStart || p.onlyEmpty && q.startsAtStart
  | .alt p q => p.startsAtStart && q.startsAtStart
  | .repeated p least _ _ => 0 < least && p.startsAtStart
  | _ => false

/-- Whether every piece that is spanned ends at the end of the text. -/
def endsAtEnd : Form → Bool
  | .textEnd => true
  | .group _ p => p.endsAtEnd
  | .cat p q => q.endsAtEnd || q.onlyEmpty && p.endsAtEnd
  | .alt p q => p.endsAtEnd && q.endsAtEnd
  | .repeated p least _ _ => 0 < least && p.endsAtEnd
  | _ => false

/-- What comes before the form: a single state if it can only be met at one end of the text, and
else a loop that skips bytes. -/
def buildLead (p : Form) (backward : Bool) : Build Unit := do
  let _ ← state 0
  if !(backward && p.endsAtEnd || !backward && p.startsAtStart) then
    let _ ← state edgeSize
    let _ ← state (2 * branchSize)

/-- The whole automaton, with its last state and, forward, the marks at both ends. -/
def build (p : Form) (backward : Bool) : Build Unit := do
  p.buildLead backward
  let part := buildChoice (p.builds backward)
  if backward then leadOn (← part)
  else
    let _ ← state 0
    leadOn (← part)
    let _ ← state 0
  let _ ← state 0

/-- The automaton of a form, unless it becomes too large. -/
def automaton? (p : Form) (backward : Bool) : Option Automaton :=
  ((p.build backward).run .start).map (·.2)

end Form

end LineCost.Pattern
