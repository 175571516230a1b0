import LineCost.Pattern.Automaton
import LineCost.Text.Utf8

/-!
The parts of an automaton over bytes that read one character of a set or one word of several. They
are trees, in which rows of bytes that begin alike, or end alike, share states.
-/

namespace LineCost.Pattern

open Automaton (Build state grow reuse forget)

/-- Everything that can follow each first element of the rows, for rows with the same first element
next to each other. -/
def continuations {α : Type} [DecidableEq α] : List (List α) → List (α × List (List α))
  | [] => []
  | [] :: rest => continuations rest
  | (x :: xs) :: rest =>
    match continuations rest with
    | (y, ys) :: others => if x = y then (x, xs :: ys) :: others else (x, [xs]) :: (y, ys) :: others
    | [] => [(x, [xs])]

/-- The state from which the rows, of up to `depth` byte ranges, lead to the state `last`. States
with the same transitions share a table of 10000 slots. -/
def treeFrom (last : Nat) : (depth : Nat) → List (List (Nat × Nat)) → Build Nat
  | 0, _ => return last
  | depth + 1, rows =>
    match continuations rows with
    | [] => return last
    | next => do
      let parts ← next.mapM fun p => do
        return [p.1.1, p.1.2, ← treeFrom last depth p.2]
      reuse 10000 parts.flatten (edgeSize * next.length)

/-- The state from which the row, read backward, leads to the state `last`. Transitions of the same
byte range to the same state share a table of 1000 slots. -/
def rowFrom (last : Nat) (row : List (Nat × Nat)) : Build Nat :=
  row.foldlM (fun next range => reuse 1000 [next, range.1, range.2] 0) last

/-- A set of characters. One of ASCII characters only is a single state with an end. Any other one
is a tree of byte ranges forward, and a choice of rows backward. -/
def buildSet (backward : Bool) (ranges : List (Nat × Nat)) : Build Unit :=
  if ranges.all (·.2 < 128) then do
    let _ ← state 0
    let _ ← state (edgeSize * ranges.length)
  else do
    let rows := ranges.flatMap Text.byteSequences
    forget
    if backward then
      let _ ← state 0
      let last ← state 0
      rows.forM fun row => do
        let _ ← rowFrom last row
        grow branchSize
    else
      let last ← state 0
      let _ ← treeFrom last 4 rows

def bytes (s : List Char) : List Nat := (s.flatMap String.utf8EncodeChar).map (·.toNat)

/-- A tree of words: between two words that end at a state, its transitions are a choice of their
own. -/
structure WordState where
  /-- How many words are known to end here. -/
  ends : Nat
  /-- The finished choices, each with the words that go on, and the current one, last first. -/
  choices : List (List (List Nat))
  current : List (List Nat)

namespace WordState

/-- One more word. That another word ends here makes no difference before a word has gone on. -/
def add (s : WordState) : List Nat → WordState
  | [] =>
    if s.current.isEmpty && s.choices.isEmpty && 0 < s.ends then s
    else ⟨s.ends + 1, if s.current.isEmpty then s.choices else s.current :: s.choices, []⟩
  | word => { s with current := word :: s.current }

def ofWords (words : List (List Nat)) : WordState := words.foldl add ⟨0, [], []⟩

/-- The words of each choice, by their first bytes. -/
def groups (s : WordState) : List (List (Nat × List (List Nat))) :=
  ((s.current :: s.choices).filter (!·.isEmpty)).map fun words =>
    (words.reverse.filterMap List.head?).eraseDups.map fun b =>
      (b, words.reverse.filterMap fun w => if w.head? = some b then some w.tail else none)

end WordState

/-- The tree of words of up to `depth` bytes, without the end. -/
def buildWordsWithin : (depth : Nat) → List (List Nat) → Build Unit
  | 0, _ => return
  | depth + 1, words =>
    if words.all List.isEmpty then return
    else do
      let s := WordState.ofWords words
      let groups := s.groups
      groups.forM fun g => do
        g.forM fun p => buildWordsWithin depth p.2
        let _ ← state (if g.length = 1 then 0 else edgeSize * g.length)
      let _ ← state (branchSize * (groups.length + s.ends))

def buildWords (backward : Bool) (words : List (List Char)) : Build Unit := do
  let words := words.map fun w => if backward then (bytes w).reverse else bytes w
  let _ ← state 0
  buildWordsWithin (words.flatten.length + 1) words

end LineCost.Pattern
