import LineCost.Attribution.Report
import LineCost.Listing.Basic
import LineCost.Outline.Basic

/-!
Attribution line by line. The assembly lines that carry cycles form a pool, and each is handed out
at most once: first to the earliest block that records the line, then, whatever is left, by range to
the blocks that got nothing.
-/

namespace LineCost.Attribution

/-- The assembly lines that may be handed out. -/
def pool (f : Listing.Func) : LineMap := f.lines.filter fun _ t => !t.isEmpty

def records (b : Outline.Block) (n : Nat) : Bool := b.lines.validLines.contains n

/-- Gives a block the lines of the pool that it records; the answer tells whether there were any. -/
def takeDirect (left : LineMap) (b : Outline.Block) : LineMap × Outline.Block × Bool :=
  if b.skip then (left, b, false)
  else
    let taken := left.filter fun n _ => records b n
    let lines := b.lines.map fun n t => (taken.get? n).elim t (t + ·)
    (left.filter fun n _ => !records b n, { b with lines := lines }, !taken.entries.isEmpty)

/-- Goes through the blocks in order, each taking from what the earlier ones have left. -/
def directPass (left : LineMap) : List Outline.Block → LineMap × List (Outline.Block × Bool)
  | [] => (left, [])
  | b :: rest =>
    let (left, b, hit) := takeDirect left b
    let (left, rest) := directPass left rest
    (left, (b, hit) :: rest)

/-- The sum of what the pool holds inside an interval, and the rest of the pool, unless there is
nothing inside. -/
def takeRange? (left : LineMap) (i : Interval) : Option (Tally × LineMap) :=
  let inside := left.filter fun n _ => i.includes n
  if inside.entries.isEmpty then none
  else some (inside.total, left.filter fun n _ => !i.includes n)

/-- The narrowest of the intervals, the first of several. -/
def narrowest? : List Interval → Option Interval
  | [] => none
  | i :: rest =>
    match narrowest? rest with
    | none => some i
    | some j => if i.span ≤ j.span then some i else some j

/-- Takes from the range of a block, or if that holds nothing from the narrowest of the given ranges
that strictly contain it. -/
def takeAround? (ranges : List Interval) (left : LineMap) (i : Interval) :
    Option (Tally × LineMap) :=
  (takeRange? left i).orElse fun _ => do
    let outer ← narrowest? (ranges.filter (·.encloses i))
    takeRange? left outer

/-- Serves a block that may have got nothing so far. What it takes by range is booked on the first
line that it records. -/
def takeByRange (ranges : List Interval) (left : LineMap) (b : Outline.Block) (hit : Bool) :
    LineMap × Outline.Block × Outcome :=
  if b.skip then (left, b, .skipped)
  else if hit then (left, b, .matched)
  else match b.range?, b.firstRecorded? with
    | some i, some first =>
      match takeAround? ranges left i with
      | some (t, left) => (left, { b with lines := b.lines.addAt first t }, .fallback)
      | none => (left, b, .unresolved)
    | _, _ => (left, b, .unresolved)

/-- Goes through the blocks in order and serves those that got nothing. -/
def rangePass (ranges : List Interval) (left : LineMap) :
    List (Outline.Block × Bool) → List (Outline.Block × Outcome)
  | [] => []
  | (b, hit) :: rest =>
    let (left, b, outcome) := takeByRange ranges left b hit
    (b, outcome) :: rangePass ranges left rest

/-- Hands the lines of an assembly function out to blocks. -/
def mergeLines (asm : Listing.Func) (blocks : List Outline.Block) :
    List (Outline.Block × Outcome) :=
  let (left, served) := directPass (pool asm) blocks
  let ranges := (blocks.filter (!·.skip)).filterMap Outline.Block.range?
  rangePass ranges left served

/-! The same with every addition checked. -/

def checkedTakeDirect (left : LineMap) (b : Outline.Block) :
    Except Overflow (LineMap × Outline.Block × Bool) :=
  if b.skip then .ok (left, b, false)
  else do
    let taken := left.filter fun n _ => records b n
    let lines ← b.lines.checkedAddAll taken.entries
    return (left.filter fun n _ => !records b n, { b with lines }, !taken.entries.isEmpty)

def checkedDirectPass (left : LineMap) :
    List Outline.Block → Except Overflow (LineMap × List (Outline.Block × Bool))
  | [] => .ok (left, [])
  | b :: rest => do
    let (left, b, hit) ← checkedTakeDirect left b
    let (left, rest) ← checkedDirectPass left rest
    return (left, (b, hit) :: rest)

def checkedTakeRange? (left : LineMap) (i : Interval) :
    Except Overflow (Option (Tally × LineMap)) :=
  let inside := left.filter fun n _ => i.includes n
  if inside.entries.isEmpty then .ok none
  else do
    let sum ← Tally.checkedSum inside.tallies
    return some (sum, left.filter fun n _ => !i.includes n)

def checkedTakeAround? (ranges : List Interval) (left : LineMap) (i : Interval) :
    Except Overflow (Option (Tally × LineMap)) := do
  match ← checkedTakeRange? left i with
  | some taken => return some taken
  | none =>
    match narrowest? (ranges.filter (·.encloses i)) with
    | none => return none
    | some outer => checkedTakeRange? left outer

def checkedTakeByRange (ranges : List Interval) (left : LineMap) (b : Outline.Block) (hit : Bool) :
    Except Overflow (LineMap × Outline.Block × Outcome) :=
  if b.skip then .ok (left, b, .skipped)
  else if hit then .ok (left, b, .matched)
  else match b.range?, b.firstRecorded? with
    | some i, some first => do
      match ← checkedTakeAround? ranges left i with
      | some (t, left) =>
        let lines ← b.lines.checkedAddAt first t
        return (left, { b with lines }, .fallback)
      | none => return (left, b, .unresolved)
    | _, _ => .ok (left, b, .unresolved)

def checkedRangePass (ranges : List Interval) (left : LineMap) :
    List (Outline.Block × Bool) → Except Overflow (List (Outline.Block × Outcome))
  | [] => .ok []
  | (b, hit) :: rest => do
    let (left, b, outcome) ← checkedTakeByRange ranges left b hit
    let rest ← checkedRangePass ranges left rest
    return (b, outcome) :: rest

def checkedMergeLines (asm : Listing.Func) (blocks : List Outline.Block) :
    Except Overflow (List (Outline.Block × Outcome)) := do
  let (left, served) ← checkedDirectPass (pool asm) blocks
  let ranges := (blocks.filter (!·.skip)).filterMap Outline.Block.range?
  checkedRangePass ranges left served

end LineCost.Attribution
