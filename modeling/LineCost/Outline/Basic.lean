import LineCost.LineMap
import LineCost.Source.Interval
import LineCost.Source.Location

/-!
The outline of a module: its functions with their basic blocks, as the compiler knew them.
-/

namespace LineCost.Outline

/-- How the blocks of a function carry their tallies. -/
inductive Layout where
  /-- One tally for a whole block, which has a size and two ends. -/
  | block
  /-- One tally for each source line of a block. -/
  | line
  deriving DecidableEq, Repr

/-- The size of a block and the two ends of it, in either order. -/
structure Span where
  size : Nat
  start : Location
  stop : Location
  deriving DecidableEq, Repr

structure Block where
  name : String
  /-- A block that is left out of all totals and of what is written. -/
  skip : Bool
  span : Option Span
  /-- The tally of the block as a whole. -/
  tally : Tally
  /-- The tallies of its source lines. -/
  lines : LineMap
  deriving DecidableEq

namespace Block

/-- A block about which only its name is known. -/
def named (name : String) : Block := ⟨name, false, none, .zero, .empty⟩

/-- The interval from the first to the last valid line that is recorded. -/
def recordedRange? (b : Block) : Option Interval :=
  match b.lines.validLines with
  | [] => none
  | first :: rest => some (.between first ((first :: rest).getLast (List.cons_ne_nil _ _)))

/-- The source lines that a block covers: those between its ends, if both are valid, and else those
between the first and the last that is recorded. -/
def range? (b : Block) : Option Interval :=
  match b.span with
  | some s =>
    if s.start.isValid && s.stop.isValid then some (.between s.start.line s.stop.line)
    else b.recordedRange?
  | none => b.recordedRange?

def firstRecorded? (b : Block) : Option Nat := b.lines.validLines.head?

/-- The tally of the block and those of all its lines together. -/
def total (b : Block) : Tally := b.tally + b.lines.total

def checkedTotal (b : Block) : Except Overflow Tally :=
  b.lines.tallies.foldlM Tally.checkedAdd b.tally

end Block

structure Func where
  name : String
  decl : Location
  layout : Layout
  blocks : List Block
  deriving DecidableEq

namespace Func

def kept (f : Func) : List Block := f.blocks.filter (!·.skip)

/-- The totals of the blocks that are not skipped. -/
def total (f : Func) : Tally := Tally.sum (f.kept.map Block.total)

def checkedTotal (f : Func) : Except Overflow Tally := Tally.checkedSumOf Block.checkedTotal f.kept

end Func

def total (fs : List Func) : Tally := Tally.sum (fs.map Func.total)

def checkedTotal (fs : List Func) : Except Overflow Tally :=
  Tally.checkedSumOf Func.checkedTotal fs

end LineCost.Outline
