import LineCost.Cost.Catalog
import LineCost.Listing.Basic
import LineCost.Listing.Section

/-!
Reading a listing: one cost table serves all its functions, and every instruction is counted in the
block that it stands in and on the source line of the last location before it.
-/

namespace LineCost.Listing

/-- A function that is being read, with the last line seen in its own file. Blocks stand last
first. -/
structure Trace where
  decl : Location
  row : Option Nat
  blocks : List Block
  lines : LineMap

namespace Trace

def start : Trace := ⟨⟨"", 0⟩, none, [], .empty⟩

def onCurrent (t : Trace) (f : Block → Block) : Trace :=
  match t.blocks with
  | [] => t
  | b :: before => { t with blocks := f b :: before }

/-- Moves to a source line. The first location makes its file the function's own; line 0 and other
files leave the trace where it was. -/
def locate (t : Trace) (file : String) (line : Nat) : Trace :=
  if line = 0 then t
  else
    let t := if t.decl.file.isEmpty then { t with decl := ⟨file, line⟩ } else t
    if t.decl.file = file then { t with row := some line }.onCurrent (·.cover line) else t

def label (t : Trace) (id : Nat) (name : Option String) : Trace :=
  { t with blocks := .labelled id name :: t.blocks }

/-- The trace with a block to count in. -/
def opened (t : Trace) : Trace :=
  if t.blocks.isEmpty then { t with blocks := [.implicit] } else t

/-- Counts an instruction in the current block, which is made if there is none, and on the current
line if there is one. -/
def count (t : Trace) (c : Cost) : Trace :=
  let t := if t.blocks.isEmpty then { t with blocks := [.implicit] } else t
  let t := t.onCurrent (·.record c)
  match t.row with
  | some n => if c.isCounted then { t with lines := t.lines.addAt n (Tally.ofCost c) } else t
  | none => t

def step (table : Table) (t : Trace) : Line → Trace
  | .loc file line => t.locate file line
  | .label id name => t.label id name
  | .instruction mnemonic => t.count (table.classify mnemonic)
  | _ => t

/-- The blocks in order. A first block without lines of its own covers the line of the
declaration. -/
def closedBlocks (t : Trace) : List Block :=
  match t.blocks.reverse with
  | [] => []
  | b :: rest => (if b.range.isNone && 0 < t.decl.line then b.cover t.decl.line else b) :: rest

end Trace

def Section.func (table : Table) (s : Section) : Func :=
  let t := s.lines.foldl (Trace.step table) .start
  ⟨s.name, t.decl, t.closedBlocks, t.lines⟩

/-- The lines of a listing, each read on its own. -/
def readLines (text : String) : List Line := (Text.lines text.toList).map Line.read

/-- The table for a listing: that of the CPU asked for, else that of the CPU which the listing
chooses, else the default. -/
def tableFor (catalog : Catalog) (cpu : Option String) (lines : List Line) : Table :=
  match cpu.orElse fun _ => chosenCpu? lines with
  | some name => catalog.select name
  | none => catalog.default

def read (catalog : Catalog) (cpu : Option String) (text : String) :
    Except ReadError (List Func) := do
  let lines := (Text.lines text.toList).map Line.read
  let parts ← sections lines
  return parts.map (Section.func (tableFor catalog cpu lines))

end LineCost.Listing
