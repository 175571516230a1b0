import LineCost.Listing.Reader

/-!
Reading a listing in one pass, line by line. The pass settles its table at the first of three
events: the CPU asked for at the start, a CPU that the listing chooses, or the first function.
-/

namespace LineCost.Listing

/-- A function that a pass is in, with the table that its instructions are counted with. -/
structure OpenFunc where
  name : String
  table : Table
  trace : Trace

namespace OpenFunc

def start (name : String) (table : Table) : OpenFunc := ⟨name, table, .start⟩

def step (f : OpenFunc) (line : Line) : OpenFunc := { f with trace := f.trace.step f.table line }

def close (f : OpenFunc) : Func := ⟨f.name, f.trace.decl, f.trace.closedBlocks, f.trace.lines⟩

end OpenFunc

/-- Where a pass stands: the table once it is settled, the function that is open, and the complete
ones, last first. -/
structure Pass where
  table : Option Table
  open? : Option OpenFunc
  done : List Func

namespace Pass

def start (catalog : Catalog) (cpu : Option String) : Pass := ⟨cpu.map catalog.select, none, []⟩

/-- Settles the table, unless that has been done. -/
def settle (p : Pass) (table : Table) : Pass := { p with table := some (p.table.getD table) }

/-- Begins a function, which settles the table. -/
def begin (p : Pass) (catalog : Catalog) (name : String) : Pass :=
  { p.settle catalog.default with
    open? := some (.start name (p.table.getD catalog.default)) }

/-- Ends the function that is open, if there is one. -/
def close (p : Pass) : Pass :=
  match p.open? with
  | none => p
  | some f => { p with open? := none, done := f.close :: p.done }

/-- Takes a line into the function that is open. -/
def take (p : Pass) (line : Line) : Pass := { p with open? := p.open?.map (·.step line) }

def step (catalog : Catalog) (p : Pass) (n : Nat) : Line → Except ReadError Pass
  | .cpu name => .ok (p.settle (catalog.select name))
  | .opening name => if p.open?.isSome then .error (.nested n name) else .ok (p.begin catalog name)
  | .closing => .ok p.close
  | line => .ok (p.take line)

def run (catalog : Catalog) (p : Pass) : List (Nat × Line) → Except ReadError Pass
  | [] => .ok p
  | (n, line) :: rest =>
    match p.step catalog n line with
    | .ok p => p.run catalog rest
    | .error e => .error e

def finish (p : Pass) : Except ReadError (List Func) :=
  match p.open? with
  | none => .ok p.done.reverse
  | some f => .error (.unterminated f.name)

end Pass

/-! The same with every addition checked. -/

namespace Trace

def checkedOnCurrent (t : Trace) (c : Cost) : Except Overflow Trace :=
  match t.blocks with
  | [] => .ok t
  | b :: before => do
    let tally ← b.tally.checkedRecord c
    return { t with blocks := { b with tally } :: before }

/-- Counts an instruction in the current block and on the current row. -/
def checkedCount (t : Trace) (c : Cost) : Except Overflow Trace := do
  let t ← t.opened.checkedOnCurrent c
  match t.row with
  | none => return t
  | some n =>
    if c.isCounted then do
      let tally ← ((t.lines.get? n).getD .zero).checkedRecord c
      return { t with lines := t.lines.insert n tally }
    else return t

def checkedStep (table : Table) (t : Trace) : Line → Except Overflow Trace
  | .instruction mnemonic => t.checkedCount (table.classify mnemonic)
  | line => .ok (t.step table line)

end Trace

namespace OpenFunc

def checkedStep (f : OpenFunc) (line : Line) : Except Overflow OpenFunc := do
  let trace ← f.trace.checkedStep f.table line
  return { f with trace }

/-- Ends a function, whose blocks are added up then. -/
def checkedClose (f : OpenFunc) : Except Overflow Func := do
  let _ ← Tally.checkedSum (f.close.blocks.map Block.tally)
  return f.close

end OpenFunc

namespace Pass

def checkedTake (p : Pass) (line : Line) : Except Overflow Pass :=
  match p.open? with
  | none => .ok p
  | some f => do
    let f ← f.checkedStep line
    return { p with open? := some f }

def checkedClose (p : Pass) : Except Overflow Pass :=
  match p.open? with
  | none => .ok p
  | some f => do
    let g ← f.checkedClose
    return { p with open? := none, done := g :: p.done }

def checkedStep (catalog : Catalog) (p : Pass) (n : Nat) :
    Line → Except Overflow (Except ReadError Pass)
  | .closing => do
    let p ← p.checkedClose
    return .ok p
  | .instruction mnemonic => do
    let p ← p.checkedTake (.instruction mnemonic)
    return .ok p
  | line => .ok (p.step catalog n line)

def checkedRun (catalog : Catalog) (p : Pass) :
    List (Nat × Line) → Except Overflow (Except ReadError Pass)
  | [] => .ok (.ok p)
  | (n, line) :: rest => do
    match ← p.checkedStep catalog n line with
    | .ok p => p.checkedRun catalog rest
    | .error e => return .error e

end Pass

/-- Reads a listing line by line, checking every addition. -/
def checkedRead (catalog : Catalog) (cpu : Option String) (text : String) :
    Except Overflow (Except ReadError (List Func)) := do
  let p ← (Pass.start catalog cpu).checkedRun catalog (Text.numbered (readLines text))
  return p >>= Pass.finish

end LineCost.Listing
