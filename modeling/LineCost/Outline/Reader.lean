import LineCost.Outline.Basic
import LineCost.Outline.Line

/-!
Reading an outline, line by line up to the first blank one. The reader's state is what has been
read of the innermost item that is still open, so that each line either fits it or is a fault.
-/

namespace LineCost.Outline

/-- Why an outline cannot be read. Lines are counted from one. -/
inductive ReadError where
  | misplaced (line : Nat) (expected found : String)
  | malformed (line : Nat) (payload : String)
  | mixedLayout (line : Nat) (block : String)
  | unexpectedEnd (expected : String)
  deriving DecidableEq, Repr

namespace ReadError

def message : ReadError → String
  | misplaced n expected found =>
    "line " ++ n.repr ++ ": expected " ++ expected ++ ", found `" ++ found ++ "`"
  | malformed n payload => "line " ++ n.repr ++ ": invalid number or location `" ++ payload ++ "`"
  | mixedLayout n block =>
    "line " ++ n.repr ++ ": block `" ++ block ++ "` mixes block and line statistics"
  | unexpectedEnd expected => "unexpected end of input, expected " ++ expected

end ReadError

/-- A function that is being read: its layout once a block has shown one, and the blocks that are
complete, last first. -/
structure OpenFunc where
  name : String
  decl : Location
  layout : Option Layout
  blocks : List Block

namespace OpenFunc

/-- The function with its blocks in order. A function none of whose blocks shows a layout is in line
layout. -/
def close (f : OpenFunc) : Func := ⟨f.name, f.decl, f.layout.getD .line, f.blocks.reverse⟩

def push (f : OpenFunc) (b : Block) : OpenFunc := { f with blocks := b :: f.blocks }

/-- The function with the layout that one of its blocks shows, unless another block has shown a
different one. -/
def withLayout (f : OpenFunc) (layout : Layout) (n : Nat) (block : String) :
    Except ReadError OpenFunc :=
  if f.layout.getD layout = layout then .ok { f with layout := some layout }
  else .error (.mixedLayout n block)

end OpenFunc

/-- The innermost item that is open. -/
inductive Position where
  /-- Before the first function. -/
  | outside
  | func (name : String)
  | body (f : OpenFunc)
  | block (f : OpenFunc) (name : String)
  | size (f : OpenFunc) (name : String) (size : Nat)
  /-- After the first end of a block. -/
  | start (f : OpenFunc) (name : String) (size : Nat) (start : Location)
  /-- After the second end of a block. -/
  | span (f : OpenFunc) (name : String) (s : Span)
  | tally (f : OpenFunc) (name : String) (s : Span) (t : Tally)
  /-- Among the source lines of a block. -/
  | lines (f : OpenFunc) (name : String) (m : LineMap)

namespace Position

def expected : Position → String
  | outside => "`func:`"
  | func _ => "` at:`"
  | body _ => "` block:` or `func:`"
  | block _ _ => "`  size:`, a line entry, ` block:` or `func:`"
  | size _ _ _ => "`  from:`"
  | start _ _ _ _ => "`  to:`"
  | span _ _ _ => "`  stat:`, ` block:` or `func:`"
  | tally _ _ _ _ => "` block:` or `func:`"
  | lines _ _ _ => "a line entry, ` block:` or `func:`"

/-- The function around the position, where it may go on with another block or end. -/
def settled? : Position → Option OpenFunc
  | body f => some f
  | block f name => some (f.push (.named name))
  | span f name s => some (f.push { Block.named name with span := some s })
  | tally f name s t => some (f.push { Block.named name with span := some s, tally := t })
  | lines f name m => some (f.push { Block.named name with lines := m })
  | _ => none

end Position

/-- The functions that are complete, last first, and the position after them. -/
structure Progress where
  done : List Func
  position : Position

namespace Progress

def start : Progress := ⟨[], .outside⟩

/-- The functions read so far, last first, if the outline may end here. -/
def settled? (p : Progress) : Option (List Func) :=
  match p.position with
  | .outside => some p.done
  | position => position.settled?.map fun f => f.close :: p.done

def misplaced (p : Progress) (n : Nat) (text : List Char) : Except ReadError Progress :=
  .error (.misplaced n p.position.expected (String.ofList text))

def step (p : Progress) (n : Nat) (text : List Char) (line : Line) : Except ReadError Progress :=
  match line, p.position with
  | .func name, _ =>
    match p.settled? with
    | some done => .ok ⟨done, .func name⟩
    | none => p.misplaced n text
  | .decl l, .func name => .ok { p with position := .body ⟨name, l, none, []⟩ }
  | .block name, position =>
    match position.settled? with
    | some f => .ok { p with position := .block f name }
    | none => p.misplaced n text
  | .size k, .block f name => do
    let f ← f.withLayout .block n name
    return { p with position := .size f name k }
  | .start l, .size f name k => .ok { p with position := .start f name k l }
  | .stop l, .start f name k first => .ok { p with position := .span f name ⟨k, first, l⟩ }
  | .tally t, .span f name s => .ok { p with position := .tally f name s t }
  | .entry k t, .block f name => do
    let f ← f.withLayout .line n name
    return { p with position := .lines f name (LineMap.empty.addAt k (t.getD .zero)) }
  | .entry k t, .lines f name m =>
    .ok { p with position := .lines f name (m.addAt k (t.getD .zero)) }
  | _, _ => p.misplaced n text

/-- The step of a line where the tallies that are given for one source line must not add up to more
than a counter holds. -/
def checkedStep (p : Progress) (n : Nat) (text : List Char) (line : Line) :
    Except Overflow (Except ReadError Progress) :=
  match line, p.position with
  | .entry k t, .block f name =>
    match f.withLayout .line n name with
    | .error e => .ok (.error e)
    | .ok f => do
      let m ← LineMap.empty.checkedAddAt k (t.getD .zero)
      return .ok { p with position := .lines f name m }
  | .entry k t, .lines f name m => do
    let m ← m.checkedAddAt k (t.getD .zero)
    return .ok { p with position := .lines f name m }
  | line, _ => .ok (p.step n text line)

/-- Reads the numbered lines up to the first blank one. -/
def run (p : Progress) : List (Nat × List Char) → Except ReadError Progress
  | [] => .ok p
  | (n, text) :: rest =>
    match Line.read text with
    | .error bad => .error (.malformed n bad.payload)
    | .ok .blank => .ok p
    | .ok line =>
      match p.step n text line with
      | .ok p => p.run rest
      | .error e => .error e

def checkedRun (p : Progress) : List (Nat × List Char) → Except Overflow (Except ReadError Progress)
  | [] => .ok (.ok p)
  | (n, text) :: rest =>
    match Line.read text with
    | .error bad => .ok (.error (.malformed n bad.payload))
    | .ok .blank => .ok (.ok p)
    | .ok line => do
      match ← p.checkedStep n text line with
      | .ok p => p.checkedRun rest
      | .error e => return .error e

def finish (p : Progress) : Except ReadError (List Func) :=
  match p.settled? with
  | some done => .ok done.reverse
  | none => .error (.unexpectedEnd p.position.expected)

end Progress

/-- Reads an outline. Nothing after the first blank line counts. -/
def read (text : String) : Except ReadError (List Func) := do
  let p ← Progress.start.run (Text.numbered (Text.lines text.toList))
  p.finish

/-- Reads an outline, checking every addition. -/
def checkedRead (text : String) : Except Overflow (Except ReadError (List Func)) := do
  let p ← Progress.start.checkedRun (Text.numbered (Text.lines text.toList))
  return p >>= Progress.finish

end LineCost.Outline
