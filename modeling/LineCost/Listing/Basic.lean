import LineCost.LineMap
import LineCost.Source.Interval
import LineCost.Source.Location

/-!
What an assembly listing tells about its functions: their labelled blocks, and the cost of their
source lines.
-/

namespace LineCost.Listing

/-- A run of instructions from one label to the next. -/
structure Block where
  /-- The number of the label; instructions before the first label have none. -/
  id : Option Nat
  name : String
  /-- The source lines that the block is known to cover. -/
  range : Option Interval
  tally : Tally
  deriving DecidableEq

namespace Block

def new (id : Option Nat) (name : String) : Block := ⟨id, name, none, .zero⟩

def implicit : Block := new none "entry"

/-- The block of a label, which may have a name of its own. -/
def labelled (id : Nat) (name : Option String) : Block :=
  new (some id) (name.getD ("bb." ++ id.repr))

def cover (b : Block) (n : Nat) : Block :=
  { b with range := some ((b.range.map (·.extend n)).getD (.point n)) }

def record (b : Block) (c : Cost) : Block := { b with tally := b.tally.record c }

end Block

/-- A function between its two marks. -/
structure Func where
  name : String
  /-- The first location of the function, which also says which file is its own; no file and line 0
  if there is none. -/
  decl : Location
  blocks : List Block
  /-- The cost of each line of the function's own file. -/
  lines : LineMap
  deriving DecidableEq

namespace Func

def total (f : Func) : Tally := Tally.sum (f.blocks.map Block.tally)

end Func

end LineCost.Listing
