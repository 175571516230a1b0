/-!
What one instruction costs: the category that it is counted under, and cycles.
-/

namespace LineCost

inductive Category where
  | branch
  | load
  | store
  | arithmetic
  | floatingPoint
  | other
  /-- Pseudo-operations, directives and unknown mnemonics. -/
  | ignore
  deriving DecidableEq, Repr

namespace Category

/-- The categories that are counted, in the order in which counters are written. -/
def counted : List Category := [.branch, .load, .store, .arithmetic, .floatingPoint, .other]

def all : List Category := counted ++ [.ignore]

def isCounted : Category → Bool
  | .ignore => false
  | _ => true

def name : Category → String
  | .branch => "branch"
  | .load => "load"
  | .store => "store"
  | .arithmetic => "arithmetic"
  | .floatingPoint => "floating-point"
  | .other => "other"
  | .ignore => "ignore"

def ofName? (s : String) : Option Category := all.find? (·.name == s)

end Category

structure Cost where
  category : Category
  cycles : Nat
  deriving DecidableEq, Repr

namespace Cost

/-- The cost of a mnemonic that no rule matches. -/
def none : Cost := ⟨.ignore, 0⟩

def isCounted (c : Cost) : Bool := c.category.isCounted

end Cost

end LineCost
