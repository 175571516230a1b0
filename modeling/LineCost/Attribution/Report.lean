/-!
The account of an attribution: how many functions and blocks were treated in which way.
-/

namespace LineCost.Attribution

/-- What became of a block of a function that has assembly. -/
inductive Outcome where
  | skipped
  /-- It got costs of its own. -/
  | matched
  /-- It got costs only by its range. -/
  | fallback
  /-- It got no costs. -/
  | unresolved
  deriving DecidableEq, Repr

structure Report where
  functionsMatched : Nat
  functionsUnmatched : Nat
  blocksMatched : Nat
  blocksFallback : Nat
  blocksUnresolved : Nat
  blocksSkipped : Nat
  deriving DecidableEq, Repr

namespace Report

def zero : Report := ⟨0, 0, 0, 0, 0, 0⟩

def add (r s : Report) : Report where
  functionsMatched := r.functionsMatched + s.functionsMatched
  functionsUnmatched := r.functionsUnmatched + s.functionsUnmatched
  blocksMatched := r.blocksMatched + s.blocksMatched
  blocksFallback := r.blocksFallback + s.blocksFallback
  blocksUnresolved := r.blocksUnresolved + s.blocksUnresolved
  blocksSkipped := r.blocksSkipped + s.blocksSkipped

instance : Add Report := ⟨add⟩

def sum (rs : List Report) : Report := rs.foldr (· + ·) zero

/-- A function with assembly, and the outcomes of its blocks. -/
def ofMatched (outcomes : List Outcome) : Report where
  functionsMatched := 1
  functionsUnmatched := 0
  blocksMatched := outcomes.count .matched
  blocksFallback := outcomes.count .fallback
  blocksUnresolved := outcomes.count .unresolved
  blocksSkipped := outcomes.count .skipped

/-- A function without assembly: of its blocks only those that are skipped are counted. -/
def ofUnmatched (skipped : Nat) : Report :=
  { zero with functionsUnmatched := 1, blocksSkipped := skipped }

end Report

end LineCost.Attribution
