import LineCost.Cost.Basic
import LineCost.Counter
import LineCost.Text.Lines

/-!
Tallies of instructions and cycles, and their text: seven counters between commas. The sums are
those of the numbers; a program that keeps its counters adds with the functions that are checked.
-/

namespace LineCost

/-- How many instructions of each category there are, and how many cycles they take together. -/
structure Tally where
  branch : Nat
  load : Nat
  store : Nat
  arithmetic : Nat
  floatingPoint : Nat
  other : Nat
  cycles : Nat
  deriving DecidableEq, Repr

namespace Tally

def zero : Tally := ⟨0, 0, 0, 0, 0, 0, 0⟩

instance : Inhabited Tally := ⟨zero⟩

def add (t u : Tally) : Tally where
  branch := t.branch + u.branch
  load := t.load + u.load
  store := t.store + u.store
  arithmetic := t.arithmetic + u.arithmetic
  floatingPoint := t.floatingPoint + u.floatingPoint
  other := t.other + u.other
  cycles := t.cycles + u.cycles

instance : Add Tally := ⟨add⟩

theorem add_def (t u : Tally) : t + u = t.add u := rfl

theorem add_comm (t u : Tally) : t + u = u + t := by
  simp only [add_def, add, Nat.add_comm]

theorem add_assoc (t u v : Tally) : t + u + v = t + (u + v) := by
  simp only [add_def, add, Nat.add_assoc]

@[simp] theorem zero_add (t : Tally) : zero + t = t := by
  simp only [add_def, add, zero, Nat.zero_add]

@[simp] theorem add_zero (t : Tally) : t + zero = t := by
  simp only [add_def, add, zero, Nat.add_zero]

@[simp] theorem cycles_add (t u : Tally) : (t + u).cycles = t.cycles + u.cycles := rfl

def sum (ts : List Tally) : Tally := ts.foldr (· + ·) zero

@[simp] theorem sum_nil : sum [] = zero := rfl

@[simp] theorem sum_cons (t : Tally) (ts : List Tally) : sum (t :: ts) = t + sum ts := rfl

theorem sum_append (ts us : List Tally) : sum (ts ++ us) = sum ts + sum us := by
  induction ts with
  | nil => simp
  | cons t ts ih => simp [ih, add_assoc]

/-- The counter of a category; nothing is kept of what is ignored. -/
def count? (t : Tally) : Category → Option Nat
  | .branch => some t.branch
  | .load => some t.load
  | .store => some t.store
  | .arithmetic => some t.arithmetic
  | .floatingPoint => some t.floatingPoint
  | .other => some t.other
  | .ignore => none

/-- The tally of one instruction. -/
def ofCost (c : Cost) : Tally :=
  match c.category with
  | .branch => { zero with branch := 1, cycles := c.cycles }
  | .load => { zero with load := 1, cycles := c.cycles }
  | .store => { zero with store := 1, cycles := c.cycles }
  | .arithmetic => { zero with arithmetic := 1, cycles := c.cycles }
  | .floatingPoint => { zero with floatingPoint := 1, cycles := c.cycles }
  | .other => { zero with other := 1, cycles := c.cycles }
  | .ignore => zero

def record (t : Tally) (c : Cost) : Tally := t + ofCost c

def instructions (t : Tally) : Nat :=
  t.branch + t.load + t.store + t.arithmetic + t.floatingPoint + t.other

theorem instructions_add (t u : Tally) :
    (t + u).instructions = t.instructions + u.instructions := by
  simp only [add_def, add, instructions]
  omega

def checkedAdd (t u : Tally) : Except Overflow Tally := do
  let branch ← LineCost.checkedAdd t.branch u.branch
  let load ← LineCost.checkedAdd t.load u.load
  let store ← LineCost.checkedAdd t.store u.store
  let arithmetic ← LineCost.checkedAdd t.arithmetic u.arithmetic
  let floatingPoint ← LineCost.checkedAdd t.floatingPoint u.floatingPoint
  let other ← LineCost.checkedAdd t.other u.other
  let cycles ← LineCost.checkedAdd t.cycles u.cycles
  return ⟨branch, load, store, arithmetic, floatingPoint, other, cycles⟩

def checkedSum (ts : List Tally) : Except Overflow Tally := ts.foldlM checkedAdd zero

/-- Adds up what is computed for each member of a list. -/
def checkedSumOf {α : Type} (f : α → Except Overflow Tally) (as : List α) : Except Overflow Tally :=
  as.foldlM (fun sum a => do sum.checkedAdd (← f a)) zero

/-- Sets the counter of a category; there is none for what is ignored. -/
def setCount (t : Tally) (n : Nat) : Category → Tally
  | .branch => { t with branch := n }
  | .load => { t with load := n }
  | .store => { t with store := n }
  | .arithmetic => { t with arithmetic := n }
  | .floatingPoint => { t with floatingPoint := n }
  | .other => { t with other := n }
  | .ignore => t

/-- Counts one instruction in the counter of its category, and its cycles. -/
def checkedRecord (t : Tally) (c : Cost) : Except Overflow Tally :=
  match t.count? c.category with
  | none => .ok t
  | some n => do
    let n ← LineCost.checkedAdd n 1
    let cycles ← LineCost.checkedAdd t.cycles c.cycles
    return { t.setCount n c.category with cycles }

def checkedInstructions (t : Tally) : Except Overflow Nat := do
  let n ← LineCost.checkedAdd t.branch t.load
  let n ← LineCost.checkedAdd n t.store
  let n ← LineCost.checkedAdd n t.arithmetic
  let n ← LineCost.checkedAdd n t.floatingPoint
  LineCost.checkedAdd n t.other

/-- A tally without cycles counts as nothing, whatever its other counters. -/
def isEmpty (t : Tally) : Bool := t.cycles == 0

/-- Hands a tally out: what is taken, and what stays behind, which can not be taken again. -/
def take? (t : Tally) : Option (Tally × Tally) :=
  if t.isEmpty then none else some (t, { t with cycles := 0 })

/-- The counters in the order in which they are written. -/
def fields (t : Tally) : List Nat :=
  [t.branch, t.load, t.store, t.arithmetic, t.floatingPoint, t.other, t.cycles]

def ofFields? : List Nat → Option Tally
  | [b, l, s, a, f, o, c] => some ⟨b, l, s, a, f, o, c⟩
  | _ => none

def text (t : Tally) : String := ", ".intercalate (t.fields.map Nat.repr)

/-- Reads seven counters between commas, each with blanks around it if it likes. -/
def read? (s : List Char) : Option Tally := do
  let counters ← (Text.pieces ',' s).mapM fun p =>
    Text.readNumber? Text.counterLimit (Text.trim p)
  ofFields? counters

def readFault (s : String) : String := "expected 7 comma-separated counters, got `" ++ s ++ "`"

end Tally

end LineCost
