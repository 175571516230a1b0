import Std.Data.HashMap

/-!
An automaton in the making. Its states are numbered as they are made, and it may not grow beyond
`sizeLimit` bytes.

States with the same parts can be one state. The table in which they are looked up has a limited
number of slots, and the parts of a state determine its slot: a state that finds its slot taken by
another one is made anew, and takes the slot over.
-/

namespace LineCost.Pattern

/-- How many bytes an automaton may take. -/
def sizeLimit : Nat := 10485760

def stateSize : Nat := 32

/-- What a transition takes in a state with several. -/
def edgeSize : Nat := 8

/-- What a way out of a state takes that reads nothing. -/
def branchSize : Nat := 4

structure Automaton where
  /-- The number of states, which is the number that the next one gets. -/
  states : Nat
  bytes : Nat
  /-- What the slots hold: the parts of a state, and its number. -/
  shared : Std.HashMap UInt64 (List Nat × Nat)

namespace Automaton

def start : Automaton := ⟨0, 0, ∅⟩

/-- A step of the construction. There is no result where the automaton becomes too large. -/
abbrev Build := StateT Automaton Option

/-- Makes something larger that is there already. -/
def grow (bytes : Nat) : Build Unit := fun a =>
  if a.bytes + bytes ≤ sizeLimit then some ((), { a with bytes := a.bytes + bytes }) else none

/-- Makes a state, with so many bytes beyond those of any state. -/
def state (bytes : Nat) : Build Nat := do
  grow (stateSize + bytes)
  modifyGet fun a => (a.states, { a with states := a.states + 1 })

/-- The slot of a state with these parts. -/
def slot (slots : UInt64) (parts : List Nat) : UInt64 :=
  parts.foldl (fun h n => (h ^^^ n.toUInt64) * 1099511628211) 14695981039346656037 % slots

/-- The state with these parts that its slot holds, or else a new one. -/
def reuse (slots : UInt64) (parts : List Nat) (bytes : Nat) : Build Nat := do
  let slot := slot slots parts
  let held := ((← get).shared[slot]?).filter (·.1 = parts)
  match held with
  | some (_, number) => return number
  | none =>
    let number ← state bytes
    modify fun a => { a with shared := a.shared.insert slot (parts, number) }
    return number

/-- From here on, no state that has been made before is found. -/
def forget : Build Unit := modify fun a => { a with shared := ∅ }

end Automaton

end LineCost.Pattern
