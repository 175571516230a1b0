/-!
Closed intervals of source lines.
-/

namespace LineCost

/-- The lines from `first` to `last`, both included. -/
structure Interval where
  first : Nat
  last : Nat
  ordered : first ≤ last
  deriving DecidableEq, Repr

/-- How an inner interval lies to an outer one. -/
inductive Containment where
  | equal
  | strict
  /-- The inner interval exceeds the outer one. -/
  | exceeds
  deriving DecidableEq, Repr

namespace Interval

/-- The interval between two lines, whichever comes first. -/
def between (a b : Nat) : Interval := ⟨min a b, max a b, by omega⟩

def point (n : Nat) : Interval := ⟨n, n, Nat.le_refl n⟩

/-- Grows an interval to include a line. -/
def extend (i : Interval) (n : Nat) : Interval :=
  ⟨min i.first n, max i.last n, by have := i.ordered; omega⟩

def includes (i : Interval) (n : Nat) : Bool := i.first ≤ n && n ≤ i.last

theorem includes_iff {i : Interval} {n : Nat} : i.includes n = true ↔ i.first ≤ n ∧ n ≤ i.last := by
  simp [includes]

/-- Growing an interval adds the line and keeps the others. -/
theorem includes_extend {i : Interval} {n m : Nat} (h : i.includes m = true ∨ m = n) :
    (i.extend n).includes m = true := by
  simp only [includes_iff, extend] at *
  omega

def contains (outer inner : Interval) : Bool :=
  outer.first ≤ inner.first && inner.last ≤ outer.last

/-- An interval contains another where it includes all its lines. -/
theorem contains_iff {outer inner : Interval} :
    outer.contains inner = true ↔ ∀ n, inner.includes n = true → outer.includes n = true := by
  have ho := inner.ordered
  simp only [contains, Bool.and_eq_true, decide_eq_true_eq, includes_iff]
  constructor
  · intro h n hn
    omega
  · intro h
    exact ⟨(h inner.first ⟨Nat.le_refl _, ho⟩).1, (h inner.last ⟨ho, Nat.le_refl _⟩).2⟩

def encloses (outer inner : Interval) : Bool := outer != inner && outer.contains inner

def span (i : Interval) : Nat := i.last - i.first

def containment (outer inner : Interval) : Containment :=
  if outer = inner then .equal else if outer.contains inner then .strict else .exceeds

def text (i : Interval) : String := "[" ++ i.first.repr ++ ", " ++ i.last.repr ++ "]"

end Interval

end LineCost
