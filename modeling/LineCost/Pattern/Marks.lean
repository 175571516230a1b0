import LineCost.Pattern.Track

/-!
Reading a text along a track, one character after another. The marks tell how far the pieces have
got that have been begun, in each lane.
-/

namespace LineCost.Pattern

/-- The marks on a track: the lanes in which its first part, or a turn of it, has just ended, and
the marks inside. -/
inductive Marks where
  | clear
  | node (ended : Nat) (first second : Marks)
  deriving DecidableEq

namespace Marks

def ended : Marks → Nat
  | clear => 0
  | node n _ _ => n

def first : Marks → Marks
  | clear => clear
  | node _ a _ => a

def second : Marks → Marks
  | clear => clear
  | node _ _ b => b

/-- Marks put together. Where nothing is marked, they are clear. -/
def of (ended : Nat) (first second : Marks) : Marks :=
  match ended, first, second with
  | 0, clear, clear => clear
  | n, a, b => node n a b

theorem ended_of {n : Nat} {a b : Marks} : (of n a b).ended = n := by
  unfold of
  split <;> rfl

theorem first_of {n : Nat} {a b : Marks} : (of n a b).first = a := by
  unfold of
  split <;> rfl

theorem second_of {n : Nat} {a b : Marks} : (of n a b).second = b := by
  unfold of
  split <;> rfl

end Marks

/-- A character that is read, its fold, and whether nothing stands before it or after it. -/
structure Reading where
  char : Char
  fold : Nat
  atStart : Bool
  atEnd : Bool

namespace Slots

/-- The lanes in which a turn begins: the first one from `entry`, the next one where one has ended,
and where turns may be idle also every later one. -/
def enter (k : Slots) (endless idle : Bool) (entry ended : Nat) : Nat :=
  let begun := entry &&& k.first 1 ||| k.next ended ||| (if endless then k.last ended else 0)
  (if idle then k.onward begun else begun) &&& k.first k.count

/-- The lanes in which a repetition ends with the turns that have ended: no more of them are owed,
or they may be idle. -/
def leave (k : Slots) (least : Nat) (idle : Bool) (ended : Nat) : Nat :=
  k.anySlot (if idle then ended else ended >>> ((least - 1) * k.lanes))

variable {k : Slots} {o t entry ended least : Nat} {endless idle : Bool}

theorem testBit_enter (ho : o < k.lanes) (ht : t < k.count) :
    (k.enter endless idle entry ended).testBit (t * k.lanes + o) = true ↔
      ∃ j ≤ t, (j = t ∨ idle = true) ∧
        (j = 0 ∧ entry.testBit o = true ∨
          j ≠ 0 ∧ ended.testBit ((j - 1) * k.lanes + o) = true ∨
          endless = true ∧ j + 1 = k.count ∧ ended.testBit (j * k.lanes + o) = true) := by
  have hbegun {j : Nat} (hj : j < k.count) :
      (entry &&& k.first 1 ||| k.next ended ||| (if endless then k.last ended else 0)).testBit
          (j * k.lanes + o) = true ↔
        j = 0 ∧ entry.testBit o = true ∨
          j ≠ 0 ∧ ended.testBit ((j - 1) * k.lanes + o) = true ∨
          endless = true ∧ j + 1 = k.count ∧ ended.testBit (j * k.lanes + o) = true := by
    have hlast : (if endless = true then k.last ended else 0).testBit (j * k.lanes + o) = true ↔
        endless = true ∧ (k.last ended).testBit (j * k.lanes + o) = true := by
      cases endless <;> simp
    have hentry : (entry &&& k.first 1).testBit (j * k.lanes + o) = true ↔
        j = 0 ∧ entry.testBit o = true := by
      rw [Nat.testBit_and, Bool.and_eq_true, testBit_first_lane ho, Nat.lt_one_iff, and_comm]
      refine and_congr_right fun hj => ?_
      rw [hj, Nat.zero_mul, Nat.zero_add]
    rw [Nat.testBit_or, Nat.testBit_or, Bool.or_eq_true, Bool.or_eq_true, hlast, hentry,
      testBit_next ho, testBit_last ho hj, or_assoc]
  rw [enter, Nat.testBit_and, Bool.and_eq_true, testBit_first_lane ho]
  cases idle with
  | false =>
    simp only [Bool.false_eq_true, or_false, if_false]
    rw [hbegun ht]
    constructor
    · intro h
      obtain ⟨h, _⟩ := h
      exact ⟨t, Nat.le_refl t, rfl, h⟩
    · intro h
      obtain ⟨j, _, rfl, h⟩ := h
      exact ⟨h, ht⟩
  | true =>
    simp only [or_true, true_and, if_true]
    rw [testBit_onward ho ht]
    constructor
    · intro h
      obtain ⟨⟨j, hj, h⟩, _⟩ := h
      exact ⟨j, hj, (hbegun (Nat.lt_of_le_of_lt hj ht)).1 h⟩
    · intro h
      obtain ⟨j, hj, h⟩ := h
      exact ⟨⟨j, hj, (hbegun (Nat.lt_of_le_of_lt hj ht)).2 h⟩, ht⟩

theorem testBit_leave (ho : o < k.lanes) :
    (k.leave least idle (ended &&& k.first k.count)).testBit o = true ↔
      ∃ t < k.count, (least ≤ t + 1 ∨ idle = true) ∧ ended.testBit (t * k.lanes + o) = true := by
  have hended {t : Nat} : (ended &&& k.first k.count).testBit (t * k.lanes + o) = true ↔
      t < k.count ∧ ended.testBit (t * k.lanes + o) = true := by
    rw [Nat.testBit_and, Bool.and_eq_true, testBit_first_lane ho, and_comm]
  rw [leave]
  cases idle with
  | true =>
    simp only [or_true, true_and, if_true]
    rw [testBit_anySlot ho fun t h => (hended.1 h).1]
    simp only [hended, and_self_left]
  | false =>
    simp only [Bool.false_eq_true, or_false, if_false]
    have hshift {t : Nat} :
        ((ended &&& k.first k.count) >>> ((least - 1) * k.lanes)).testBit (t * k.lanes + o) =
            true ↔
          least - 1 + t < k.count ∧ ended.testBit ((least - 1 + t) * k.lanes + o) = true := by
      rw [Nat.testBit_shiftRight, ← Nat.add_assoc, ← Nat.add_mul, hended]
    rw [testBit_anySlot ho fun t h => by have := (hshift.1 h).1; omega]
    simp only [hshift]
    constructor
    · intro h
      obtain ⟨t, _, ht, h⟩ := h
      exact ⟨_, ht, by omega, h⟩
    · intro h
      obtain ⟨t, ht, hle, h⟩ := h
      refine ⟨t - (least - 1), by omega, ?_⟩
      rw [Nat.add_sub_cancel' (by omega)]
      exact ⟨ht, h⟩

theorem enter_zero : k.enter endless idle 0 0 = 0 := by
  simp [enter, next, last, onward, spreadUp_zero]

theorem leave_zero : k.leave least idle 0 = 0 := by
  simp [leave, anySlot, spreadDown_zero]

end Slots

namespace Track

/-- The marks after a character, and the lanes in which a piece ends with it, where a piece may
begin in front of it in the lanes `entry`. -/
def read (r : Reading) : Track → Marks → (entry : Nat) → Marks × Nat
  | _, .clear, 0 => (.clear, 0)
  | .still, _, _ => (.clear, 0)
  | .letter n, _, entry => (.clear, if n = r.fold then entry else 0)
  | .one s, _, entry => (.clear, if s.contains r.char then entry else 0)
  | .seq before after a b, m, entry =>
    let x := a.read r m.first entry
    let y := b.read r m.second (m.ended ||| if before.allow r.atStart false then entry else 0)
    (.of x.2 x.1 y.1, y.2 ||| if after.allow false r.atEnd then x.2 else 0)
  | .alt a b, m, entry =>
    let x := a.read r m.first entry
    let y := b.read r m.second entry
    (.of 0 x.1 y.1, x.2 ||| y.2)
  | .repeated inner k least endless a, m, entry =>
    let x := a.read r m.first (k.enter endless (inner.allow r.atStart false) entry m.ended)
    let ended := x.2 &&& k.first k.count
    (.of ended x.1 .clear, k.leave least (inner.allow false r.atEnd) ended)

variable {r : Reading} {a b : Track} {m : Marks} {entry : Nat}

theorem read_clear_zero : a.read r .clear 0 = (.clear, 0) := by
  cases a <;> rfl

/-! Where there is nothing to go on with, `read` gives at once what it would come to. -/

theorem read_still : still.read r m entry = (.clear, 0) := by
  match m, entry with
  | .clear, 0 => rfl
  | .clear, _ + 1 => rfl
  | .node _ _ _, _ => rfl

theorem read_letter {n : Nat} :
    (letter n).read r m entry = (.clear, if n = r.fold then entry else 0) := by
  match m, entry with
  | .clear, 0 => rw [read_clear_zero, ite_self]
  | .clear, _ + 1 => rfl
  | .node _ _ _, _ => rfl

theorem read_one {s : CharSet} :
    (one s).read r m entry = (.clear, if s.contains r.char then entry else 0) := by
  match m, entry with
  | .clear, 0 => rw [read_clear_zero, ite_self]
  | .clear, _ + 1 => rfl
  | .node _ _ _, _ => rfl

theorem read_seq {before after : Skips} {x y : Marks × Nat} (hx : a.read r m.first entry = x)
    (hy : b.read r m.second (m.ended ||| if before.allow r.atStart false then entry else 0) = y) :
    (seq before after a b).read r m entry =
      (.of x.2 x.1 y.1, y.2 ||| if after.allow false r.atEnd then x.2 else 0) := by
  subst hx hy
  match m, entry with
  | .clear, 0 => simp [read_clear_zero, Marks.first, Marks.second, Marks.ended, Marks.of]
  | .clear, _ + 1 => rfl
  | .node _ _ _, _ => rfl

theorem read_alt {x y : Marks × Nat} (hx : a.read r m.first entry = x)
    (hy : b.read r m.second entry = y) :
    (alt a b).read r m entry = (.of 0 x.1 y.1, x.2 ||| y.2) := by
  subst hx hy
  match m, entry with
  | .clear, 0 => simp [read_clear_zero, Marks.first, Marks.second, Marks.of]
  | .clear, _ + 1 => rfl
  | .node _ _ _, _ => rfl

theorem read_repeated {inner : Skips} {k : Slots} {least : Nat} {endless : Bool}
    {x : Marks × Nat}
    (hx : a.read r m.first (k.enter endless (inner.allow r.atStart false) entry m.ended) = x) :
    (repeated inner k least endless a).read r m entry =
      (.of (x.2 &&& k.first k.count) x.1 .clear,
        k.leave least (inner.allow false r.atEnd) (x.2 &&& k.first k.count)) := by
  subst hx
  match m, entry with
  | .clear, 0 =>
    simp [read_clear_zero, Marks.first, Marks.ended, Marks.of, Slots.enter_zero, Slots.leave_zero]
  | .clear, _ + 1 => rfl
  | .node _ _ _, _ => rfl

end Track

end LineCost.Pattern
