/-!
Sets of lanes. A repetition with `count` slots, itself on `lanes` lanes, has `count * lanes` lanes
inside: the lane `o` of the slot `t` is the number `t * lanes + o`. A set of lanes is a number whose
bit `i` tells whether the lane `i` is in it, so that one operation serves all lanes at once.

The statements tell of each operation which lanes are in its result (`testBit_onward`,
`testBit_anySlot`, `testBit_next`, `testBit_last`).
-/

namespace LineCost.Pattern

/-- A set together with what it becomes if it is shifted up by up to `2 ^ n - 1` times `width`. -/
def spreadUp : (width n set : Nat) → Nat
  | _, 0, s => s
  | width, n + 1, s => spreadUp (2 * width) n (s ||| s <<< width)

/-- A set together with what it becomes if it is shifted down by up to `2 ^ n - 1` times `width`. -/
def spreadDown : (width n set : Nat) → Nat
  | _, 0, s => s
  | width, n + 1, s => spreadDown (2 * width) n (s ||| s >>> width)

/-- The slots of a repetition, one for each turn that has to be told apart, and the lanes of each
one. -/
structure Slots where
  lanes : Nat
  count : Nat
  deriving DecidableEq

namespace Slots

/-- All lanes of the first `n` slots. -/
def first (k : Slots) (n : Nat) : Nat := 1 <<< (n * k.lanes) - 1

/-- How often a shift has to be doubled to go past every slot. -/
def doublings (k : Slots) : Nat := (2 * k.count - 1).log2

/-- The lanes of a set and the same lanes of all later slots. -/
def onward (k : Slots) (s : Nat) : Nat := spreadUp k.lanes k.doublings s

/-- The lanes that are in some slot of a set. -/
def anySlot (k : Slots) (s : Nat) : Nat := spreadDown k.lanes k.doublings s &&& k.first 1

/-- The lanes of each slot in the slot after it. -/
def next (k : Slots) (s : Nat) : Nat := s <<< k.lanes

/-- The lanes of the last slot. -/
def last (k : Slots) (s : Nat) : Nat :=
  let below := (k.count - 1) * k.lanes
  (s >>> below) <<< below

end Slots

theorem spreadUp_zero {width n : Nat} : spreadUp width n 0 = 0 := by
  induction n generalizing width with
  | zero => rfl
  | succ n ih => simpa [spreadUp] using ih

theorem spreadDown_zero {width n : Nat} : spreadDown width n 0 = 0 := by
  induction n generalizing width with
  | zero => rfl
  | succ n ih => simpa [spreadDown] using ih

theorem testBit_spreadUp {width n s i : Nat} :
    (spreadUp width n s).testBit i = true ↔
      ∃ j < 1 <<< n, j * width ≤ i ∧ s.testBit (i - j * width) = true := by
  induction n generalizing width s with
  | zero => simp [spreadUp]
  | succ n ih =>
    rw [spreadUp, ih]
    simp only [Nat.testBit_or, Nat.testBit_shiftLeft, Bool.or_eq_true, Bool.and_eq_true,
      decide_eq_true_eq]
    have hmul (j : Nat) : j * (2 * width) = 2 * j * width := by
      rw [Nat.mul_comm 2 j, Nat.mul_assoc]
    constructor
    · intro h
      obtain ⟨j, hj, hi, h | ⟨hw, h⟩⟩ := h
      · exact ⟨2 * j, by omega, hmul j ▸ hi, hmul j ▸ h⟩
      · refine ⟨2 * j + 1, by omega, ?_, ?_⟩
        · rw [Nat.add_mul, ← hmul]
          omega
        · rwa [Nat.add_mul, ← hmul, Nat.one_mul, ← Nat.sub_sub]
    · intro h
      obtain ⟨j, hj, hi, h⟩ := h
      refine ⟨j / 2, by omega, ?_⟩
      rw [hmul]
      obtain hr | hr : j = 2 * (j / 2) ∨ j = 2 * (j / 2) + 1 := by omega
      · rw [hr] at hi h
        exact ⟨hi, .inl h⟩
      · rw [hr, Nat.add_mul, Nat.one_mul] at hi h
        exact ⟨by omega, .inr ⟨by omega, by rwa [Nat.sub_sub]⟩⟩

theorem testBit_spreadDown {width n s i : Nat} :
    (spreadDown width n s).testBit i = true ↔
      ∃ j < 1 <<< n, s.testBit (j * width + i) = true := by
  induction n generalizing width s with
  | zero => simp [spreadDown]
  | succ n ih =>
    rw [spreadDown, ih]
    simp only [Nat.testBit_or, Nat.testBit_shiftRight, Bool.or_eq_true]
    have hmul (j : Nat) : j * (2 * width) = 2 * j * width := by
      rw [Nat.mul_comm 2 j, Nat.mul_assoc]
    have hadd (j : Nat) : width + (2 * j * width + i) = (2 * j + 1) * width + i := by
      rw [Nat.add_mul]
      omega
    simp only [hmul, hadd]
    constructor
    · intro h
      obtain ⟨j, hj, h | h⟩ := h
      · exact ⟨2 * j, by omega, h⟩
      · exact ⟨2 * j + 1, by omega, h⟩
    · intro h
      obtain ⟨j, hj, h⟩ := h
      refine ⟨j / 2, by omega, ?_⟩
      obtain hr | hr : j = 2 * (j / 2) ∨ j = 2 * (j / 2) + 1 := by omega
      · exact .inl (hr ▸ h)
      · exact .inr (hr ▸ h)

namespace Slots

variable {k : Slots} {s t o i : Nat}

theorem testBit_first {n : Nat} : (k.first n).testBit i = true ↔ i < n * k.lanes := by
  rw [first, Nat.one_shiftLeft, Nat.testBit_two_pow_sub_one, decide_eq_true_eq]

theorem lane_lt (ho : o < k.lanes) {n : Nat} (ht : t < n) : t * k.lanes + o < n * k.lanes := by
  have := Nat.mul_le_mul_right k.lanes (Nat.succ_le_of_lt ht)
  rw [Nat.succ_mul] at this
  omega

theorem testBit_first_lane (ho : o < k.lanes) {n : Nat} :
    (k.first n).testBit (t * k.lanes + o) = true ↔ t < n := by
  rw [testBit_first]
  refine ⟨fun h => ?_, lane_lt ho⟩
  by_cases ht : t < n
  · exact ht
  · have := Nat.mul_le_mul_right k.lanes (Nat.le_of_not_lt ht)
    omega

theorem lt_two_pow_doublings (ht : t < k.count) : t < 1 <<< k.doublings := by
  have := Nat.lt_log2_self (n := 2 * k.count - 1)
  rw [Nat.pow_succ] at this
  rw [doublings, Nat.one_shiftLeft]
  omega

theorem testBit_onward (ho : o < k.lanes) (ht : t < k.count) :
    (k.onward s).testBit (t * k.lanes + o) = true ↔
      ∃ j ≤ t, s.testBit (j * k.lanes + o) = true := by
  rw [onward, testBit_spreadUp]
  have hsub {j : Nat} (hj : j ≤ t) :
      t * k.lanes + o - j * k.lanes = (t - j) * k.lanes + o := by
    have := Nat.mul_le_mul_right k.lanes hj
    rw [Nat.sub_mul]
    omega
  constructor
  · intro h
    obtain ⟨j, _, hj, h⟩ := h
    have hj : j ≤ t := by
      by_cases hlt : t < j
      · have := lane_lt ho hlt
        omega
      · exact Nat.le_of_not_lt hlt
    exact ⟨t - j, Nat.sub_le _ _, hsub hj ▸ h⟩
  · intro h
    obtain ⟨j, hj, h⟩ := h
    refine ⟨t - j, lt_two_pow_doublings (by omega), ?_, ?_⟩
    · have := Nat.mul_le_mul_right k.lanes (Nat.sub_le t j)
      omega
    · rwa [hsub (Nat.sub_le _ _), Nat.sub_sub_self hj]

theorem testBit_anySlot (ho : o < k.lanes)
    (hs : ∀ t, s.testBit (t * k.lanes + o) = true → t < k.count) :
    (k.anySlot s).testBit o = true ↔ ∃ t < k.count, s.testBit (t * k.lanes + o) = true := by
  rw [anySlot, Nat.testBit_and, Bool.and_eq_true, testBit_spreadDown, testBit_first, Nat.one_mul]
  constructor
  · intro h
    obtain ⟨⟨j, _, h⟩, _⟩ := h
    exact ⟨j, hs j h, h⟩
  · intro h
    obtain ⟨j, hj, h⟩ := h
    exact ⟨⟨j, lt_two_pow_doublings hj, h⟩, ho⟩

theorem testBit_next (ho : o < k.lanes) :
    (k.next s).testBit (t * k.lanes + o) = true ↔
      t ≠ 0 ∧ s.testBit ((t - 1) * k.lanes + o) = true := by
  rw [next, Nat.testBit_shiftLeft, Bool.and_eq_true, decide_eq_true_eq]
  cases t with
  | zero => simp [Nat.not_le_of_lt ho]
  | succ t =>
    have : (t + 1) * k.lanes + o = k.lanes + (t * k.lanes + o) := by
      rw [Nat.add_mul]
      omega
    rw [this, Nat.add_sub_cancel_left, Nat.add_sub_cancel]
    simp

theorem testBit_last (ho : o < k.lanes) (ht : t < k.count) :
    (k.last s).testBit (t * k.lanes + o) = true ↔
      t + 1 = k.count ∧ s.testBit (t * k.lanes + o) = true := by
  rw [last, Nat.testBit_shiftLeft, Bool.and_eq_true, decide_eq_true_eq, Nat.testBit_shiftRight]
  constructor
  · intro h
    obtain ⟨hle, h⟩ := h
    have : ¬ t < k.count - 1 := fun hlt => by
      have := lane_lt ho hlt
      omega
    exact ⟨by omega, by rwa [Nat.add_sub_cancel' hle] at h⟩
  · intro h
    obtain ⟨hc, h⟩ := h
    obtain rfl : t = k.count - 1 := by omega
    exact ⟨Nat.le_add_right _ _, by rwa [Nat.add_sub_cancel_left]⟩

end Slots

end LineCost.Pattern
