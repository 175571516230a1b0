import LineCost.Proofs.Totals
import LineCost.Outline.Basic
import Mathlib.Order.Bounds.Basic

/-!
Pairs of lines that nothing orders. An interval is a pair that was made by ordering two lines, from
one line or by growing another such pair, and the range of a block is made in the first of these
ways.
-/

namespace LineCost

/-- Two lines. -/
structure Bounds where
  first : Nat
  last : Nat
  deriving DecidableEq, Repr

namespace Bounds

/-- The bounds between two lines, whichever comes first. -/
def between (a b : Nat) : Bounds := ⟨min a b, max a b⟩

def point (n : Nat) : Bounds := ⟨n, n⟩

/-- Grows bounds to include a line. -/
def extend (r : Bounds) (n : Nat) : Bounds := ⟨min r.first n, max r.last n⟩

def contains (outer inner : Bounds) : Bool :=
  outer.first ≤ inner.first && inner.last ≤ outer.last

def encloses (outer inner : Bounds) : Bool := outer != inner && outer.contains inner

/-- The bounds that can be made. -/
inductive Made : Bounds → Prop
  | between (a b : Nat) : Made (between a b)
  | point (n : Nat) : Made (point n)
  | extend {r : Bounds} (n : Nat) : Made r → Made (r.extend n)

/-- Whatever makes bounds orders them. -/
theorem Made.ordered {r : Bounds} (h : Made r) : r.first ≤ r.last := by
  induction h with
  | between a b =>
    simp only [Bounds.between]
    omega
  | point n => exact Nat.le_refl n
  | extend n _ ih =>
    simp only [Bounds.extend]
    omega

theorem Made.of_ordered {r : Bounds} (h : r.first ≤ r.last) : Made r := by
  have hr : r = .between r.first r.last := by
    rw [Bounds.between, Nat.min_eq_left h, Nat.max_eq_right h]
  rw [hr]
  exact .between _ _

end Bounds

namespace Interval

def bounds (i : Interval) : Bounds := ⟨i.first, i.last⟩

theorem bounds_inj {i j : Interval} : i.bounds = j.bounds ↔ i = j := by
  cases i
  cases j
  simp [bounds]

theorem bounds_between (a b : Nat) : (between a b).bounds = .between a b := rfl

theorem encloses_bounds (outer inner : Interval) :
    outer.bounds.encloses inner.bounds = outer.encloses inner := by
  have hne : (outer.bounds != inner.bounds) = (outer != inner) := by
    rw [Bool.eq_iff_iff, bne_iff_ne, bne_iff_ne, ne_eq, ne_eq, bounds_inj]
  rw [Bounds.encloses, encloses, hne]
  rfl

end Interval

/-- The intervals are the bounds that can be made. -/
theorem Bounds.made_iff {r : Bounds} : r.Made ↔ ∃ i : Interval, i.bounds = r := by
  constructor
  · intro h
    exact ⟨⟨r.first, r.last, h.ordered⟩, rfl⟩
  · rintro ⟨i, rfl⟩
    exact .of_ordered i.ordered

/-- The bounds of the lines that stand for a place in the source. -/
def LineMap.bounds? (m : LineMap) : Option Bounds :=
  match m.validLines with
  | [] => none
  | first :: rest => some (.between first (rest.getLast?.getD first))

/-- The bounds of what lies between two ends, if both stand for a place in the source, and of the
recorded lines if not. -/
def boundsOf? (start stop : Option Location) (m : LineMap) : Option Bounds :=
  match start, stop with
  | some s, some t => if s.isValid && t.isValid then some (.between s.line t.line) else m.bounds?
  | _, _ => m.bounds?

/-- Two ends that both stand for a place in the source, one in line `a` and the other in `b`. -/
def BothEnds (start stop : Option Location) (a b : Nat) : Prop :=
  ∃ s t, start = some s ∧ stop = some t ∧ s.line = a ∧ t.line = b ∧ a ≠ 0 ∧ b ≠ 0

/-- What the bounds of a block are, by its ends and the lines that are recorded for it. -/
structure BoundedBy (start stop : Option Location) (m : LineMap) (r? : Option Bounds) : Prop where
  none_iff : r? = none ↔ (¬ ∃ a b, BothEnds start stop a b) ∧ ∀ n ∈ m.lines, n = 0
  ends : ∀ a b, BothEnds start stop a b → r? = some ⟨min a b, max a b⟩
  recorded : (¬ ∃ a b, BothEnds start stop a b) → ∀ r, r? = some r →
    IsLeast {n | n ∈ m.lines ∧ n ≠ 0} r.first ∧ IsGreatest {n | n ∈ m.lines ∧ n ≠ 0} r.last

namespace LineMap

variable {m : LineMap} {first : Nat} {rest : List Nat} {r : Bounds}

theorem validLines_ascending (m : LineMap) : m.validLines.Pairwise (· < ·) :=
  (List.pairwise_map.2 m.ascending).filter _

theorem bounds?_eq_none_iff : m.bounds? = none ↔ ∀ n ∈ m.lines, n = 0 := by
  have hnil : m.bounds? = none ↔ m.validLines = [] := by
    rw [bounds?]
    split <;> simp [*]
  rw [hnil, validLines, List.filter_eq_nil_iff]
  simp

/-- The last of ascending lines that begin with `first`. -/
theorem isGreatest_getLast (h : (first :: rest).Pairwise (· < ·)) :
    IsGreatest {n | n ∈ first :: rest} (rest.getLast?.getD first) := by
  induction rest generalizing first with
  | nil => simp [IsGreatest, upperBounds]
  | cons second rest ih =>
    obtain ⟨hfirst, hrest⟩ := List.pairwise_cons.1 h
    obtain ⟨hmem, hmax⟩ := ih hrest
    rw [List.getLast?_cons, Option.getD_some]
    refine ⟨List.mem_cons_of_mem _ hmem, ?_⟩
    intro n hn
    rcases List.mem_cons.1 hn with rfl | hn
    · exact (hfirst _ hmem).le
    · exact hmax hn

theorem bounds?_spec (h : m.bounds? = some r) :
    IsLeast {n | n ∈ m.lines ∧ n ≠ 0} r.first ∧ IsGreatest {n | n ∈ m.lines ∧ n ≠ 0} r.last := by
  have hlines : {n | n ∈ m.lines ∧ n ≠ 0} = {n | n ∈ m.validLines} := by
    ext n
    rw [Set.mem_ofPred_eq, Set.mem_ofPred_eq, mem_validLines_iff, and_comm, Nat.pos_iff_ne_zero]
  rw [hlines]
  have hascending := m.validLines_ascending
  rw [bounds?] at h
  split at h
  · cases h
  · rename_i first rest hvalid
    rw [hvalid] at hascending ⊢
    have hlast := isGreatest_getLast hascending
    have hle : first ≤ rest.getLast?.getD first := hlast.2 List.mem_cons_self
    cases h
    rw [Bounds.between, Nat.min_eq_left hle, Nat.max_eq_right hle]
    refine ⟨⟨List.mem_cons_self, ?_⟩, hlast⟩
    intro n hn
    rcases List.mem_cons.1 hn with rfl | hn
    · exact Nat.le_refl _
    · exact ((List.pairwise_cons.1 hascending).1 n hn).le

end LineMap

theorem boundsOf?_of_ends {start stop : Option Location} {a b : Nat} (m : LineMap)
    (h : BothEnds start stop a b) : boundsOf? start stop m = some (.between a b) := by
  obtain ⟨s, t, rfl, rfl, rfl, rfl, hs, ht⟩ := h
  simp [boundsOf?, Location.isValid, Nat.pos_of_ne_zero hs, Nat.pos_of_ne_zero ht]

theorem boundsOf?_of_not_ends {start stop : Option Location} (m : LineMap)
    (h : ¬ ∃ a b, BothEnds start stop a b) : boundsOf? start stop m = m.bounds? := by
  fun_cases boundsOf? start stop m with
  | case1 s t hvalid =>
    simp only [Location.isValid, Bool.and_eq_true, decide_eq_true_eq] at hvalid
    exact absurd ⟨s.line, t.line, s, t, rfl, rfl, rfl, rfl, hvalid.1.ne', hvalid.2.ne'⟩ h
  | case2 => rfl
  | case3 => rfl

theorem boundsOf?_boundedBy (start stop : Option Location) (m : LineMap) :
    BoundedBy start stop m (boundsOf? start stop m) := by
  by_cases h : ∃ a b, BothEnds start stop a b
  · obtain ⟨a, b, hends⟩ := h
    have hsome := boundsOf?_of_ends m hends
    refine ⟨?_, fun c d hends' => boundsOf?_of_ends m hends', fun hnot => ?_⟩
    · rw [hsome]
      simp only [reduceCtorEq, false_iff, not_and]
      intro hnot
      exact absurd ⟨a, b, hends⟩ hnot
    · exact absurd ⟨a, b, hends⟩ hnot
  · have heq := boundsOf?_of_not_ends m h
    refine ⟨?_, fun a b hends => absurd ⟨a, b, hends⟩ h, fun _ r hr => ?_⟩
    · rw [heq, LineMap.bounds?_eq_none_iff, and_iff_right h]
    · exact LineMap.bounds?_spec (heq.symm.trans hr)

namespace Outline.Block

/-- The bounds of a block. -/
def bounds? (b : Block) : Option Bounds :=
  boundsOf? (b.span.map Span.start) (b.span.map Span.stop) b.lines

theorem recordedRange?_bounds (b : Block) :
    b.recordedRange?.map Interval.bounds = b.lines.bounds? := by
  rw [recordedRange?, LineMap.bounds?]
  cases hvalid : b.lines.validLines with
  | nil => rfl
  | cons first rest =>
    have hlast : (first :: rest).getLast (List.cons_ne_nil _ _) = rest.getLast?.getD first := by
      rw [← Option.some_inj, ← List.getLast?_eq_some_getLast, List.getLast?_cons]
    rw [Option.map_some, Interval.bounds_between, hlast]

/-- The range of a block is an interval with its bounds. -/
theorem range?_bounds (b : Block) : b.range?.map Interval.bounds = b.bounds? := by
  rw [range?, bounds?]
  cases b.span with
  | none => exact b.recordedRange?_bounds
  | some s =>
    simp only [Option.map_some, boundsOf?]
    split
    · rfl
    · exact b.recordedRange?_bounds

end Outline.Block

end LineCost
