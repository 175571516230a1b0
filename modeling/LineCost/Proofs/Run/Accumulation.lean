import LineCost.Proofs.Checked
import LineCost.Proofs.Run.Counters
import LineCost.Proofs.Text.Lines
import Mathlib.Algebra.BigOperators.Group.List.Basic
import Mathlib.Algebra.GroupWithZero.Nat
import Mathlib.Data.List.Nodup

/-!
Counters over many runs. Whatever modules are called, each counter of a module adds up what the runs
of that module have for it and nothing else, in whatever order the runs are recorded, and recording
goes on for as long as there is room for these sums.
-/

namespace LineCost

namespace Metrics

/-- What one run has to record. -/
structure RunRecord where
  module : String
  report : Attribution.Report
  total : Tally

/-- The counters that a module has. -/
inductive Metric where
  | functionsMatched
  | functionsUnmatched
  | blocksMatched
  | blocksFallback
  | blocksUnresolved
  | blocksSkipped
  | instructions
  | cycles
  deriving DecidableEq, Repr

namespace Metric

def all : List Metric :=
  [.functionsMatched, .functionsUnmatched, .blocksMatched, .blocksFallback, .blocksUnresolved,
    .blocksSkipped, .instructions, .cycles]

def name : Metric → String
  | functionsMatched => "inststat_functions_matched_total"
  | functionsUnmatched => "inststat_functions_unmatched_total"
  | blocksMatched => "inststat_blocks_matched_total"
  | blocksFallback => "inststat_blocks_fallback_total"
  | blocksUnresolved => "inststat_blocks_unresolved_total"
  | blocksSkipped => "inststat_blocks_skipped_total"
  | instructions => "inststat_instructions_total"
  | cycles => "inststat_cycles_total"

/-- The text by which the counter of a module is kept. -/
def key (k : Metric) (module : String) : String := k.name ++ "\x7bmodule=" ++ module ++ "\x7d"

/-- What a run has for a counter. -/
def value (r : RunRecord) : Metric → Nat
  | functionsMatched => r.report.functionsMatched
  | functionsUnmatched => r.report.functionsUnmatched
  | blocksMatched => r.report.blocksMatched
  | blocksFallback => r.report.blocksFallback
  | blocksUnresolved => r.report.blocksUnresolved
  | blocksSkipped => r.report.blocksSkipped
  | instructions => r.total.branch + r.total.load + r.total.store + r.total.arithmetic +
      r.total.floatingPoint + r.total.other
  | cycles => r.total.cycles

end Metric

variable {values values' : List (CounterKey × Nat)} {runs runs' : List RunRecord} {m m' : Metrics}
  {module key : String} {k k' : Metric} {n : Nat}

/-- The additions that record a run. -/
def RunRecord.additions (r : RunRecord) : List (CounterKey × Nat) :=
  Metric.all.map fun k => (CounterKey.ofRun r.module k.name, k.value r)

section Checked

theorem alterList_congr {f g : Option Nat → Nat} {l : List (String × Nat)}
    (h : f (l.lookup key) = g (l.lookup key)) : alterList f key l = alterList g key l := by
  induction l with
  | nil => exact congrArg (fun n => [(key, n)]) h
  | cons e l ih =>
    obtain ⟨name, v⟩ := e
    rw [alterList, alterList]
    by_cases hn : name = key
    · rw [if_pos hn, if_pos hn]
      have hv : f (some v) = g (some v) := by simpa [hn] using h
      rw [hv]
    · rw [if_neg hn, if_neg hn, ih]
      simpa [List.lookup_cons, beq_eq_false_iff_ne.2 (Ne.symm hn)] using h

theorem checkedIncrement_eq_ok_iff {key : CounterKey} :
    m.checkedIncrement key n = .ok m' ↔
      (m.get? key.text).getD 0 + n ≤ Text.counterLimit ∧ m.increment key n = m' := by
  -- to set a counter to its sum is to add to it
  have hset : m.absolute key ((m.get? key.text).getD 0 + n) = m.increment key n :=
    congrArg Metrics.mk (alterList_congr rfl)
  rw [checkedIncrement]
  constructor
  · intro h
    obtain ⟨sum, hsum, h⟩ := bind_eq_ok h
    obtain ⟨hle, rfl⟩ := checkedAdd_eq_ok_iff.1 hsum
    exact ⟨hle, hset.symm.trans (Except.ok.inj h)⟩
  · intro h
    obtain ⟨hle, rfl⟩ := h
    rw [checkedAdd_of_le hle, ok_bind, hset]
    rfl

def checkedIncrementAll (m : Metrics) (values : List (CounterKey × Nat)) :
    Except Overflow Metrics :=
  values.foldlM (fun m v => m.checkedIncrement v.1 v.2) m

theorem incrementAll_of_checkedIncrementAll (h : m.checkedIncrementAll values = .ok m') :
    m.incrementAll values = m' := by
  induction values generalizing m with
  | nil => exact Except.ok.inj h
  | cons v values ih =>
    rw [checkedIncrementAll, List.foldlM_cons] at h
    obtain ⟨next, hnext, h⟩ := bind_eq_ok h
    obtain ⟨-, rfl⟩ := checkedIncrement_eq_ok_iff.1 hnext
    exact ih h

/-- All counters are numbers that there is room for. -/
def Fits (m : Metrics) : Prop := ∀ key n, m.get? key = some n → n ≤ Text.counterLimit

theorem fits_iff : m.Fits ↔ ∀ key, (m.get? key).getD 0 ≤ Text.counterLimit := by
  constructor
  · intro h key
    cases hn : m.get? key with
    | none => exact Nat.zero_le _
    | some n => exact h key n hn
  · intro h key n hn
    simpa [hn] using h key

theorem getD_get?_increment (m : Metrics) (c : CounterKey) (n : Nat) (key : String) :
    ((m.increment c n).get? key).getD 0 = (m.get? key).getD 0 + if c.text = key then n else 0 := by
  rw [get?_increment]
  by_cases h : key = c.text
  · simp [h]
  · simp [h, Ne.symm h]

theorem Fits.increment {c : CounterKey} (hm : m.Fits)
    (h : (m.get? c.text).getD 0 + n ≤ Text.counterLimit) : (m.increment c n).Fits := by
  rw [fits_iff] at hm ⊢
  intro key
  rw [getD_get?_increment]
  split
  · rename_i hkey
    exact hkey ▸ h
  · exact hm key

/-- The instructions of a run have been added up by the time they are counted. -/
theorem checkedAddRun_of_checkedInstructions (m : Metrics) (r : RunRecord)
    (h : r.total.checkedInstructions = .ok r.total.instructions) :
    m.checkedAddRun r.module r.report r.total = m.checkedIncrementAll r.additions := by
  simp only [checkedAddRun, h, ok_bind, checkedIncrementAll, RunRecord.additions, Metric.all,
    List.map_cons, List.map_nil, List.foldlM_cons, List.foldlM_nil, bind_pure]
  rfl

theorem checkedIncrementAll_of_checkedAddRun {r : RunRecord}
    (h : m.checkedAddRun r.module r.report r.total = .ok m') :
    m.checkedIncrementAll r.additions = .ok m' := by
  have hrun := h
  -- the additions that come before that of the instructions
  iterate 6
    obtain ⟨_, -, h⟩ := bind_eq_ok h
  obtain ⟨_, hn, -⟩ := bind_eq_ok h
  have hle := (Tally.checkedInstructions_eq_ok_iff.1 hn).1
  rwa [checkedAddRun_of_checkedInstructions m r (Tally.checkedInstructions_of_le hle)] at hrun

/-- What is recorded with checked additions is what is recorded without. -/
theorem addRun_of_checkedAddRun {r : Attribution.Report} {total : Tally}
    (h : m.checkedAddRun module r total = .ok m') : m.addRun module r total = m' := by
  rw [addRun_eq]
  exact incrementAll_of_checkedIncrementAll
    (checkedIncrementAll_of_checkedAddRun (r := ⟨module, r, total⟩) h)

end Checked

theorem get?_eq_some_iff (h : (m.counters.map Prod.fst).Nodup) :
    m.get? key = some n ↔ (key, n) ∈ m.counters := by
  obtain ⟨l⟩ := m
  simp only [get?]
  induction l with
  | nil => simp
  | cons e l ih =>
    obtain ⟨k, v⟩ := e
    obtain ⟨hk, hl⟩ := List.nodup_cons.1 h
    by_cases he : key = k
    · subst he
      have hnot : (key, n) ∉ l := fun hm => hk (List.mem_map.2 ⟨_, hm, rfl⟩)
      simp [hnot, eq_comm]
    · simp [List.lookup_cons, beq_eq_false_iff_ne.2 he, he, ih hl]

end Metrics

end LineCost
