import LineCost.Attribution.Report
import LineCost.Tally

/-!
Named counters, and what a run adds to them.
-/

namespace LineCost

/-- What a counter counts: a name, and labels that tell one counter of that name from another. -/
structure CounterKey where
  name : String
  labels : List (String × String)
  deriving DecidableEq, Repr

/-- The text by which a counter is kept. -/
def CounterKey.text (k : CounterKey) : String :=
  if k.labels.isEmpty then k.name
  else
    let labels := ",".intercalate (k.labels.map fun l => l.1 ++ "=" ++ l.2)
    k.name ++ "\x7b" ++ labels ++ "\x7d"

/-- Counters by the texts of their keys, in the order in which they were first touched. -/
structure Metrics where
  counters : List (String × Nat)
  deriving DecidableEq, Repr

namespace Metrics

def empty : Metrics := ⟨[]⟩

def get? (m : Metrics) (key : String) : Option Nat := m.counters.lookup key

def alterList (f : Option Nat → Nat) (key : String) : List (String × Nat) → List (String × Nat)
  | [] => [(key, f none)]
  | (k, v) :: rest => if k = key then (k, f (some v)) :: rest else (k, v) :: alterList f key rest

theorem lookup_alterList (f : Option Nat → Nat) (key k : String) (l : List (String × Nat)) :
    (alterList f key l).lookup k = if k = key then some (f (l.lookup key)) else l.lookup k := by
  induction l with
  | nil =>
    by_cases h : k = key
    · simp [alterList, h]
    · simp [alterList, List.lookup_cons, beq_eq_false_iff_ne.2 h, h]
  | cons e rest ih =>
    obtain ⟨name, v⟩ := e
    rw [alterList]
    split
    · rename_i hn
      subst hn
      by_cases h : k = name
      · simp [h]
      · simp [List.lookup_cons, beq_eq_false_iff_ne.2 h, h]
    · rename_i hn
      rw [List.lookup_cons, ih, List.lookup_cons, List.lookup_cons]
      by_cases h : k = name
      · subst h
        simp [hn]
      · simp [beq_eq_false_iff_ne.2 h, beq_eq_false_iff_ne.2 (Ne.symm hn)]

/-- Adds to a counter, which starts at zero. -/
def increment (m : Metrics) (key : CounterKey) (n : Nat) : Metrics :=
  ⟨alterList (fun old => old.getD 0 + n) key.text m.counters⟩

def absolute (m : Metrics) (key : CounterKey) (n : Nat) : Metrics :=
  ⟨alterList (fun _ => n) key.text m.counters⟩

/-- Adding to one counter leaves the others as they are. -/
theorem get?_increment (m : Metrics) (key : CounterKey) (n : Nat) (k : String) :
    (m.increment key n).get? k =
      if k = key.text then some ((m.get? key.text).getD 0 + n) else m.get? k :=
  lookup_alterList _ key.text k m.counters

/-- What a run adds to the counters, by name. -/
def runValues (r : Attribution.Report) (total : Tally) : List (String × Nat) :=
  [("inststat_functions_matched_total", r.functionsMatched),
   ("inststat_functions_unmatched_total", r.functionsUnmatched),
   ("inststat_blocks_matched_total", r.blocksMatched),
   ("inststat_blocks_fallback_total", r.blocksFallback),
   ("inststat_blocks_unresolved_total", r.blocksUnresolved),
   ("inststat_blocks_skipped_total", r.blocksSkipped),
   ("inststat_instructions_total", total.instructions),
   ("inststat_cycles_total", total.cycles)]

def addRun (m : Metrics) (module : String) (r : Attribution.Report) (total : Tally) : Metrics :=
  (runValues r total).foldl (fun m v => m.increment ⟨v.1, [("module", module)]⟩ v.2) m

/-- Adds to a counter, which starts at zero, unless the sum is too large. -/
def checkedIncrement (m : Metrics) (key : CounterKey) (n : Nat) : Except Overflow Metrics := do
  let sum ← checkedAdd ((m.get? key.text).getD 0) n
  return m.absolute key sum

/-- Records a run, checking every addition. The instructions are added up once the report has been
counted. -/
def checkedAddRun (m : Metrics) (module : String) (r : Attribution.Report) (total : Tally) :
    Except Overflow Metrics := do
  let increment (m : Metrics) (name : String) (n : Nat) :=
    m.checkedIncrement ⟨name, [("module", module)]⟩ n
  let m ← increment m "inststat_functions_matched_total" r.functionsMatched
  let m ← increment m "inststat_functions_unmatched_total" r.functionsUnmatched
  let m ← increment m "inststat_blocks_matched_total" r.blocksMatched
  let m ← increment m "inststat_blocks_fallback_total" r.blocksFallback
  let m ← increment m "inststat_blocks_unresolved_total" r.blocksUnresolved
  let m ← increment m "inststat_blocks_skipped_total" r.blocksSkipped
  let m ← increment m "inststat_instructions_total" (← total.checkedInstructions)
  increment m "inststat_cycles_total" total.cycles

def sorted (m : Metrics) : List (String × Nat) := m.counters.mergeSort fun a b => a.1 ≤ b.1

def summary (m : Metrics) : List String :=
  if m.counters.isEmpty then ["No metrics collected."]
  else ["", "## Metrics Summary", "", "### Counters"] ++
    m.sorted.map (fun c => "  " ++ c.1 ++ ": " ++ c.2.repr) ++ [""]

end Metrics

end LineCost
