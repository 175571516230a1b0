import LineCost.Metrics

/-!
The counters of a run. Each of them grows by its value, since no two of them share a key.
-/

namespace LineCost

/-- The counter of a run over a module. -/
def CounterKey.ofRun (module name : String) : CounterKey := ⟨name, [("module", module)]⟩

/-- Counters of one module go by their names. -/
theorem CounterKey.text_ofRun_inj {module name name' : String}
    (h : (ofRun module name).text = (ofRun module name').text) : name = name' := by
  rw [← String.toList_inj] at h ⊢
  simpa [ofRun, text, String.toList_append] using h

namespace Metrics

/-- Adds to one counter after the other. -/
def incrementAll (m : Metrics) (values : List (CounterKey × Nat)) : Metrics :=
  values.foldl (fun m v => m.increment v.1 v.2) m

variable {values : List (CounterKey × Nat)}

theorem get?_incrementAll_of_not_mem {text : String} (h : ∀ v ∈ values, text ≠ v.1.text)
    (m : Metrics) : (m.incrementAll values).get? text = m.get? text := by
  induction values generalizing m with
  | nil => rfl
  | cons v values ih =>
    obtain ⟨hv, hvalues⟩ := List.forall_mem_cons.1 h
    have hrest := ih hvalues (m.increment v.1 v.2)
    rw [get?_increment, if_neg hv] at hrest
    exact hrest

/-- Counters with keys of their own each get what is meant for them. -/
theorem get?_incrementAll (hn : values.Pairwise fun v w => v.1.text ≠ w.1.text)
    {v : CounterKey × Nat} (hv : v ∈ values) (m : Metrics) :
    (m.incrementAll values).get? v.1.text = some ((m.get? v.1.text).getD 0 + v.2) := by
  induction values generalizing m with
  | nil => cases hv
  | cons w values ih =>
    obtain ⟨hw, hvalues⟩ := List.pairwise_cons.1 hn
    have hstep : (m.incrementAll (w :: values)) = (m.increment w.1 w.2).incrementAll values := rfl
    rw [hstep]
    rcases List.mem_cons.1 hv with rfl | hv
    · rw [get?_incrementAll_of_not_mem hw, get?_increment, if_pos rfl]
    · rw [ih hvalues hv, get?_increment, if_neg (hw v hv).symm]

theorem pairwise_runValues (r : Attribution.Report) (total : Tally) :
    (runValues r total).Pairwise fun v w => v.1 ≠ w.1 := by
  -- the names do not depend on the values
  have hnames : ((runValues r total).map Prod.fst).Pairwise (· ≠ ·) := by
    show ((runValues .zero .zero).map Prod.fst).Pairwise (· ≠ ·)
    decide
  exact List.pairwise_map.1 hnames

/-- What a run adds, counter by counter. -/
theorem addRun_eq (m : Metrics) (module : String) (r : Attribution.Report) (total : Tally) :
    m.addRun module r total = m.incrementAll
      ((runValues r total).map fun v => (CounterKey.ofRun module v.1, v.2)) := by
  rw [addRun, incrementAll, List.foldl_map]
  rfl

/-- A run adds each of its values to the counter of that name. -/
theorem get?_addRun (m : Metrics) (module : String) {r : Attribution.Report} {total : Tally}
    {v : String × Nat} (hv : v ∈ runValues r total) :
    (m.addRun module r total).get? (CounterKey.ofRun module v.1).text =
      some ((m.get? (CounterKey.ofRun module v.1).text).getD 0 + v.2) := by
  have hkeys : ((runValues r total).map fun v => (CounterKey.ofRun module v.1, v.2)).Pairwise
      fun v w => v.1.text ≠ w.1.text := by
    rw [List.pairwise_map]
    exact (pairwise_runValues r total).imp fun hne h => hne (CounterKey.text_ofRun_inj h)
  rw [addRun_eq]
  exact get?_incrementAll hkeys (List.mem_map_of_mem hv) m

/-- All other counters are what they were. -/
theorem get?_addRun_of_ne (m : Metrics) (module : String) {r : Attribution.Report} {total : Tally}
    {key : String} (h : ∀ v ∈ runValues r total, key ≠ (CounterKey.ofRun module v.1).text) :
    (m.addRun module r total).get? key = m.get? key := by
  rw [addRun_eq]
  exact get?_incrementAll_of_not_mem (List.forall_mem_map.2 h) m

end Metrics

end LineCost
