import LineCost.Proofs.Attribution.DirectPass

/-!
The range pass: a block that got nothing takes what is left inside its own range, or else inside
the narrowest range around that.
-/

namespace LineCost.Attribution

open Outline

/-- Whether anything inside an interval is left. -/
def Holds (left : LineMap) (i : Interval) : Prop := ∃ n t, left.get? n = some t ∧ i.includes n = true

/-- The interval from which a block with range `i` takes. -/
def Source (ranges : List Interval) (left : LineMap) (i j : Interval) : Prop :=
  Holds left j ∧ (j = i ∨ ¬ Holds left i ∧ narrowest? (ranges.filter (·.encloses i)) = some j)

theorem takeRange?_eq_none_iff {left : LineMap} {i : Interval} :
    takeRange? left i = none ↔ ¬ Holds left i := by
  have h := LineMap.isEmpty_filter_eq_false_iff left fun n _ => i.includes n
  rw [Holds, ← h, Bool.not_eq_false, takeRange?]
  split
  · rename_i he
    simp only [he]
  · rename_i he
    simp only [he, reduceCtorEq]

theorem takeRange?_eq_some_iff {left left' : LineMap} {i : Interval} {t : Tally} :
    takeRange? left i = some (t, left') ↔
      Holds left i ∧ t = (left.filter fun n _ => i.includes n).total ∧
        left' = left.filter fun n _ => !i.includes n := by
  have h := LineMap.isEmpty_filter_eq_false_iff left fun n _ => i.includes n
  rw [Holds, ← h, takeRange?]
  split
  · rename_i he
    simp [he]
  · rename_i he
    rw [Option.some.injEq, Prod.mk.injEq, eq_comm, @eq_comm _ _ left']
    simp only [Bool.not_eq_true] at he
    simp only [he, true_and]

theorem takeAround?_of_source {ranges : List Interval} {left : LineMap} {i j : Interval}
    (h : Source ranges left i j) :
    takeAround? ranges left i = some ((left.filter fun n _ => j.includes n).total,
      left.filter fun n _ => !j.includes n) := by
  obtain ⟨hj, he⟩ := h
  have hs := takeRange?_eq_some_iff.2 ⟨hj, rfl, rfl⟩
  rcases he with he | ⟨hi, ho⟩
  · subst he
    simp [takeAround?, hs]
  · have hn := takeRange?_eq_none_iff.2 hi
    simp [takeAround?, hn, ho, hs]

theorem takeAround?_of_not_source {ranges : List Interval} {left : LineMap} {i : Interval}
    (h : ∀ j, ¬ Source ranges left i j) : takeAround? ranges left i = none := by
  have hi : ¬ Holds left i := fun hi => h i ⟨hi, .inl rfl⟩
  have hn := takeRange?_eq_none_iff.2 hi
  cases ho : narrowest? (ranges.filter (·.encloses i)) with
  | none => simp [takeAround?, hn, ho]
  | some outer =>
    have hout := takeRange?_eq_none_iff.2 fun hh => h outer ⟨hh, .inr ⟨hi, ho⟩⟩
    simp [takeAround?, hn, ho, hout]

/-- A block that got nothing takes what is left inside `j`, and books it on line `n`. -/
def Served (ranges : List Interval) (left : LineMap) (b : Block) (hit : Bool) (j : Interval)
    (n : Nat) : Prop :=
  b.skip = false ∧ hit = false ∧ b.firstRecorded? = some n ∧
    ∃ i, b.range? = some i ∧ Source ranges left i j

theorem takeByRange_of_served {ranges : List Interval} {left : LineMap} {b : Block} {hit : Bool}
    {j : Interval} {n : Nat} (h : Served ranges left b hit j n) :
    takeByRange ranges left b hit = (left.filter fun m _ => !j.includes m,
      { b with lines := b.lines.addAt n (left.filter fun m _ => j.includes m).total },
      .fallback) := by
  obtain ⟨hs, hh, hn, i, hi, hj⟩ := h
  simp [takeByRange, hs, hh, hn, hi, takeAround?_of_source hj]

theorem takeByRange_of_not_served {ranges : List Interval} {left : LineMap} {b : Block}
    {hit : Bool} (h : ∀ j n, ¬ Served ranges left b hit j n) :
    takeByRange ranges left b hit =
      (left, b, if b.skip then .skipped else if hit then .matched else .unresolved) := by
  cases hs : b.skip with
  | true => simp [takeByRange, hs]
  | false =>
    cases hh : hit with
    | true => simp [takeByRange, hs]
    | false =>
      cases hi : b.range? with
      | none => simp [takeByRange, hs, hi]
      | some i =>
        cases hn : b.firstRecorded? with
        | none => simp [takeByRange, hs, hi, hn]
        | some n =>
          have ha := takeAround?_of_not_source fun j hj => h j n ⟨hs, hh, hn, i, hi, hj⟩
          simp [takeByRange, hs, hi, hn, ha]

theorem firstRecorded?_mem {b : Block} {n : Nat} (h : b.firstRecorded? = some n) :
    0 < n ∧ n ∈ b.lines.lines := by
  rw [← LineMap.mem_validLines_iff]
  exact List.mem_of_head? h

theorem drawn_of_served {ranges : List Interval} {left : LineMap} {b : Block} {hit : Bool}
    {j : Interval} {n : Nat} (h : Served ranges left b hit j n) :
    drawn left (takeByRange ranges left b hit).1 = left.filter fun m _ => j.includes m := by
  rw [takeByRange_of_served h, drawn_filter left fun m => !j.includes m]
  simp only [Bool.not_not]

theorem drawn_of_not_served {ranges : List Interval} {left : LineMap} {b : Block} {hit : Bool}
    (h : ∀ j n, ¬ Served ranges left b hit j n) :
    drawn left (takeByRange ranges left b hit).1 = .empty := by
  rw [takeByRange_of_not_served h, drawn_self]

theorem booked_ranged (m : LineMap) (i n k : Nat) :
    booked (m.entries.map fun e => ⟨e.1, e.2, i, n⟩) i k = if k = n then m.total else .zero := by
  simp only [booked, List.filter_map, List.map_map]
  split
  · rename_i hk
    subst hk
    have hf : m.entries.filter ((fun h : Handout => decide (h.block = i ∧ h.entry = k)) ∘
        fun e => ⟨e.1, e.2, i, k⟩) = m.entries := by
      apply List.filter_eq_self.2
      intro e _
      simp
    rw [hf]
    rfl
  · rename_i hk
    have hf : m.entries.filter ((fun h : Handout => decide (h.block = i ∧ h.entry = k)) ∘
        fun e => ⟨e.1, e.2, i, n⟩) = [] := by
      apply List.filter_eq_nil_iff.2
      intro e _
      simp [Ne.symm hk]
    rw [hf]
    rfl

theorem takeByRange_block (ranges : List Interval) (left : LineMap) (b : Block) (hit : Bool)
    (i : Nat) :
    (takeByRange ranges left b hit).2.1 =
      credit ((drawn left (takeByRange ranges left b hit).1).entries.map
        fun e => ⟨e.1, e.2, i, b.firstRecorded?.getD 0⟩) i b := by
  by_cases h : ∃ j n, Served ranges left b hit j n
  · obtain ⟨j, n, hserved⟩ := h
    have hn := hserved.2.2.1
    rw [drawn_of_served hserved, takeByRange_of_served hserved, hn, Option.getD_some]
    simp only [credit, LineMap.addAt_eq_map (firstRecorded?_mem hn).2, booked_ranged]
    congr 1
    apply LineMap.map_congr
    intro k _ t
    split <;> simp
  · have hnot : ∀ j n, ¬ Served ranges left b hit j n := fun j n hs => h ⟨j, n, hs⟩
    rw [drawn_of_not_served hnot, takeByRange_of_not_served hnot]
    exact (credit_of_ne (by simp [LineMap.empty]) b).symm

/-- What is left after some blocks have been served. -/
def rangeLeft (ranges : List Interval) (left : LineMap) : List (Block × Bool) → LineMap
  | [] => left
  | (b, hit) :: rest => rangeLeft ranges (takeByRange ranges left b hit).1 rest

theorem get?_of_takeByRange {ranges : List Interval} {left : LineMap} {b : Block} {hit : Bool}
    {n : Nat} {t : Tally} (h : (takeByRange ranges left b hit).1.get? n = some t) :
    left.get? n = some t := by
  by_cases hex : ∃ j m, Served ranges left b hit j m
  · obtain ⟨j, m, hserved⟩ := hex
    rw [takeByRange_of_served hserved, LineMap.get?_filter, Option.filter_eq_some_iff] at h
    exact h.1
  · rw [takeByRange_of_not_served fun j m hs => hex ⟨j, m, hs⟩] at h
    exact h

theorem get?_of_rangeLeft {ranges : List Interval} {left : LineMap}
    {served : List (Block × Bool)} {n : Nat} {t : Tally}
    (h : (rangeLeft ranges left served).get? n = some t) : left.get? n = some t := by
  induction served generalizing left with
  | nil => exact h
  | cons p rest ih => exact get?_of_takeByRange (ih h)

theorem mem_drawn_iff {ranges : List Interval} {left : LineMap} {b : Block} {hit : Bool}
    {i : Nat} {h : Handout} :
    h ∈ (drawn left (takeByRange ranges left b hit).1).entries.map
        (fun e => (⟨e.1, e.2, i, b.firstRecorded?.getD 0⟩ : Handout)) ↔
      h.block = i ∧ left.get? h.line = some h.tally ∧
        ∃ j, Served ranges left b hit j h.entry ∧ j.includes h.line = true := by
  rw [List.mem_map]
  constructor
  · intro hm
    obtain ⟨e, he, hh⟩ := hm
    by_cases hex : ∃ j m, Served ranges left b hit j m
    · obtain ⟨j, m, hserved⟩ := hex
      have hn := hserved.2.2.1
      rw [drawn_of_served hserved] at he
      obtain ⟨he, hj⟩ := List.mem_filter.1 he
      rw [hn, Option.getD_some] at hh
      subst hh
      exact ⟨rfl, LineMap.get?_eq_some_iff.2 he, j, hserved, hj⟩
    · rw [drawn_of_not_served fun j m hs => hex ⟨j, m, hs⟩] at he
      simp [LineMap.empty] at he
  · intro hm
    obtain ⟨hb, hl, j, hserved, hj⟩ := hm
    refine ⟨(h.line, h.tally), ?_, ?_⟩
    · rw [drawn_of_served hserved]
      exact List.mem_filter.2 ⟨LineMap.get?_eq_some_iff.1 hl, hj⟩
    · rw [hserved.2.2.1, Option.getD_some, ← hb]

theorem mem_rangeHandouts_iff {ranges : List Interval} {i : Nat} {left : LineMap}
    {served : List (Block × Bool)} {h : Handout} :
    h ∈ rangeHandouts ranges i left served ↔
      ∃ k b hit j, h.block = i + k ∧ served[k]? = some (b, hit) ∧
        (rangeLeft ranges left (served.take k)).get? h.line = some h.tally ∧
        Served ranges (rangeLeft ranges left (served.take k)) b hit j h.entry ∧
        j.includes h.line = true := by
  induction served generalizing i left with
  | nil => simp [rangeHandouts]
  | cons p rest ih =>
    obtain ⟨c, hit⟩ := p
    rw [rangeHandouts, List.mem_append, mem_drawn_iff, ih]
    constructor
    · intro hm
      rcases hm with ⟨hb, hl, j, hs, hj⟩ | ⟨k, b, hit', j, hb, hk, hl, hs, hj⟩
      · exact ⟨0, c, hit, j, hb, rfl, hl, hs, hj⟩
      · exact ⟨k + 1, b, hit', j, by omega, hk, hl, hs, hj⟩
    · intro hm
      obtain ⟨k, b, hit', j, hb, hk, hl, hs, hj⟩ := hm
      cases k with
      | zero =>
        cases hk
        exact .inl ⟨hb, hl, j, hs, hj⟩
      | succ k => exact .inr ⟨k, b, hit', j, by omega, hk, hl, hs, hj⟩

theorem nodup_rangeHandouts (ranges : List Interval) (i : Nat) (left : LineMap)
    (served : List (Block × Bool)) :
    ((rangeHandouts ranges i left served).map Handout.line).Nodup := by
  induction served generalizing i left with
  | nil => exact List.nodup_nil
  | cons p rest ih =>
    apply nodup_drawn_append _ (fun _ => rfl) (ih _ _)
    intro h hh
    obtain ⟨_, _, _, _, _, _, hl, _⟩ := mem_rangeHandouts_iff.1 hh
    exact get?_of_rangeLeft hl

/-- A line that is not handed out by range stays in the pool throughout. -/
theorem get?_rangeLeft_of_not_mem {ranges : List Interval} {i n : Nat} {left : LineMap}
    {served : List (Block × Bool)} {t : Tally} (hn : left.get? n = some t)
    (hh : ∀ h ∈ rangeHandouts ranges i left served, h.line ≠ n) (k : Nat) :
    (rangeLeft ranges left (served.take k)).get? n = some t := by
  induction served generalizing i left k with
  | nil => simpa [rangeLeft] using hn
  | cons p rest ih =>
    obtain ⟨b, hit⟩ := p
    cases k with
    | zero => exact hn
    | succ k =>
      rw [rangeHandouts] at hh
      have hkeep : (takeByRange ranges left b hit).1.get? n = some t := by
        cases h : (takeByRange ranges left b hit).1.get? n with
        | some u =>
          rw [get?_of_takeByRange h] at hn
          exact hn
        | none =>
          have hd : (n, t) ∈ (drawn left (takeByRange ranges left b hit).1).entries := by
            apply LineMap.get?_eq_some_iff.1
            simp [drawn, LineMap.get?_filter, Option.filter, hn, h]
          exact absurd rfl (hh _ (List.mem_append_left _ (List.mem_map_of_mem hd)))
      exact ih hkeep (fun h hm => hh h (List.mem_append_right _ hm)) k

theorem rangePass_blocks (ranges : List Interval) (i : Nat) (left : LineMap)
    (served : List (Block × Bool)) :
    (rangePass ranges left served).map Prod.fst =
      (served.map Prod.fst).mapIdx fun k b =>
        credit (rangeHandouts ranges i left served) (i + k) b := by
  induction served generalizing i left with
  | nil => rfl
  | cons p rest ih =>
    obtain ⟨b, hit⟩ := p
    have hb : ∀ x ∈ (drawn left (takeByRange ranges left b hit).1).entries.map
        (fun e => (⟨e.1, e.2, i, b.firstRecorded?.getD 0⟩ : Handout)), x.block = i := by
      intro x hx
      exact (mem_drawn_iff.1 hx).1
    have hr : ∀ x ∈ rangeHandouts ranges (i + 1) (takeByRange ranges left b hit).1 rest,
        i < x.block := by
      intro x hx
      obtain ⟨k, _, _, _, hk, _⟩ := mem_rangeHandouts_iff.1 hx
      omega
    rw [rangeHandouts, List.map_cons, credit_mapIdx_cons b _ hb hr, ← takeByRange_block,
      ← ih (i + 1)]
    rfl

end LineCost.Attribution
