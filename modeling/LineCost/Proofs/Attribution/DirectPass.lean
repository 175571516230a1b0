import LineCost.Proofs.Attribution.Handouts

/-!
The direct pass: a line goes to the first block that records it.
-/

namespace LineCost.Attribution

open Outline

/-- Whether a block is not skipped and records a valid line. -/
def claims (b : Block) (n : Nat) : Bool := !b.skip && records b n

/-- The block in place `i` is the first that is not skipped and records a valid line. -/
def FirstRecorder (blocks : List Block) (n i : Nat) : Prop :=
  (∃ b, blocks[i]? = some b ∧ claims b n = true) ∧
    ∀ j < i, ∀ c, blocks[j]? = some c → claims c n = false

theorem records_iff {b : Block} {n : Nat} : records b n = true ↔ 0 < n ∧ n ∈ b.lines.lines := by
  rw [records, List.contains_iff_mem, LineMap.mem_validLines_iff]

theorem firstRecorder_zero_iff {b : Block} {rest : List Block} {n : Nat} :
    FirstRecorder (b :: rest) n 0 ↔ claims b n = true := by
  simp [FirstRecorder]

theorem firstRecorder_succ_iff {b : Block} {rest : List Block} {n i : Nat} :
    FirstRecorder (b :: rest) n (i + 1) ↔ claims b n = false ∧ FirstRecorder rest n i := by
  simp only [FirstRecorder, List.getElem?_cons_succ]
  constructor
  · intro h
    obtain ⟨hi, hj⟩ := h
    refine ⟨hj 0 (Nat.succ_pos i) b rfl, hi, ?_⟩
    intro j hji
    exact hj (j + 1) (Nat.succ_lt_succ hji)
  · intro h
    obtain ⟨hb, hi, hj⟩ := h
    refine ⟨hi, ?_⟩
    intro j hji c hc
    cases j with
    | zero =>
      cases hc
      exact hb
    | succ j => exact hj j (Nat.lt_of_succ_lt_succ hji) c hc

/-- A line that any block claims has a first recorder. -/
theorem exists_firstRecorder_iff {blocks : List Block} {n : Nat} :
    (∃ i, FirstRecorder blocks n i) ↔ ∃ b ∈ blocks, claims b n = true := by
  constructor
  · intro h
    obtain ⟨i, ⟨b, hb, hn⟩, _⟩ := h
    exact ⟨b, List.mem_of_getElem? hb, hn⟩
  · intro h
    obtain ⟨b, hb, hn⟩ := h
    induction blocks with
    | nil => simp at hb
    | cons c rest ih =>
      cases hc : claims c n with
      | true => exact ⟨0, firstRecorder_zero_iff.2 hc⟩
      | false =>
        have hr : b ∈ rest := by
          rcases List.mem_cons.1 hb with h | h
          · subst h
            rw [hn] at hc
            cases hc
          · exact h
        obtain ⟨i, hi⟩ := ih hr
        exact ⟨i + 1, firstRecorder_succ_iff.2 ⟨hc, hi⟩⟩

theorem takeDirect_left (left : LineMap) (b : Block) :
    (takeDirect left b).1 = left.filter fun n _ => !claims b n := by
  cases hs : b.skip with
  | true =>
    rw [LineMap.filter_of_all _ _ (by simp [claims, hs])]
    simp only [takeDirect, hs, if_true]
  | false =>
    simp only [takeDirect, claims, hs, Bool.false_eq_true, if_false, Bool.not_false, Bool.true_and]

theorem drawn_takeDirect (left : LineMap) (b : Block) :
    drawn left (takeDirect left b).1 = left.filter fun n _ => claims b n := by
  rw [takeDirect_left, drawn_filter left fun n => !claims b n]
  simp only [Bool.not_not]

theorem booked_direct (m : LineMap) (i n : Nat) :
    booked (m.entries.map fun e => ⟨e.1, e.2, i, e.1⟩) i n = (m.get? n).getD .zero := by
  rw [← LineMap.sum_entries_at]
  simp only [booked, List.filter_map, List.map_map]
  congr 2
  apply List.filter_congr
  intro e _
  simp

theorem takeDirect_block (left : LineMap) (b : Block) (i : Nat) :
    (takeDirect left b).2.1 =
      credit ((drawn left (takeDirect left b).1).entries.map fun e => ⟨e.1, e.2, i, e.1⟩) i b := by
  rw [drawn_takeDirect]
  cases hs : b.skip with
  | true =>
    have hn : (left.filter fun n _ => claims b n).entries = [] := by
      simp [LineMap.filter, claims, hs]
    rw [hn, List.map_nil, credit_of_ne (by simp)]
    simp only [takeDirect, hs, if_true]
  | false =>
    simp only [takeDirect, hs, Bool.false_eq_true, if_false, credit, booked_direct]
    congr 1
    apply LineMap.map_congr
    intro n _ t
    simp only [claims, hs, Bool.not_false, Bool.true_and]
    cases (left.filter fun n _ => records b n).get? n with
    | none => simp
    | some u => rfl

theorem takeDirect_hit (left : LineMap) (b : Block) :
    (takeDirect left b).2.2 = true ↔ ∃ n t, left.get? n = some t ∧ claims b n = true := by
  cases hs : b.skip with
  | true => simp [takeDirect, claims, hs]
  | false =>
    have h := LineMap.isEmpty_filter_eq_false_iff left fun n _ => records b n
    simpa [takeDirect, claims, hs] using h

theorem mem_directHandouts_iff {i : Nat} {left : LineMap} {blocks : List Block} {h : Handout} :
    h ∈ directHandouts i left blocks ↔
      left.get? h.line = some h.tally ∧ h.entry = h.line ∧
        ∃ k, h.block = i + k ∧ FirstRecorder blocks h.line k := by
  induction blocks generalizing i left with
  | nil => simp [directHandouts, FirstRecorder]
  | cons b rest ih =>
    have hbatch : h ∈ (drawn left (takeDirect left b).1).entries.map
          (fun e => (⟨e.1, e.2, i, e.1⟩ : Handout)) ↔
        left.get? h.line = some h.tally ∧ h.entry = h.line ∧ h.block = i ∧
          claims b h.line = true := by
      rw [drawn_takeDirect, List.mem_map]
      simp only [LineMap.filter, List.mem_filter, Prod.exists]
      constructor
      · intro hm
        obtain ⟨n, t, ⟨hn, hc⟩, he⟩ := hm
        subst he
        exact ⟨LineMap.get?_eq_some_iff.2 hn, rfl, rfl, hc⟩
      · intro hm
        obtain ⟨hn, he, hb, hc⟩ := hm
        refine ⟨h.line, h.tally, ⟨LineMap.get?_eq_some_iff.1 hn, hc⟩, ?_⟩
        calc
          (⟨h.line, h.tally, i, h.line⟩ : Handout) = ⟨h.line, h.tally, h.block, h.entry⟩ := by
            rw [he, hb]
          _ = h := rfl
    have hleft : (takeDirect left b).1.get? h.line = some h.tally ↔
        left.get? h.line = some h.tally ∧ claims b h.line = false := by
      rw [takeDirect_left, LineMap.get?_filter, Option.filter_eq_some_iff, Bool.not_eq_true']
    rw [directHandouts, List.mem_append, hbatch, ih, hleft]
    constructor
    · intro hm
      rcases hm with ⟨hn, he, hb, hc⟩ | ⟨⟨hn, hc⟩, he, k, hb, hk⟩
      · exact ⟨hn, he, 0, hb, firstRecorder_zero_iff.2 hc⟩
      · exact ⟨hn, he, k + 1, by omega, firstRecorder_succ_iff.2 ⟨hc, hk⟩⟩
    · intro hm
      obtain ⟨hn, he, k, hb, hk⟩ := hm
      cases k with
      | zero => exact .inl ⟨hn, he, hb, firstRecorder_zero_iff.1 hk⟩
      | succ k =>
        obtain ⟨hc, hk⟩ := firstRecorder_succ_iff.1 hk
        exact .inr ⟨⟨hn, hc⟩, he, k, by omega, hk⟩

theorem nodup_directHandouts (i : Nat) (left : LineMap) (blocks : List Block) :
    ((directHandouts i left blocks).map Handout.line).Nodup := by
  induction blocks generalizing i left with
  | nil => exact List.nodup_nil
  | cons b rest ih =>
    apply nodup_drawn_append _ (fun _ => rfl) (ih _ _)
    intro h hh
    exact (mem_directHandouts_iff.1 hh).1

/-- After the direct pass only lines are left that no block claims. -/
theorem directPass_left (left : LineMap) (blocks : List Block) :
    (directPass left blocks).1 = left.filter fun n _ => !blocks.any (claims · n) := by
  induction blocks generalizing left with
  | nil => exact (LineMap.filter_of_all _ _ fun _ _ => rfl).symm
  | cons b rest ih =>
    simp only [directPass, ih, takeDirect_left, LineMap.filter_filter, List.any_cons, Bool.not_or]

theorem directPass_blocks (i : Nat) (left : LineMap) (blocks : List Block) :
    (directPass left blocks).2.map Prod.fst =
      blocks.mapIdx fun k b => credit (directHandouts i left blocks) (i + k) b := by
  induction blocks generalizing i left with
  | nil => rfl
  | cons b rest ih =>
    have hb : ∀ x ∈ (drawn left (takeDirect left b).1).entries.map
        (fun e => (⟨e.1, e.2, i, e.1⟩ : Handout)), x.block = i := by
      intro x hx
      obtain ⟨e, _, he⟩ := List.mem_map.1 hx
      rw [← he]
    have hr : ∀ x ∈ directHandouts (i + 1) (takeDirect left b).1 rest, i < x.block := by
      intro x hx
      obtain ⟨_, _, k, hk, _⟩ := mem_directHandouts_iff.1 hx
      omega
    rw [directHandouts, credit_mapIdx_cons b rest hb hr, ← takeDirect_block, ← ih (i + 1)]
    rfl

/-- The block in each place is the one that was there, with what it is handed. -/
theorem map_fst_directPass_getElem? (left : LineMap) (blocks : List Block) (k : Nat) :
    (directPass left blocks).2[k]?.map Prod.fst =
      blocks[k]?.map (credit (directHandouts 0 left blocks) k) := by
  have h := congrArg (·[k]?) (directPass_blocks 0 left blocks)
  simpa only [List.getElem?_map, List.getElem?_mapIdx, Nat.zero_add] using h

theorem directPass_getElem? {left : LineMap} {blocks : List Block} {k : Nat} {b : Block}
    {hit : Bool} (h : (directPass left blocks).2[k]? = some (b, hit)) :
    ∃ c, blocks[k]? = some c ∧ b = credit (directHandouts 0 left blocks) k c := by
  have hb := map_fst_directPass_getElem? left blocks k
  rw [h, Option.map_some] at hb
  obtain ⟨c, hc, he⟩ := Option.map_eq_some_iff.1 hb.symm
  exact ⟨c, hc, he.symm⟩

theorem directPass_getElem?_of (left : LineMap) {blocks : List Block} {k : Nat} {b : Block}
    (h : blocks[k]? = some b) :
    ∃ hit, (directPass left blocks).2[k]? =
      some (credit (directHandouts 0 left blocks) k b, hit) := by
  have hb := map_fst_directPass_getElem? left blocks k
  rw [h, Option.map_some] at hb
  obtain ⟨⟨c, hit⟩, hc, he⟩ := Option.map_eq_some_iff.1 hb
  simp only at he
  exact ⟨hit, by rw [hc, he]⟩

/-- A block is hit if it is the first recorder of a line of the pool. -/
theorem directPass_hit {left : LineMap} {blocks : List Block} {k : Nat} {b : Block} {hit : Bool}
    (h : (directPass left blocks).2[k]? = some (b, hit)) :
    hit = true ↔ ∃ n t, left.get? n = some t ∧ FirstRecorder blocks n k := by
  induction blocks generalizing left k with
  | nil => simp [directPass] at h
  | cons c rest ih =>
    cases k with
    | zero =>
      simp only [directPass, List.getElem?_cons_zero, Option.some.injEq, Prod.mk.injEq] at h
      rw [← h.2, takeDirect_hit]
      simp only [firstRecorder_zero_iff]
    | succ k =>
      simp only [directPass, List.getElem?_cons_succ] at h
      rw [ih h, takeDirect_left]
      simp only [LineMap.get?_filter, Option.filter_eq_some_iff, Bool.not_eq_true',
        firstRecorder_succ_iff, and_assoc]

end LineCost.Attribution
