import LineCost.Proofs.Attribution.Exactness

/-!
What becomes of each block. In block layout it depends on the candidates that there are. In line
layout it can be read off the ledger: the block is matched if it is handed anything in the direct
pass, served by range if it is handed anything later, and unresolved if it is handed nothing.
-/

namespace LineCost.Attribution

open Outline

/-- What the ledger says of the block in place `k`. -/
def ledgerOutcome (asm : Listing.Func) (blocks : List Block) (k : Nat) (b : Block) : Outcome :=
  if b.skip then .skipped
  else if ∃ h ∈ directHandouts 0 (pool asm) blocks, h.block = k then .matched
  else if ∃ h ∈ handouts asm blocks, h.block = k then .fallback
  else .unresolved

/-- The lines that are left when the turn of the block in place `k` comes in the range pass. -/
def leftAt (asm : Listing.Func) (blocks : List Block) (k : Nat) : LineMap :=
  rangeLeft (keptRanges blocks) (directPass (pool asm) blocks).1
    ((directPass (pool asm) blocks).2.take k)

variable {asm : Listing.Func} {blocks : List Block} {b : Block} {k : Nat} {hit : Bool}

theorem mergeBlock_outcome_eq (as : List Listing.Block) (b : Block) : (mergeBlock as b).2 =
    if b.skip then .skipped
    else b.range?.elim .unresolved fun i =>
      if (candidates b.name i .equal as).isEmpty && (candidates b.name i .strict as).isEmpty
      then .unresolved else .matched := by
  rw [mergeBlock]
  split
  · rfl
  · cases b.range? with
    | none => rfl
    | some i =>
      simp only [Option.elim_some]
      cases candidates b.name i .equal as with
      | cons t rest => rfl
      | nil => cases candidates b.name i .strict as <;> rfl

theorem rangePass_getElem? {ranges : List Interval} {left : LineMap}
    {served : List (Block × Bool)} (h : served[k]? = some (b, hit)) :
    (rangePass ranges left served)[k]? =
      some (takeByRange ranges (rangeLeft ranges left (served.take k)) b hit).2 := by
  induction served generalizing left k with
  | nil => simp at h
  | cons p rest ih =>
    cases k with
    | zero =>
      cases h
      rfl
    | succ k => exact ih h

/-- A block is hit in the direct pass if it is handed anything there. -/
theorem hit_iff (h : (directPass (pool asm) blocks).2[k]? = some (b, hit)) :
    hit = true ↔ ∃ h ∈ directHandouts 0 (pool asm) blocks, h.block = k := by
  rw [directPass_hit h]
  constructor
  · rintro ⟨n, t, hn, hrec⟩
    exact ⟨⟨n, t, k, n⟩, mem_directHandouts_iff.2 ⟨hn, rfl, k, (Nat.zero_add k).symm, hrec⟩, rfl⟩
  · rintro ⟨x, hx, hk⟩
    obtain ⟨hn, _, j, hj, hrec⟩ := mem_directHandouts_iff.1 hx
    obtain rfl : j = k := by omega
    exact ⟨x.line, x.tally, hn, hrec⟩

/-- A block is served at its turn if it is handed anything by range. -/
theorem exists_served_iff (h : (directPass (pool asm) blocks).2[k]? = some (b, hit)) :
    (∃ j n, Served (keptRanges blocks) (leftAt asm blocks k) b hit j n) ↔
      ∃ h ∈ rangeHandouts (keptRanges blocks) 0 (directPass (pool asm) blocks).1
        (directPass (pool asm) blocks).2, h.block = k := by
  constructor
  · rintro ⟨j, n, hs⟩
    obtain ⟨_, _, _, _, _, ⟨m, t, hm, hjm⟩, _⟩ := id hs
    exact ⟨⟨m, t, k, n⟩, mem_rangeHandouts_iff.2
      ⟨k, b, hit, j, (Nat.zero_add k).symm, h, hm, hs, hjm⟩, rfl⟩
  · rintro ⟨x, hx, hk⟩
    obtain ⟨k', c, hit', j, hk', hc, _, hs, _⟩ := mem_rangeHandouts_iff.1 hx
    obtain rfl : k' = k := by omega
    obtain ⟨rfl, rfl⟩ := Prod.mk.inj (Option.some.inj (hc.symm.trans h))
    exact ⟨j, x.entry, hs⟩

theorem takeByRange_outcome (h : (directPass (pool asm) blocks).2[k]? = some (b, hit)) :
    (takeByRange (keptRanges blocks) (leftAt asm blocks k) b hit).2.2 =
      ledgerOutcome asm blocks k b := by
  have hserved := exists_served_iff h
  have hhit := hit_iff h
  by_cases hs : ∃ j n, Served (keptRanges blocks) (leftAt asm blocks k) b hit j n
  · obtain ⟨x, hx, hk⟩ := hserved.1 hs
    obtain ⟨j, n, hs⟩ := hs
    have hdirect : ¬ ∃ h ∈ directHandouts 0 (pool asm) blocks, h.block = k := by
      rw [← hhit, hs.2.1]
      exact Bool.false_ne_true
    rw [takeByRange_of_served hs, ledgerOutcome, if_neg (by simp [hs.1]), if_neg hdirect,
      if_pos ⟨x, mem_handouts_iff.2 (.inr hx), hk⟩]
  · have hranged := mt hserved.2 hs
    rw [takeByRange_of_not_served fun j n h => hs ⟨j, n, h⟩, ledgerOutcome]
    by_cases hdirect : ∃ h ∈ directHandouts 0 (pool asm) blocks, h.block = k
    · rw [if_pos hdirect, if_pos (hhit.2 hdirect)]
    · have hnone : ¬ ∃ h ∈ handouts asm blocks, h.block = k := by
        rintro ⟨x, hx, hk⟩
        rcases mem_handouts_iff.1 hx with hx | hx
        · exact hdirect ⟨x, hx, hk⟩
        · exact hranged ⟨x, hx, hk⟩
      rw [if_neg hdirect, if_neg hnone, if_neg (mt hhit.1 hdirect)]

theorem mergeLines_outcome (hb : blocks[k]? = some b) :
    ((mergeLines asm blocks).map Prod.snd)[k]? = some (ledgerOutcome asm blocks k b) := by
  obtain ⟨hit, hserved⟩ := directPass_getElem?_of (pool asm) hb
  have hpass : (mergeLines asm blocks)[k]? = _ := rangePass_getElem? hserved
  rw [List.getElem?_map, hpass, Option.map_some]
  exact congrArg some (takeByRange_outcome hserved)

/-- What is handed out in the direct pass is in the ledger. -/
theorem exists_handout_of_direct (h : ∃ h ∈ directHandouts 0 (pool asm) blocks, h.block = k) :
    ∃ h ∈ handouts asm blocks, h.block = k := by
  obtain ⟨x, hx, hk⟩ := h
  exact ⟨x, mem_handouts_iff.2 (.inl hx), hk⟩

theorem ledgerOutcome_eq_matched_iff : ledgerOutcome asm blocks k b = .matched ↔
    b.skip = false ∧ ∃ h ∈ directHandouts 0 (pool asm) blocks, h.block = k := by
  rw [ledgerOutcome]
  split
  · simp [*]
  · split
    · simp_all
    · split <;> simp_all

theorem ledgerOutcome_eq_fallback_iff : ledgerOutcome asm blocks k b = .fallback ↔
    b.skip = false ∧ (¬ ∃ h ∈ directHandouts 0 (pool asm) blocks, h.block = k) ∧
      ∃ h ∈ handouts asm blocks, h.block = k := by
  rw [ledgerOutcome]
  split
  · simp [*]
  · split
    · simp_all
    · split <;> simp_all

theorem ledgerOutcome_eq_unresolved_iff : ledgerOutcome asm blocks k b = .unresolved ↔
    b.skip = false ∧ ∀ h ∈ handouts asm blocks, h.block ≠ k := by
  have hdirect := @exists_handout_of_direct asm blocks k
  rw [ledgerOutcome]
  split
  · simp [*]
  · split
    · rename_i hd
      simpa using fun _ => hdirect hd
    · split <;> simp_all

/-- A block that is handed nothing was starved. -/
theorem starved_of_not_handed (hb : blocks[k]? = some b) (hs : b.skip = false)
    (hnone : ∀ h ∈ handouts asm blocks, h.block ≠ k) : Starved asm.lines blocks k := by
  refine ⟨⟨b, hb, hs⟩, ?_⟩
  intro n t hn ht hrec
  exact hnone _ ((mergeLines_exactlyAttributed asm blocks).direct n t k hn ht hrec) rfl

end LineCost.Attribution
