import LineCost.Proofs.Listing.RowCosts
import LineCost.Proofs.Outline.Unwritten

/-!
With tables in which no instruction is free, no block of a listing has instructions without cycles.
-/

namespace LineCost.Listing

variable {table : Table}

theorem priced_costs (ht : table.Priced) (ls : List Line) : (costs table ls).Priced := by
  apply Tally.Priced.sum
  rw [List.forall_mem_map]
  intro c hc
  obtain ⟨line, hl, hline⟩ := List.mem_filterMap.1 hc
  obtain ⟨mnemonic, -, hm, hcounted⟩ := countedAmong_of_countedCost? hl hline
  apply Tally.priced_of_cycles
  rw [cycles_ofCost hcounted]
  rw [hm] at hcounted ⊢
  exact Nat.ne_of_gt (ht.cycles_classify_pos hcounted)

theorem mem_of_mem_stretches {ls : List Line} {s : Stretch} {l : Line}
    (hs : s ∈ (stretches ls).2) (hl : l ∈ s.lines) : l ∈ ls := by
  rw [← stretches_join ls]
  exact List.mem_append_right _ (List.mem_flatMap.2 ⟨s, hs, List.mem_cons_of_mem _ hl⟩)

/-- What is said of the blocks of a function names no cost but that of some of its lines. -/
theorem exists_of_mem_accounts {ls : List Line} {id : Option Nat} {name : String} {t : Tally}
    (h : (id, name, t) ∈ accounts table ls) :
    ∃ part, (∀ l ∈ part, l ∈ ls) ∧ t = costs table part := by
  rcases List.mem_append.1 h with h | h
  · split at h
    · obtain rfl := (Prod.mk.inj (Prod.mk.inj (List.mem_singleton.1 h)).2).2
      refine ⟨_, fun l hl => ?_, rfl⟩
      rw [← stretches_join ls]
      exact List.mem_append_left _ hl
    · cases h
  · obtain ⟨s, hs, hst⟩ := List.mem_map.1 h
    obtain rfl := (Prod.mk.inj (Prod.mk.inj hst).2).2
    exact ⟨_, fun _ => mem_of_mem_stretches hs, rfl⟩

theorem priced_of_read {catalog : Catalog} {cpu : Option String} {text : String} {fs : List Func}
    (hc : ∀ t ∈ catalog.tables, t.Priced) (h : read catalog cpu text = .ok fs) :
    ∀ f ∈ fs, ∀ b ∈ f.blocks, b.tally.Priced := by
  obtain ⟨parts, hparts, rfl⟩ := read_eq_ok h
  intro f hf b hb
  obtain ⟨part, hpart, rfl⟩ := List.mem_map.1 hf
  have haccount : b.account ∈ accounts (tableFor catalog cpu (readLines text)) part.lines := by
    rw [← (exactlyCosted_of_bracketed hparts hpart _).blocks]
    exact List.mem_map_of_mem hb
  obtain ⟨ls, -, hls⟩ := exists_of_mem_accounts haccount
  rw [hls]
  exact priced_costs (hc _ (tableFor_mem catalog cpu _)) ls

end LineCost.Listing
