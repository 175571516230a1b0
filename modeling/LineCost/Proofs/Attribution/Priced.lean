import LineCost.Proofs.Attribution.Rounds
import LineCost.Proofs.Outline.Unwritten

/-!
Whether a merge makes tallies that have instructions but no cycles. It hands out no line without
cycles, so only whole blocks of the assembly could bring such a tally in.
-/

namespace LineCost.Attribution

open Outline

/-- A merge has nothing without cycles for the blocks of a function. -/
structure Gains.Priced (g : Gains) : Prop where
  entry : ∀ i n, (g.entry i n).Priced
  replacement : ∀ i t, g.replacement? i = some t → t.Priced
  inside : ∀ i, (g.inside i).Priced

variable {skips : List String} {asm : List Listing.Func} {blocks : List Listing.Block} {b : Block}
  {t : Tally}

theorem priced_counterparts (h : ∀ c ∈ blocks, c.tally.Priced) (name : String) :
    ∀ c ∈ counterparts blocks name, c.2.Priced := by
  intro c hc
  obtain ⟨d, hd, he⟩ := List.mem_filterMap.1 hc
  split at he
  · obtain ⟨i, _, rfl⟩ := Option.map_eq_some_iff.1 he
    exact h d hd
  · cases he

theorem priced_exactTally? (h : ∀ c ∈ blocks, c.tally.Priced) (ht : exactTally? blocks b = some t) :
    t.Priced := by
  rw [exactTally?] at ht
  split at ht
  · cases ht
  · obtain ⟨i, _, hi⟩ := Option.bind_eq_some_iff.1 ht
    obtain ⟨c, hc, rfl⟩ := Option.map_eq_some_iff.1 hi
    exact priced_counterparts h b.name c (List.mem_of_find?_eq_some hc)

theorem priced_innerTally (h : ∀ c ∈ blocks, c.tally.Priced) (b : Block) :
    (innerTally blocks b).Priced := by
  have hinside : ∀ i, (tallyInside blocks b.name i).Priced := by
    intro i
    apply Tally.Priced.sum
    rw [List.forall_mem_map]
    intro c hc
    exact priced_counterparts h b.name c (List.mem_filter.1 hc).1
  rw [innerTally]
  split
  · exact Tally.priced_zero
  · cases b.range? with
    | none => exact Tally.priced_zero
    | some i => exact hinside i

theorem gains_priced (h : ∀ a ∈ asm, ∀ c ∈ a.blocks, c.tally.Priced) (f : Func) :
    (gains skips asm f).Priced where
  entry := by
    intro i n
    apply Tally.Priced.sum
    rw [List.forall_mem_map]
    intro x hx
    -- a line without cycles is not in the pool, whatever the tables are
    obtain ⟨_, a, _, hm⟩ := mem_handedTo_iff.1 (List.mem_filter.1 hx).1
    exact Tally.priced_of_cycles (whole_of_mem hm).2.2
  replacement := by
    intro i t ht
    obtain ⟨a, ha, ht⟩ := Option.bind_eq_some_iff.1 ht
    rw [Option.join_eq_some_iff] at ht
    obtain ⟨b, _, hb⟩ := List.mem_map.1 (List.mem_of_getElem? ht)
    exact priced_exactTally? (h a (List.mem_of_find?_eq_some ha)) hb
  inside := by
    intro i
    have hsome : ∀ t, ((partner? asm f).bind fun a =>
        ((marked skips f).map (innerTally a.blocks))[i]?) = some t → t.Priced := by
      intro t ht
      obtain ⟨a, ha, ht⟩ := Option.bind_eq_some_iff.1 ht
      obtain ⟨b, _, rfl⟩ := List.mem_map.1 (List.mem_of_getElem? ht)
      exact priced_innerTally (h a (List.mem_of_find?_eq_some ha)) b
    simp only [gains]
    revert hsome
    cases (partner? asm f).bind fun a => ((marked skips f).map (innerTally a.blocks))[i]? with
    | none => exact fun _ => Tally.priced_zero
    | some t => exact fun hsome => hsome t rfl

theorem Gains.Priced.give {g : Gains} (hg : g.Priced) (hb : ∀ t ∈ b.tallies, t.Priced)
    (layout : Layout) (i : Nat) : ∀ t ∈ (g.give skips layout 1 i b).tallies, t.Priced := by
  obtain ⟨htally, hlines⟩ := List.forall_mem_cons.1 hb
  cases layout with
  | line =>
    refine List.forall_mem_cons.2 ⟨htally, ?_⟩
    intro t ht
    simp only [Gains.give, Tally.times_one, LineMap.tallies, LineMap.map, List.map_map] at ht
    obtain ⟨e, he, rfl⟩ := List.mem_map.1 ht
    exact (hlines _ (List.mem_map_of_mem he)).add (hg.entry i e.1)
  | block =>
    refine List.forall_mem_cons.2 ⟨?_, hlines⟩
    simp only [Gains.give, Tally.times_one]
    cases ht : g.replacement? i with
    | none => exact htally.add (hg.inside i)
    | some t => exact hg.replacement i t ht

theorem Gains.give_skip (g : Gains) (layout : Layout) (k i : Nat) (b : Block) :
    (g.give skips layout k i b).skip = leavesOut skips b.name := by
  cases layout <;> rfl

/-- A merge brings no tally in that has instructions but no cycles, if no block of the assembly has
one. -/
theorem priced_of_merge {fs fs' : List Func} {report : Report}
    (h : merge skips asm fs = .ok (fs', report))
    (hasm : ∀ a ∈ asm, ∀ c ∈ a.blocks, c.tally.Priced)
    (hfs : Outline.Priced (fs.map (markSkipped skips))) : Outline.Priced fs' := by
  intro f' hf' b' hb'
  rw [(merge_eq_ok_iff.1 h).2.1] at hf'
  obtain ⟨f, hf, rfl⟩ := List.mem_map.1 hf'
  obtain ⟨hmem, hkept⟩ := List.mem_filter.1 hb'
  rw [mergeOne_eq_grow] at hmem
  obtain ⟨i, hi, rfl⟩ := List.exists_of_mem_mapIdx hmem
  rw [Gains.give_skip] at hkept
  have hmarked : { f.blocks[i] with skip := leavesOut skips f.blocks[i].name } ∈
      (markSkipped skips f).kept :=
    List.mem_filter.2 ⟨List.mem_map_of_mem (List.getElem_mem hi), hkept⟩
  have hbefore : ∀ t ∈ f.blocks[i].tallies, t.Priced :=
    fun t ht => hfs _ (List.mem_map_of_mem hf) _ hmarked t ht
  exact (gains_priced hasm f).give hbefore f.layout i

end LineCost.Attribution
