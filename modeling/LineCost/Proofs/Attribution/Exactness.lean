import LineCost.Proofs.Attribution.Checked
import LineCost.Proofs.Attribution.RangePass
import Mathlib.Data.List.Nodup

/-!
Attribution line by line is exact: what the blocks of a function gain is what the ledger says, and
the ledger gives whole lines of the assembly away, each at most once.
-/

namespace LineCost.Attribution

open Outline

/-- The range of smallest span, the first of several, among those of the blocks that are not skipped
and strictly contain a given one. -/
def Tightest (blocks : List Block) (inner outer : Interval) : Prop :=
  ∃ before b after, blocks = before ++ b :: after ∧ b.skip = false ∧ b.range? = some outer ∧
    outer.encloses inner = true ∧
    (∀ c ∈ before, ∀ i, c.skip = false → c.range? = some i → i.encloses inner = true →
      outer.span < i.span) ∧
    ∀ c ∈ after, ∀ i, c.skip = false → c.range? = some i → i.encloses inner = true →
      outer.span ≤ i.span

/-- The block in place `i` is not skipped, and earlier blocks record all that it records of the
lines that carry cycles. -/
def Starved (lines : LineMap) (blocks : List Block) (i : Nat) : Prop :=
  (∃ b, blocks[i]? = some b ∧ b.skip = false) ∧
    ∀ n t, lines.get? n = some t → t.cycles ≠ 0 → ¬ FirstRecorder blocks n i

/-- What it means that blocks gain exactly what a ledger says of the lines of an assembly. -/
structure ExactlyAttributed (lines : LineMap) (before after : List Block) (hs : List Handout) :
    Prop where
  /-- Each entry gains what the ledger books on it, and nothing else changes. -/
  credited : after = before.mapIdx fun i b => credit hs i b
  /-- Whole lines are handed out. -/
  whole : ∀ h ∈ hs, 0 < h.line ∧ lines.get? h.line = some h.tally ∧ h.tally.cycles ≠ 0
  once : (hs.map Handout.line).Nodup
  /-- A line that is recorded goes to the first block that records it. -/
  direct : ∀ n t i, lines.get? n = some t → t.cycles ≠ 0 → FirstRecorder before n i →
    ⟨n, t, i, n⟩ ∈ hs
  /-- A line that is not recorded goes, if anywhere, to the first entry of a starved block in whose
  range it lies, or in the tightest range around that. -/
  ranged : ∀ h ∈ hs, (∀ b ∈ before, claims b h.line = false) →
    Starved lines before h.block ∧ ∃ b i, before[h.block]? = some b ∧
      b.firstRecorded? = some h.entry ∧ b.range? = some i ∧
      (i.includes h.line = true ∨ ∃ outer, Tightest before i outer ∧ outer.includes h.line = true)
  /-- The gains of all blocks are the sum of the lines handed out. -/
  total : Tally.sum (after.map fun b => b.lines.total) =
    Tally.sum (before.map fun b => b.lines.total) +
      (lines.filter fun n _ => (hs.map Handout.line).contains n).total

theorem narrowest?_eq_none_iff {l : List Interval} : narrowest? l = none ↔ l = [] := by
  cases l with
  | nil => simp [narrowest?]
  | cons i rest =>
    rw [narrowest?]
    split
    · simp
    · split <;> simp

theorem narrowest?_eq_some {l : List Interval} {i : Interval} (h : narrowest? l = some i) :
    ∃ before after, l = before ++ i :: after ∧ (∀ j ∈ before, i.span < j.span) ∧
      ∀ j ∈ after, i.span ≤ j.span := by
  induction l generalizing i with
  | nil => simp [narrowest?] at h
  | cons k rest ih =>
    rw [narrowest?] at h
    split at h
    · rename_i hn
      cases h
      rw [narrowest?_eq_none_iff] at hn
      exact ⟨[], [], by rw [hn]; rfl, by simp, by simp⟩
    · rename_i j hj
      obtain ⟨before, after, hr, hb, ha⟩ := ih hj
      split at h
      · rename_i hle
        cases h
        refine ⟨[], rest, rfl, by simp, ?_⟩
        intro m hm
        rw [hr, List.mem_append, List.mem_cons] at hm
        rcases hm with hm | hm | hm
        · exact Nat.le_of_lt (Nat.lt_of_le_of_lt hle (hb m hm))
        · rw [hm]
          exact hle
        · exact Nat.le_trans hle (ha m hm)
      · rename_i hlt
        cases h
        refine ⟨k :: before, after, by rw [hr]; rfl, ?_, ha⟩
        intro m hm
        rcases List.mem_cons.1 hm with hm | hm
        · rw [hm]
          exact Nat.lt_of_not_le hlt
        · exact hb m hm

theorem narrowest?_of_split {before after : List Interval} {i : Interval}
    (hb : ∀ j ∈ before, i.span < j.span) (ha : ∀ j ∈ after, i.span ≤ j.span) :
    narrowest? (before ++ i :: after) = some i := by
  induction before with
  | nil =>
    rw [List.nil_append, narrowest?]
    split
    · rfl
    · rename_i j hj
      obtain ⟨pre, post, hl, _⟩ := narrowest?_eq_some hj
      have hmem : j ∈ after := by simp [hl]
      rw [if_pos (ha j hmem)]
  | cons k before ih =>
    have hk := hb k List.mem_cons_self
    have hi := ih fun j hj => hb j (List.mem_cons_of_mem _ hj)
    simp only [List.cons_append, narrowest?, hi]
    rw [if_neg (Nat.not_le_of_lt hk)]

/-- The range of a block that is not skipped, if it strictly contains a given one. -/
def rangeAround? (i : Interval) (b : Block) : Option Interval :=
  if b.skip then none else b.range?.filter (·.encloses i)

theorem rangeAround?_eq_some_iff {i j : Interval} {b : Block} :
    rangeAround? i b = some j ↔ b.skip = false ∧ b.range? = some j ∧ j.encloses i = true := by
  cases hs : b.skip <;> simp [rangeAround?, hs, Option.filter_eq_some_iff]

theorem filter_keptRanges (blocks : List Block) (i : Interval) :
    (keptRanges blocks).filter (·.encloses i) = blocks.filterMap (rangeAround? i) := by
  simp only [keptRanges, List.filter_filterMap, List.filterMap_filter]
  congr 1
  funext b
  cases hs : b.skip <;> simp [rangeAround?, hs]

theorem narrowest?_eq_some_iff_tightest {blocks : List Block} {i outer : Interval} :
    narrowest? ((keptRanges blocks).filter (·.encloses i)) = some outer ↔
      Tightest blocks i outer := by
  rw [filter_keptRanges]
  constructor
  · intro h
    obtain ⟨before, after, hl, hb, ha⟩ := narrowest?_eq_some h
    obtain ⟨bs, cs, hblocks, hbs, hcs⟩ := List.filterMap_eq_append_iff.1 hl
    obtain ⟨ds, b, es, hcs', hds, hb', hes⟩ := List.filterMap_eq_cons_iff.1 hcs
    obtain ⟨hskip, hrange, henc⟩ := rangeAround?_eq_some_iff.1 hb'
    refine ⟨bs ++ ds, b, es, ?_, hskip, hrange, henc, ?_, ?_⟩
    · rw [hblocks, hcs', List.append_assoc]
    · intro c hc j hs hj he
      have hcj := rangeAround?_eq_some_iff.2 ⟨hs, hj, he⟩
      rcases List.mem_append.1 hc with hc | hc
      · apply hb
        rw [← hbs]
        exact List.mem_filterMap.2 ⟨c, hc, hcj⟩
      · rw [hds c hc] at hcj
        cases hcj
    · intro c hc j hs hj he
      apply ha
      rw [← hes]
      exact List.mem_filterMap.2 ⟨c, hc, rangeAround?_eq_some_iff.2 ⟨hs, hj, he⟩⟩
  · intro h
    obtain ⟨before, b, after, hblocks, hskip, hrange, henc, hb, ha⟩ := h
    have hb' := rangeAround?_eq_some_iff.2 ⟨hskip, hrange, henc⟩
    rw [hblocks, List.filterMap_append, List.filterMap_cons, hb']
    apply narrowest?_of_split
    · intro j hj
      obtain ⟨c, hc, hcj⟩ := List.mem_filterMap.1 hj
      obtain ⟨hs, hr, he⟩ := rangeAround?_eq_some_iff.1 hcj
      exact hb c hc j hs hr he
    · intro j hj
      obtain ⟨c, hc, hcj⟩ := List.mem_filterMap.1 hj
      obtain ⟨hs, hr, he⟩ := rangeAround?_eq_some_iff.1 hcj
      exact ha c hc j hs hr he

theorem validLines_pos {b : Block} {n : Nat} (h : n ∈ b.lines.validLines) : 0 < n :=
  (LineMap.mem_validLines_iff.1 h).1

/-- No range begins at line 0. -/
theorem range?_first_pos {b : Block} {i : Interval} (h : b.range? = some i) : 0 < i.first := by
  have hrecorded : b.recordedRange? = some i → 0 < i.first := by
    intro h
    cases hv : b.lines.validLines with
    | nil => simp [Block.recordedRange?, hv] at h
    | cons first rest =>
      simp only [Block.recordedRange?, hv, Option.some.injEq] at h
      subst h
      have hfirst : 0 < first := validLines_pos (hv ▸ List.mem_cons_self)
      have hlast : 0 < (first :: rest).getLast (List.cons_ne_nil _ _) :=
        validLines_pos (by rw [hv]; exact List.getLast_mem _)
      simp only [Interval.between]
      omega
  cases hs : b.span with
  | none =>
    simp only [Block.range?, hs] at h
    exact hrecorded h
  | some s =>
    simp only [Block.range?, hs] at h
    split at h
    · rename_i hv
      cases h
      simp only [Location.isValid, Bool.and_eq_true, decide_eq_true_eq] at hv
      simp only [Interval.between]
      omega
    · exact hrecorded h

theorem pool_get? {asm : Listing.Func} {n : Nat} {t : Tally} :
    (pool asm).get? n = some t ↔ asm.lines.get? n = some t ∧ t.cycles ≠ 0 := by
  simp [pool, LineMap.get?_filter, Option.filter_eq_some_iff, Tally.isEmpty]

theorem mem_handouts_iff {asm : Listing.Func} {blocks : List Block} {h : Handout} :
    h ∈ handouts asm blocks ↔
      h ∈ directHandouts 0 (pool asm) blocks ∨
        h ∈ rangeHandouts (keptRanges blocks) 0 (directPass (pool asm) blocks).1
          (directPass (pool asm) blocks).2 :=
  List.mem_append

/-- What is left for the range pass: the lines that carry cycles and that no block claims. -/
theorem directPass_pool_get? {asm : Listing.Func} {blocks : List Block} {n : Nat} {t : Tally} :
    (directPass (pool asm) blocks).1.get? n = some t ↔
      asm.lines.get? n = some t ∧ t.cycles ≠ 0 ∧ ∀ b ∈ blocks, claims b n = false := by
  rw [directPass_left, LineMap.get?_filter, Option.filter_eq_some_iff, pool_get?]
  simp [and_assoc]

theorem mergeLines_blocks (asm : Listing.Func) (blocks : List Block) :
    (mergeLines asm blocks).map Prod.fst =
      blocks.mapIdx fun i b => credit (handouts asm blocks) i b := by
  have hd := directPass_blocks 0 (pool asm) blocks
  have hr := rangePass_blocks (keptRanges blocks) 0 (directPass (pool asm) blocks).1
    (directPass (pool asm) blocks).2
  simp only [Nat.zero_add] at hd hr
  show (rangePass (keptRanges blocks) _ _).map Prod.fst = _
  rw [hr, hd, List.mapIdx_mapIdx]
  simp only [handouts, credit_append]
  rfl

theorem nodup_handouts (asm : Listing.Func) (blocks : List Block) :
    ((handouts asm blocks).map Handout.line).Nodup := by
  rw [handouts, List.map_append, List.nodup_append]
  refine ⟨nodup_directHandouts _ _ _, nodup_rangeHandouts _ _ _ _, ?_⟩
  intro n hd m hr he
  subst he
  obtain ⟨h, hh, hn⟩ := List.mem_map.1 hd
  obtain ⟨k, hk, hm⟩ := List.mem_map.1 hr
  obtain ⟨_, _, i, _, hi⟩ := mem_directHandouts_iff.1 hh
  obtain ⟨_, _, _, _, _, _, hl, _⟩ := mem_rangeHandouts_iff.1 hk
  have hfree := (directPass_pool_get?.1 (get?_of_rangeLeft hl)).2.2
  obtain ⟨b, hb, hc⟩ := exists_firstRecorder_iff.1 ⟨i, hi⟩
  rw [hn, ← hm, hfree b hb] at hc
  cases hc

/-- A handout by range: the block got nothing before, and the line lies in its range or in the
tightest one around that. -/
theorem ranged_of_mem {asm : Listing.Func} {blocks : List Block} {h : Handout}
    (hh : h ∈ rangeHandouts (keptRanges blocks) 0 (directPass (pool asm) blocks).1
      (directPass (pool asm) blocks).2) :
    Starved asm.lines blocks h.block ∧ ∃ b i, blocks[h.block]? = some b ∧
      b.firstRecorded? = some h.entry ∧ b.range? = some i ∧
      (i.includes h.line = true ∨
        ∃ outer, Tightest blocks i outer ∧ outer.includes h.line = true) := by
  obtain ⟨k, b, hit, j, hk, hb, _, hserved, hj⟩ := mem_rangeHandouts_iff.1 hh
  rw [Nat.zero_add] at hk
  obtain ⟨hskip, hhit, hfirst, i, hi, _, hsource⟩ := hserved
  obtain ⟨c, hc, he⟩ := directPass_getElem? hb
  subst he
  rw [range?_credit] at hi
  rw [firstRecorded?_credit] at hfirst
  rw [hk]
  refine ⟨⟨⟨c, hc, hskip⟩, ?_⟩, c, i, hc, hfirst, hi, ?_⟩
  · intro n t hn ht hrec
    have hhit' := (directPass_hit hb).2 ⟨n, t, pool_get?.2 ⟨hn, ht⟩, hrec⟩
    rw [hhit] at hhit'
    cases hhit'
  · rcases hsource with hji | ⟨_, hnarrow⟩
    · exact .inl (hji ▸ hj)
    · exact .inr ⟨j, narrowest?_eq_some_iff_tightest.1 hnarrow, hj⟩

theorem whole_of_mem {asm : Listing.Func} {blocks : List Block} {h : Handout}
    (hh : h ∈ handouts asm blocks) :
    0 < h.line ∧ asm.lines.get? h.line = some h.tally ∧ h.tally.cycles ≠ 0 := by
  rcases mem_handouts_iff.1 hh with hd | hr
  · obtain ⟨hn, _, k, _, ⟨b, _, hc⟩, _⟩ := mem_directHandouts_iff.1 hd
    have hrec : records b h.line = true := (Bool.and_eq_true_iff.1 hc).2
    exact ⟨(records_iff.1 hrec).1, pool_get?.1 hn⟩
  · obtain ⟨_, b, i, _, _, hi, hj⟩ := ranged_of_mem hr
    obtain ⟨_, _, _, _, _, _, hl, _⟩ := mem_rangeHandouts_iff.1 hr
    obtain ⟨hn, ht, _⟩ := directPass_pool_get?.1 (get?_of_rangeLeft hl)
    refine ⟨?_, hn, ht⟩
    rcases hj with hj | ⟨outer, ⟨_, c, _, _, _, houter, _⟩, hj⟩
    · have := range?_first_pos hi
      have := (Interval.includes_iff.1 hj).1
      omega
    · have := range?_first_pos houter
      have := (Interval.includes_iff.1 hj).1
      omega

/-- Every handout is booked on an entry that is there. -/
theorem entry_of_mem {asm : Listing.Func} {blocks : List Block} {h : Handout}
    (hh : h ∈ handouts asm blocks) :
    ∃ b, blocks[h.block]? = some b ∧ b.skip = false ∧ h.entry ∈ b.lines.lines := by
  rcases mem_handouts_iff.1 hh with hd | hr
  · obtain ⟨_, he, k, hk, ⟨b, hb, hc⟩, _⟩ := mem_directHandouts_iff.1 hd
    rw [Nat.zero_add] at hk
    obtain ⟨hs, hrec⟩ := Bool.and_eq_true_iff.1 hc
    exact ⟨b, hk ▸ hb, by simpa using hs, he ▸ (records_iff.1 hrec).2⟩
  · obtain ⟨⟨⟨c, hc, hs⟩, _⟩, b, i, hb, hfirst, _⟩ := ranged_of_mem hr
    have hbc : b = c := Option.some.inj (hb.symm.trans hc)
    subst hbc
    exact ⟨b, hb, hs, (firstRecorded?_mem hfirst).2⟩

/-- The places of all entries of some blocks. -/
def places (blocks : List Block) : List (Nat × Nat) :=
  blocks.zipIdx.flatMap fun p => p.1.lines.lines.map fun n => (p.2, n)

theorem mem_places_iff {blocks : List Block} {i n : Nat} :
    (i, n) ∈ places blocks ↔ ∃ b, blocks[i]? = some b ∧ n ∈ b.lines.lines := by
  simp [places, List.mem_zipIdx_iff_getElem?]

theorem nodup_places (blocks : List Block) : (places blocks).Nodup := by
  rw [places, List.nodup_flatMap]
  constructor
  · intro p _
    exact (LineMap.nodup_lines _).map fun n m h => (Prod.mk.inj h).2
  · have hi : (blocks.zipIdx.map Prod.snd).Nodup := by
      rw [List.zipIdx_map_snd]
      exact List.nodup_range'
    apply (List.pairwise_map.1 hi).imp
    intro p q hpq x hp hq
    obtain ⟨n, _, hn⟩ := List.mem_map.1 hp
    obtain ⟨m, _, hm⟩ := List.mem_map.1 hq
    exact hpq ((Prod.mk.inj (hn.trans hm.symm)).1)

theorem booked_cons (x : Handout) (hs : List Handout) (i n : Nat) :
    booked (x :: hs) i n =
      (if (x.block, x.entry) = (i, n) then x.tally else .zero) + booked hs i n := by
  simp only [booked, List.filter_cons, Prod.mk.injEq, decide_eq_true_eq]
  split
  · rw [List.map_cons, Tally.sum_cons]
  · rw [Tally.zero_add]

/-- All that is booked on entries that are there is all that is handed out. -/
theorem sum_booked_places {blocks : List Block} {hs : List Handout}
    (h : ∀ x ∈ hs, (x.block, x.entry) ∈ places blocks) :
    Tally.sum ((places blocks).map fun p => booked hs p.1 p.2) =
      Tally.sum (hs.map Handout.tally) := by
  induction hs with
  | nil => exact Tally.sum_map_zero _
  | cons x hs ih =>
    have hx := h x List.mem_cons_self
    have hhs := ih fun y hy => h y (List.mem_cons_of_mem _ hy)
    simp only [booked_cons, Tally.sum_map_add, hhs, List.map_cons, Tally.sum_cons]
    congr 1
    exact Tally.sum_map_single (nodup_places blocks) hx x.tally

theorem total_credit (hs : List Handout) (blocks : List Block) :
    Tally.sum ((blocks.mapIdx fun i b => credit hs i b).map fun b => b.lines.total) =
      Tally.sum (blocks.map fun b => b.lines.total) +
        Tally.sum ((places blocks).map fun p => booked hs p.1 p.2) := by
  have hblocks : blocks.map (fun b => b.lines.total) =
      blocks.zipIdx.map fun p => p.1.lines.total := by
    conv_lhs => rw [← List.zipIdx_map_fst 0 blocks]
    rw [List.map_map]
    rfl
  rw [List.mapIdx_eq_zipIdx_map, List.map_map, hblocks, places, List.map_flatMap,
    Tally.sum_flatMap, ← Tally.sum_map_add]
  congr 1
  apply List.map_congr_left
  intro p _
  rw [List.map_map]
  exact LineMap.total_map_add p.1.lines fun n => booked hs p.2 n

/-- Distinct whole lines of a map add up to the part of the map that they make. -/
theorem sum_handouts {lines : LineMap} {hs : List Handout} (hn : (hs.map Handout.line).Nodup)
    (hw : ∀ h ∈ hs, lines.get? h.line = some h.tally) :
    Tally.sum (hs.map Handout.tally) =
      (lines.filter fun n _ => (hs.map Handout.line).contains n).total := by
  let part := lines.filter fun n _ => (hs.map Handout.line).contains n
  -- both sides have the same entries, each of them once
  have hpairs : (hs.map fun h => (h.line, h.tally)).Nodup := by
    apply List.Nodup.of_map Prod.fst
    rw [List.map_map]
    exact hn
  have hpart : part.entries.Nodup := List.Nodup.of_map Prod.fst part.nodup_lines
  have hmem : ∀ e, e ∈ hs.map (fun h => (h.line, h.tally)) ↔ e ∈ part.entries := by
    intro e
    simp only [part, LineMap.filter, List.mem_filter, List.contains_iff_mem]
    constructor
    · intro he
      obtain ⟨h, hh, he⟩ := List.mem_map.1 he
      subst he
      exact ⟨LineMap.get?_eq_some_iff.1 (hw h hh), List.mem_map_of_mem hh⟩
    · intro he
      obtain ⟨he, hl⟩ := he
      obtain ⟨h, hh, hhe⟩ := List.mem_map.1 hl
      have ht : lines.get? e.1 = some e.2 := LineMap.get?_eq_some_iff.2 he
      rw [← hhe, hw h hh] at ht
      exact List.mem_map.2 ⟨h, hh, Prod.ext hhe (Option.some.inj ht)⟩
  have hperm := ((List.perm_ext_iff_of_nodup hpairs hpart).2 hmem).map Prod.snd
  rw [List.map_map] at hperm
  exact Tally.sum_perm hperm

/-- The blocks together gain what is handed out. -/
theorem total_mergeLines (asm : Listing.Func) (blocks : List Block) :
    Tally.sum (((mergeLines asm blocks).map Prod.fst).map fun b => b.lines.total) =
      Tally.sum (blocks.map fun b => b.lines.total) +
        Tally.sum ((handouts asm blocks).map Handout.tally) := by
  have hplaces : ∀ x ∈ handouts asm blocks, (x.block, x.entry) ∈ places blocks := by
    intro x hx
    obtain ⟨b, hb, _, he⟩ := entry_of_mem hx
    exact mem_places_iff.2 ⟨b, hb, he⟩
  rw [mergeLines_blocks, total_credit, sum_booked_places hplaces]

theorem mergeLines_exactlyAttributed (asm : Listing.Func) (blocks : List Block) :
    ExactlyAttributed asm.lines blocks ((mergeLines asm blocks).map Prod.fst)
      (handouts asm blocks) where
  credited := mergeLines_blocks asm blocks
  whole := fun _ hh => whole_of_mem hh
  once := nodup_handouts asm blocks
  direct := by
    intro n t i hn ht hi
    apply mem_handouts_iff.2 (.inl _)
    exact mem_directHandouts_iff.2 ⟨pool_get?.2 ⟨hn, ht⟩, rfl, i, (Nat.zero_add i).symm, hi⟩
  ranged := by
    intro h hh hfree
    rcases mem_handouts_iff.1 hh with hd | hr
    · obtain ⟨_, _, i, _, hi⟩ := mem_directHandouts_iff.1 hd
      obtain ⟨b, hb, hc⟩ := exists_firstRecorder_iff.1 ⟨i, hi⟩
      rw [hfree b hb] at hc
      cases hc
    · exact ranged_of_mem hr
  total := by
    rw [total_mergeLines, sum_handouts (nodup_handouts asm blocks) fun h hh => (whole_of_mem hh).2.1]

/-- If no counter runs over, a function in line layout that has assembly gains exactly what its
ledger says: every line that carries cycles and is recorded goes whole to the first block that
records it, and every other line goes whole to at most one starved block, in whose range it lies or
in the tightest around that. -/
theorem checkedMerge_exactlyAttributed {skips : List String} {asm : List Listing.Func}
    {fs fs' : List Func} {report : Report} {p : Nat} {f : Func} {a : Listing.Func}
    (hm : checkedMerge skips asm fs = .ok (.ok (fs', report))) (hf : fs[p]? = some f)
    (hl : f.layout = .line)
    (ha : a ∈ asm) (hk : key a = (f.name, f.decl.line)) :
    ∃ f', fs'[p]? = some f' ∧ f' = { f with blocks := f'.blocks } ∧
      ExactlyAttributed a.lines (marked skips f) f'.blocks (handouts a (marked skips f)) := by
  have hp := merge_getElem?_of_line (merge_of_checkedMerge hm) hf hl ha hk
  exact ⟨_, hp, rfl, mergeLines_exactlyAttributed a (marked skips f)⟩

/-- A cleanup block that is left out, two blocks that are hit, one inside both that is not, and one
that records only line 0. -/
def nestedFunc : Func :=
  ⟨"f", ⟨"a.c", 10⟩, .line,
    [⟨"cleanup", true, none, .zero, .ofList [(36, .zero)]⟩,
      ⟨"wide", false, none, .zero, .ofList [(25, .zero), (45, .zero)]⟩,
      ⟨"outer", false, none, .zero, .ofList [(25, .zero), (30, .zero), (40, .zero)]⟩,
      ⟨"inner", false, none, .zero, .ofList [(35, ⟨1, 0, 0, 0, 0, 0, 1⟩)]⟩,
      ⟨"none", false, none, .zero, .ofList [(0, .zero)]⟩]⟩

def nestedAsm : Listing.Func :=
  ⟨"f", ⟨"a.c", 10⟩, [],
    .ofList [(0, ⟨0, 1, 0, 0, 0, 0, 4⟩), (25, ⟨1, 0, 0, 0, 0, 0, 2⟩), (30, ⟨0, 0, 0, 1, 0, 0, 1⟩),
      (36, ⟨0, 1, 0, 0, 0, 0, 4⟩), (37, ⟨0, 2, 0, 0, 0, 0, 0⟩), (44, ⟨0, 0, 0, 1, 0, 0, 1⟩)]⟩

theorem checkedMerge_exactlyAttributed_nested :
    handouts nestedAsm (marked defaultSkips nestedFunc) =
        [⟨25, ⟨1, 0, 0, 0, 0, 0, 2⟩, 1, 25⟩, ⟨30, ⟨0, 0, 0, 1, 0, 0, 1⟩, 2, 30⟩,
          ⟨36, ⟨0, 1, 0, 0, 0, 0, 4⟩, 3, 35⟩] ∧
      ∃ fs' report, checkedMerge defaultSkips [nestedAsm] [nestedFunc] = .ok (.ok (fs', report)) ∧
        ∃ f', fs'[0]? = some f' ∧ f' = { nestedFunc with blocks := f'.blocks } ∧
          ExactlyAttributed nestedAsm.lines (marked defaultSkips nestedFunc) f'.blocks
            (handouts nestedAsm (marked defaultSkips nestedFunc)) := by
  have hm : checkedMerge defaultSkips [nestedAsm] [nestedFunc] = .ok (.ok (_, _)) := rfl
  have hf : [nestedFunc][0]? = some nestedFunc := rfl
  refine ⟨by decide +kernel, _, _, hm, ?_⟩
  exact checkedMerge_exactlyAttributed hm hf rfl (List.mem_singleton_self _) rfl

end LineCost.Attribution
