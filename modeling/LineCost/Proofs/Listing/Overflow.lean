import LineCost.Proofs.Checked
import LineCost.Proofs.Listing.Workload

/-!
Reading a listing with counters that have a limit: whatever is added to a counter, there must be a
counter for the sum. In a listing of fewer than 2^32 lines that is never otherwise, if no rule has
2^32 cycles or more. Then there are fewer instructions than 2^32, and fewer than 2^32 times as many
cycles.
-/

namespace LineCost

namespace Tally

variable {t : Tally} {ts : List Tally} {d k : Nat}

/-- Fewer than 2^32 instructions with fewer than 2^32 cycles each fit. -/
theorem Within.fits (h : t.Within d k) (hd : d < 2 ^ 32) (hk : k < 2 ^ 32) : t.Fits := by
  have hinstructions : t.instructions ≤ 2 ^ 32 - 1 :=
    Nat.le_trans h.instructions_le (Nat.le_sub_one_of_lt hk)
  have hcycles : t.cycles ≤ (2 ^ 32 - 1) * (2 ^ 32 - 1) :=
    Nat.le_trans h.cycles_le (Nat.mul_le_mul hinstructions (Nat.le_sub_one_of_lt hd))
  rw [instructions] at hinstructions
  rw [fits_iff, Text.counterLimit]
  omega

theorem Within.checkedInstructions (h : t.Within d k) (hk : k < 2 ^ 32) :
    t.checkedInstructions = .ok t.instructions := by
  have hle := h.instructions_le
  apply checkedInstructions_of_le
  rw [Text.counterLimit]
  omega

/-- Tallies that are within the bounds, each and in sum. No addition is too much for a counter when
they are added up, or when the instructions of one are. -/
structure AddsUp (d k : Nat) (ts : List Tally) (total : Tally) : Prop where
  each : ∀ t ∈ ts, t.Within d k
  total_within : total.Within d k
  checkedSum_eq : checkedSum ts = .ok total
  checkedInstructions_eq : ∀ t ∈ total :: ts, t.checkedInstructions = .ok t.instructions

theorem AllWithin.addsUp (h : AllWithin d k ts) (hd : d < 2 ^ 32) (hk : k < 2 ^ 32) :
    AddsUp d k ts (Tally.sum ts) where
  each := fun _ => h.of_mem
  total_within := h.sum
  checkedSum_eq := checkedSum_of_fits (h.sum.fits hd hk)
  checkedInstructions_eq := by
    rw [List.forall_mem_cons]
    exact ⟨h.sum.checkedInstructions hk, fun _ ht => (h.of_mem ht).checkedInstructions hk⟩

end Tally

namespace Listing

namespace Trace

variable {t : Trace} {c : Cost} {table : Table} {line : Line}

theorem checkedOnCurrent_of_fits
    (h : ∀ u ∈ (t.onCurrent (·.record c)).blockTallies, u.Fits) :
    t.checkedOnCurrent c = .ok (t.onCurrent (·.record c)) := by
  rw [blockTallies, onCurrent] at h
  rw [checkedOnCurrent, onCurrent]
  cases hb : t.blocks with
  | nil => rfl
  | cons b before =>
    rw [hb] at h
    have hrecord : (b.tally.record c).Fits := h _ List.mem_cons_self
    simp only [Tally.checkedRecord_of_fits hrecord, ok_bind]
    rfl

theorem checkedCount_of_fits (hblocks : ∀ u ∈ (t.count c).blockTallies, u.Fits)
    (hlines : ∀ u ∈ (t.count c).lines.tallies, u.Fits) : t.checkedCount c = .ok (t.count c) := by
  rw [blockTallies, blocks_count, ← blockTallies] at hblocks
  rw [checkedCount, checkedOnCurrent_of_fits hblocks, ok_bind]
  rw [count_eq] at hlines ⊢
  generalize t.opened.onCurrent (·.record c) = t' at hlines ⊢
  cases hrow : t'.row with
  | none => rfl
  | some n =>
    cases hc : c.isCounted with
    | false => rfl
    | true =>
      simp only [hrow, hc, if_true] at hlines ⊢
      have hmem : ((t'.lines.get? n).getD .zero).record c ∈
          (t'.lines.addAt n (Tally.ofCost c)).tallies := by
        rw [mem_tallies_iff]
        refine ⟨n, ?_⟩
        rw [LineMap.addAt, LineMap.get?_alter, if_pos rfl]
        rfl
      rw [Tally.checkedRecord_of_fits (hlines _ hmem), ok_bind, Tally.record,
        LineMap.insert_eq_addAt]
      rfl

theorem checkedStep_of_fits (hblocks : ∀ u ∈ (t.step table line).blockTallies, u.Fits)
    (hlines : ∀ u ∈ (t.step table line).lines.tallies, u.Fits) :
    t.checkedStep table line = .ok (t.step table line) := by
  cases line with
  | instruction mnemonic => exact checkedCount_of_fits hblocks hlines
  | _ => rfl

end Trace

/-- The tallies of functions, each and all of them together, are within the bounds, and can be added
up: by function and over all functions, by block and by row. -/
structure WithinCounters (d k : Nat) (fs : List Func) : Prop where
  blocks : ∀ f ∈ fs, Tally.AddsUp d k (f.blocks.map Block.tally) f.total
  lines : ∀ f ∈ fs, Tally.AddsUp d k f.lines.tallies f.lines.total
  allBlocks : Tally.AddsUp d k (fs.flatMap fun f => f.blocks.map Block.tally)
    (Tally.sum (fs.map Func.total))
  allLines : Tally.AddsUp d k (fs.flatMap fun f => f.lines.tallies)
    (Tally.sum (fs.map fun f => f.lines.total))

variable {catalog : Catalog} {d k n : Nat} {fs : List Func} {p q : Pass} {line : Line}

theorem sublist_flatMap {f : Func} (hf : f ∈ fs) (tallies : Func → List Tally) :
    (tallies f).Sublist (fs.flatMap tallies) := by
  rw [List.flatMap_def]
  exact List.sublist_flatten_of_mem (List.mem_map_of_mem hf)

theorem withinCounters_of_allWithin (hd : d < 2 ^ 32) (hk : k < 2 ^ 32)
    (hblocks : Tally.AllWithin d k (fs.flatMap fun f => f.blocks.map Block.tally))
    (hlines : Tally.AllWithin d k (fs.flatMap fun f => f.lines.tallies)) :
    WithinCounters d k fs where
  blocks := fun f hf =>
    (hblocks.sublist (sublist_flatMap hf fun f => f.blocks.map Block.tally)).addsUp hd hk
  lines := fun f hf =>
    (hlines.sublist (sublist_flatMap hf fun f => f.lines.tallies)).addsUp hd hk
  allBlocks := by
    have h := hblocks.addsUp hd hk
    rwa [Tally.sum_flatMap] at h
  allLines := by
    have h := hlines.addsUp hd hk
    rwa [Tally.sum_flatMap] at h

namespace Pass

theorem Bounded.withinCounters (h : p.Bounded catalog k) (hd : catalog.dearest < 2 ^ 32)
    (hk : k < 2 ^ 32) : WithinCounters catalog.dearest k p.soFar :=
  withinCounters_of_allWithin hd hk h.blocks h.lines

theorem checkedClose_of_withinCounters (h : WithinCounters d k p.close.soFar) :
    p.checkedClose = .ok p.close := by
  rw [soFar_close, soFar] at h
  rw [checkedClose, close]
  cases hf : p.open? with
  | none => rfl
  | some f =>
    rw [hf] at h
    have hsum := (h.blocks f.close List.mem_cons_self).checkedSum_eq
    simp only [OpenFunc.checkedClose, hsum, ok_bind]
    rfl

theorem checkedTake_of_withinCounters (hd : d < 2 ^ 32) (hk : k < 2 ^ 32)
    (h : WithinCounters d k (p.take line).soFar) : p.checkedTake line = .ok (p.take line) := by
  rw [soFar, take] at h
  rw [checkedTake, take]
  obtain ⟨table, open?, done⟩ := p
  cases open? with
  | none => rfl
  | some f =>
    have hmem : (f.step line).close ∈ ((some f).map fun f => (f.step line).close).toList ++ done :=
      List.mem_cons_self
    have hblocks : ∀ u ∈ (f.trace.step f.table line).blockTallies, u.Fits := by
      intro u hu
      refine ((h.blocks _ hmem).each u ?_).fits hd hk
      rw [OpenFunc.close, Trace.tallies_closedBlocks, List.mem_reverse]
      exact hu
    have hlines : ∀ u ∈ (f.trace.step f.table line).lines.tallies, u.Fits :=
      fun u hu => ((h.lines _ hmem).each u hu).fits hd hk
    simp only [OpenFunc.checkedStep, Trace.checkedStep_of_fits hblocks hlines, ok_bind]
    rfl

theorem checkedStep_of_withinCounters (hd : d < 2 ^ 32) (hk : k < 2 ^ 32)
    (hq : p.step catalog n line = .ok q) (h : WithinCounters d k q.soFar) :
    p.checkedStep catalog n line = .ok (.ok q) := by
  cases line with
  | closing =>
    obtain rfl := Except.ok.inj hq
    rw [checkedStep, checkedClose_of_withinCounters h]
    rfl
  | instruction mnemonic =>
    obtain rfl := Except.ok.inj hq
    rw [checkedStep, checkedTake_of_withinCounters hd hk h]
    rfl
  | _ => exact congrArg Except.ok hq

theorem checkedStep_of_error {e : ReadError} (he : p.step catalog n line = .error e) :
    p.checkedStep catalog n line = .ok (.error e) := by
  cases line with
  | closing => cases he
  | instruction mnemonic => cases he
  | _ => exact congrArg Except.ok he

/-- As long as there are fewer than 2^32 lines, a pass never comes to an addition that no counter
has room for. -/
theorem checkedRun_eq (h : p.Bounded catalog k) (hd : catalog.dearest < 2 ^ 32)
    {ls : List (Nat × Line)} (hk : k + ls.length < 2 ^ 32) :
    p.checkedRun catalog ls = .ok (p.run catalog ls) := by
  induction ls generalizing p k with
  | nil => rfl
  | cons l ls ih =>
    obtain ⟨n, line⟩ := l
    rw [List.length_cons] at hk
    rw [checkedRun, run]
    cases hstep : p.step catalog n line with
    | error e =>
      rw [checkedStep_of_error hstep]
      rfl
    | ok q =>
      have hq := h.step hstep
      rw [checkedStep_of_withinCounters hd (by omega) hstep (hq.withinCounters hd (by omega))]
      exact ih hq (by omega)

end Pass

theorem checkedRead_eq {cpu : Option String} {text : String} (hd : catalog.dearest < 2 ^ 32)
    (hlines : (readLines text).length < 2 ^ 32) :
    checkedRead catalog cpu text = .ok (read catalog cpu text) := by
  have hlength : 0 + (Text.numbered (readLines text)).length < 2 ^ 32 := by
    rwa [Nat.zero_add, Text.length_numbered]
  rw [checkedRead, Pass.checkedRun_eq (Pass.bounded_start catalog cpu) hd hlength, ok_bind,
    read_eq_throughout]
  rfl

theorem withinCounters_of_read {cpu : Option String} {text : String}
    (hd : catalog.dearest < 2 ^ 32) (hlines : (readLines text).length < 2 ^ 32)
    (h : read catalog cpu text = .ok fs) :
    WithinCounters catalog.dearest (readLines text).length fs := by
  rw [read_eq_throughout] at h
  obtain ⟨p, hp, hfinish⟩ := bind_eq_ok h
  have hbounded := Pass.bounded_of_run hp
  have hperm : p.soFar.Perm fs := Pass.soFar_of_finish hfinish ▸ fs.reverse_perm
  exact withinCounters_of_allWithin hd hlines (hbounded.blocks.perm (hperm.flatMap_right _))
    (hbounded.lines.perm (hperm.flatMap_right _))

/-- The cycles of a rule are a number of 32 bits. Then no listing of fewer than 2^32 lines makes a
counter run over: reading it with every addition checked comes to the same result. Wherever in the
listing one stops, each block, each row and each sum of them has at most as many instructions as
there have been lines, and for each of its instructions at most the cycles of the dearest rule. A
listing that is read gets past every line, and its functions are within the bounds as well. -/
theorem read_withinCounters (catalog : Catalog) (cpu : Option String) (text : String)
    (hcycles : ∀ table ∈ catalog.tables, ∀ r ∈ table.rules, r.cost.cycles < 2 ^ 32)
    (hlines : (readLines text).length < 2 ^ 32) :
    catalog.dearest < 2 ^ 32 ∧
    checkedRead catalog cpu text = .ok (read catalog cpu text) ∧
    (∀ before after p, readLines text = before ++ after →
      (Pass.start catalog cpu).run catalog (Text.numbered before) = .ok p →
      WithinCounters catalog.dearest before.length p.soFar) ∧
    ∀ fs, read catalog cpu text = .ok fs →
      WithinCounters catalog.dearest (readLines text).length fs ∧
      ∀ before after, readLines text = before ++ after →
        ∃ p, (Pass.start catalog cpu).run catalog (Text.numbered before) = .ok p ∧
          p.result catalog (Text.numberedFrom (before.length + 1) after) = .ok fs := by
  have hd : catalog.dearest < 2 ^ 32 := by
    have hle := Catalog.dearest_le fun table ht r hr => Nat.le_sub_one_of_lt (hcycles table ht r hr)
    omega
  refine ⟨hd, checkedRead_eq hd hlines, ?_, ?_⟩
  · intro before after p htext hrun
    refine (Pass.bounded_of_run hrun).withinCounters hd ?_
    rw [htext, List.length_append] at hlines
    omega
  · intro fs h
    refine ⟨withinCounters_of_read hd hlines h, fun before after htext => ?_⟩
    rw [read_eq_throughout] at h
    exact Pass.exists_run_of_throughout h htext

/-- A listing with two instructions that are as dear as can be. -/
def dearText : String :=
  "// -- Begin function f\n\t.loc\t1 3 0 // a:3:0\n\tnop\n\tnop\n// -- End function\n"

def dearFunc : Func :=
  ⟨"f", ⟨"a", 3⟩, [⟨none, "entry", some (.point 3), ⟨0, 0, 0, 0, 0, 2, 8589934590⟩⟩],
    .ofList [(3, ⟨0, 0, 0, 0, 0, 2, 8589934590⟩)]⟩

/-- The bound on the cycles is reached. -/
theorem read_withinCounters_dear : ∃ table catalog,
    Table.compile "cpu" [⟨"NOP", ⟨.other, 4294967295⟩⟩] = .ok table ∧
    Catalog.ofTables [table] = .ok catalog ∧
    (∀ table ∈ catalog.tables, ∀ r ∈ table.rules, r.cost.cycles < 2 ^ 32) ∧
    (readLines dearText).length < 2 ^ 32 ∧
    checkedRead catalog none dearText = .ok (.ok [dearFunc]) ∧
    WithinCounters catalog.dearest 5 [dearFunc] ∧
    dearFunc.total.cycles = dearFunc.total.instructions * catalog.dearest := by
  have hrun : (Table.compile "cpu" [⟨"NOP", ⟨.other, 4294967295⟩⟩]).toOption.map (fun t =>
      (Catalog.ofTables [t]).toOption.map fun c => (read c none dearText).toOption.map fun fs =>
        (fs, (c.tables.all fun t => t.rules.all fun r => r.cost.cycles < 2 ^ 32), c.dearest)) =
      some (some (some ([dearFunc], true, 4294967295))) := by
    decide +kernel
  obtain ⟨table, ht, hrun⟩ := toOption_map_eq_some hrun
  obtain ⟨catalog, hc, hrun⟩ := toOption_map_eq_some hrun
  obtain ⟨fs, hread, hrun⟩ := toOption_map_eq_some hrun
  obtain ⟨hfs, hrest⟩ := Prod.mk.inj hrun
  obtain ⟨hall, hdearest⟩ := Prod.mk.inj hrest
  rw [hfs] at hread
  have hcycles : ∀ table ∈ catalog.tables, ∀ r ∈ table.rules, r.cost.cycles < 2 ^ 32 := by
    simpa using hall
  have hlength : (readLines dearText).length = 5 := by decide +kernel
  have hlines : (readLines dearText).length < 2 ^ 32 := by
    rw [hlength]
    decide
  obtain ⟨-, hchecked, -, hwithin⟩ := read_withinCounters catalog none dearText hcycles hlines
  rw [hread] at hchecked
  refine ⟨table, catalog, ht, hc, hcycles, hlines, hchecked, ?_, ?_⟩
  · exact hlength ▸ (hwithin _ hread).1
  · rw [hdearest]
    decide

end Listing

end LineCost
