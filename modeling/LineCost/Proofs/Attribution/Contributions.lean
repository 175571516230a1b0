import LineCost.Proofs.Attribution.BlockOrder
import LineCost.Proofs.Attribution.Partition

/-!
What a block is counted as, against the cycles that it has got. In line layout the two agree. In
block layout a block counts as matched as soon as there is something to take its costs from, whether
that carries cycles or not.
-/

namespace LineCost.Attribution

open Outline

/-- The cycles that the assembly contributes to the block `b`, which the merge leaves as `b'`. An
exact counterpart replaces what was there; anything else adds to it. -/
def contribution (layout : Layout) (a : Listing.Func) (b b' : Block) : Nat :=
  match layout, exactTally? a.blocks b with
  | .block, some t => t.cycles
  | _, _ => b'.total.cycles - b.total.cycles

/-- There are counterparts to take the costs of a block from, and none of those that are taken
carries cycles. -/
inductive IdleMatch (as : List Listing.Block) (b : Block) : Prop where
  | exact {t : Tally} (ht : exactTally? as b = some t) (hzero : t.cycles = 0)
  | inside {i : Interval} (hnone : exactTally? as b = none) (hi : b.range? = some i)
      (hsome : ∃ c ∈ counterparts as b.name, i.encloses c.1 = true)
      (hzero : ∀ c ∈ counterparts as b.name, i.encloses c.1 = true → c.2.cycles = 0)

/-- The block in place `k` of the function in place `p` is counted as one that has got costs. -/
abbrev Received (counts : List Count) (p k : Nat) : Prop :=
  .block p k .matched ∈ counts ∨ .block p k .fallback ∈ counts

/-- How a block `b` of a function with assembly is counted, which is not left out and which the
merge leaves as `b'`. -/
structure CountedByContribution (counts : List Count) (p k : Nat) (layout : Layout)
    (a : Listing.Func) (b b' : Block) : Prop where
  received : Received counts p k ↔
    0 < contribution layout a b b' ∨ layout = .block ∧ IdleMatch a.blocks b
  unresolved : .block p k .unresolved ∈ counts ↔
    contribution layout a b b' = 0 ∧ ¬ (layout = .block ∧ IdleMatch a.blocks b)
  /-- The account tells whether the block has got cycles, unless it is an idle match. -/
  told : ((Received counts p k ↔ 0 < contribution layout a b b') ∧
      (.block p k .unresolved ∈ counts ↔ contribution layout a b b' = 0)) ↔
    ¬ (layout = .block ∧ IdleMatch a.blocks b)

variable {skips : List String} {asm : List Listing.Func} {a : Listing.Func} {fs fs' : List Func}
  {f : Func} {as : List Listing.Block} {b : Block} {counts : List Count} {o : Outcome} {p k : Nat}

/-- In block layout a block is matched if it has an exact counterpart or some inside. -/
theorem mergeBlock_eq_matched_iff (hs : b.skip = false) : (mergeBlock as b).2 = .matched ↔
    (exactTally? as b).isSome ∨
      ∃ i, b.range? = some i ∧ ∃ c ∈ counterparts as b.name, i.encloses c.1 = true := by
  rw [mergeBlock_outcome_eq, exactTally?]
  cases hi : b.range? with
  | none => simp [hs]
  | some i =>
    have hexact : (candidates b.name i .equal as).isEmpty = true ↔
        ¬ ((counterparts as b.name).find? fun c => c.1 = i).isSome := by
      simp only [candidates_eq, List.isEmpty_map, List.isEmpty_iff, List.filter_eq_nil_iff,
        List.find?_isSome, containment_eq_equal_iff, not_exists, not_and]
    have hinside : (candidates b.name i .strict as).isEmpty = true ↔
        ¬ ∃ c ∈ counterparts as b.name, i.encloses c.1 = true := by
      simp [candidates_eq, containment_eq_strict_iff]
    simp only [hs, Bool.false_eq_true, if_false, Option.elim_some, Option.bind_some,
      Option.isSome_map, Option.some.injEq, exists_eq_left', ite_eq_right_iff, reduceCtorEq,
      imp_false, Bool.and_eq_true, hexact, hinside, not_and, not_not, Classical.or_iff_not_imp_left]

/-- A block that is not left out is matched or unresolved. -/
theorem mergeBlock_outcome (as : List Listing.Block) (hs : b.skip = false) :
    (mergeBlock as b).2 = .matched ∨ (mergeBlock as b).2 = .unresolved := by
  rw [mergeBlock_outcome_eq]
  cases b.range? with
  | none => simp [hs]
  | some i =>
    simp only [hs, Bool.false_eq_true, if_false, Option.elim_some]
    split
    · exact .inr rfl
    · exact .inl rfl

theorem contribution_block (a : Listing.Func) (b : Block) :
    contribution .block a b (mergeBlock a.blocks b).1 =
      ((exactTally? a.blocks b).getD (innerTally a.blocks b)).cycles := by
  cases h : exactTally? a.blocks b with
  | some t => simp only [contribution, h, Option.getD_some]
  | none =>
    simp only [contribution, h, mergeBlock_eq, Block.total, Option.getD_none, Tally.cycles_add]
    omega

/-- What lies inside of a block carries no cycles if each counterpart there carries none. -/
theorem cycles_innerTally_eq_zero_iff {i : Interval} (hs : b.skip = false)
    (hi : b.range? = some i) : (innerTally as b).cycles = 0 ↔
      ∀ c ∈ counterparts as b.name, i.encloses c.1 = true → c.2.cycles = 0 := by
  simp only [innerTally, hs, hi, Bool.false_eq_true, if_false, Option.elim_some, tallyInside,
    Tally.cycles_sum_eq_zero_iff, List.forall_mem_map, List.mem_filter, and_imp]

theorem contribution_of_idleMatch (hs : b.skip = false) (h : IdleMatch a.blocks b) :
    contribution .block a b (mergeBlock a.blocks b).1 = 0 := by
  rw [contribution_block]
  cases h with
  | exact ht hzero => rw [ht, Option.getD_some, hzero]
  | inside hnone hi _ hzero =>
    rw [hnone, Option.getD_none, (cycles_innerTally_eq_zero_iff hs hi).2 hzero]

/-- There is something to take the costs of a block from if it gets cycles, or is an idle match. -/
theorem contribution_pos_or_idleMatch_iff (hs : b.skip = false) :
    (0 < contribution .block a b (mergeBlock a.blocks b).1 ∨ IdleMatch a.blocks b) ↔
      (mergeBlock a.blocks b).2 = .matched := by
  rw [mergeBlock_eq_matched_iff hs, contribution_block]
  cases hexact : exactTally? a.blocks b with
  | some t =>
    simp only [Option.getD_some, Option.isSome_some, true_or, iff_true]
    exact (Nat.eq_zero_or_pos t.cycles).symm.imp_right (.exact hexact)
  | none =>
    simp only [Option.getD_none, Option.isSome_none, Bool.false_eq_true, false_or]
    constructor
    · rintro (hpos | hidle)
      · cases hi : b.range? with
        | none => simp [innerTally, hi, hs, Tally.zero] at hpos
        | some i =>
          refine ⟨i, rfl, Classical.byContradiction fun hnone => ?_⟩
          exact Nat.ne_of_gt hpos ((cycles_innerTally_eq_zero_iff hs hi).2
            fun c hc hin => absurd ⟨c, hc, hin⟩ hnone)
      · cases hidle with
        | exact ht => cases hexact.symm.trans ht
        | inside _ hi hsome => exact ⟨_, hi, hsome⟩
    · rintro ⟨i, hi, hsome⟩
      rcases (Nat.eq_zero_or_pos (innerTally a.blocks b).cycles).symm with hpos | hzero
      · exact .inl hpos
      · exact .inr (.inside hexact hi hsome ((cycles_innerTally_eq_zero_iff hs hi).1 hzero))

/-- In line layout a block gets cycles if it is handed anything. -/
theorem contribution_line_pos_iff {blocks : List Block} (hb : blocks[k]? = some b) :
    0 < contribution .line a b (credit (handouts a blocks) k b) ↔
      ∃ h ∈ handouts a blocks, h.block = k := by
  have hentry : ∀ h ∈ handouts a blocks, h.block = k → h.entry ∈ b.lines.lines := by
    rintro h hh rfl
    obtain ⟨c, hc, _, he⟩ := entry_of_mem hh
    rwa [Option.some.inj (hb.symm.trans hc)]
  rw [← cycles_lt_credit_iff (fun h hh => (whole_of_mem hh).2.2) hentry]
  simp only [contribution, Block.total, credit, Tally.cycles_add]
  omega

/-- What the merge makes of a block of a function with assembly. -/
theorem exists_merged {report : Report} (h : merge skips asm fs = .ok (fs', report))
    (hf : fs[p]? = some f) (hp : partner? asm f = some a) (hb : (marked skips f)[k]? = some b) :
    ∃ f' b' o, fs'[p]? = some f' ∧ f'.blocks[k]? = some b' ∧
      (outcomes f.layout a (marked skips f))[k]? = some (b', o) := by
  obtain ⟨-, rfl, -⟩ := merge_eq_ok_iff.1 h
  have hskip := outcomes_getElem? a f (marked skips f) k
  rw [hb, Option.map_some, List.getElem?_map, Option.map_map, Option.map_eq_some_iff] at hskip
  obtain ⟨⟨b', o⟩, ho, -⟩ := hskip
  refine ⟨(mergeOne skips asm f).1, b', o, by rw [List.getElem?_map, hf, Option.map_some], ?_, ho⟩
  rw [mergeOne_eq, hp]
  simp only [mergeFunc_eq]
  rw [List.getElem?_map]
  exact congrArg (Option.map Prod.fst) ho

/-- The account errs about idle matches, since those contribute nothing. -/
theorem CountedByContribution.of_idle {layout : Layout} {b' : Block}
    (received : Received counts p k ↔
      0 < contribution layout a b b' ∨ layout = .block ∧ IdleMatch a.blocks b)
    (unresolved : .block p k .unresolved ∈ counts ↔ ¬ Received counts p k)
    (idle : layout = .block → IdleMatch a.blocks b → contribution layout a b b' = 0) :
    CountedByContribution counts p k layout a b b' where
  received := received
  unresolved := by
    rw [unresolved, received, not_or, Nat.not_lt, Nat.le_zero]
  told := by
    by_cases hidle : layout = .block ∧ IdleMatch a.blocks b
    · refine iff_of_false (fun h => ?_) (not_not_intro hidle)
      have hpos := h.1.1 (received.2 (.inr hidle))
      exact Nat.ne_of_gt hpos (idle hidle.1 hidle.2)
    · rw [unresolved, received]
      simp [hidle]

theorem countedByContribution_of_line {b' : Block} (hs : b.skip = false)
    (hb : (marked skips f)[k]? = some b)
    (ho : (mergeLines a (marked skips f))[k]? = some (b', o))
    (hcount : ∀ o', .block p k o' ∈ counts ↔ o = o') :
    CountedByContribution counts p k .line a b b' := by
  have houtcome : ((mergeLines a (marked skips f)).map Prod.snd)[k]? = _ := mergeLines_outcome hb
  rw [List.getElem?_map, ho, Option.map_some, Option.some.injEq] at houtcome
  have hblock := congrArg (·[k]?) (mergeLines_blocks a (marked skips f))
  simp only [List.getElem?_map, ho, List.getElem?_mapIdx, hb, Option.map_some,
    Option.some.injEq] at hblock
  subst houtcome hblock
  have hincl := @exists_handout_of_direct a (marked skips f) k
  have hreceived : Received counts p k ↔ ∃ h ∈ handouts a (marked skips f), h.block = k := by
    rw [Received, hcount, hcount, ledgerOutcome_eq_matched_iff, ledgerOutcome_eq_fallback_iff]
    constructor
    · rintro (⟨-, hdirect⟩ | ⟨-, -, hhandout⟩)
      · exact hincl hdirect
      · exact hhandout
    · intro hhandout
      by_cases hdirect : ∃ h ∈ directHandouts 0 (pool a) (marked skips f), h.block = k
      · exact .inl ⟨hs, hdirect⟩
      · exact .inr ⟨hs, hdirect, hhandout⟩
  refine .of_idle ?_ ?_ nofun
  · rw [hreceived, contribution_line_pos_iff hb]
    simp
  · rw [hreceived, hcount, ledgerOutcome_eq_unresolved_iff]
    simp [hs]

theorem countedByContribution_of_block (hs : b.skip = false)
    (hcount : ∀ o, .block p k o ∈ counts ↔ (mergeBlock a.blocks b).2 = o) :
    CountedByContribution counts p k .block a b (mergeBlock a.blocks b).1 := by
  have hreceived : Received counts p k ↔ (mergeBlock a.blocks b).2 = .matched := by
    rw [Received, hcount, hcount]
    rcases mergeBlock_outcome a.blocks hs with h | h <;> simp [h]
  refine .of_idle ?_ ?_ fun _ => contribution_of_idleMatch hs
  · rw [hreceived, ← contribution_pos_or_idleMatch_iff hs]
    simp
  · rw [hreceived, hcount]
    rcases mergeBlock_outcome a.blocks hs with h | h <;> simp [h]

/-- In every merge a block of a function with assembly that is not left out is counted as one that
has got costs if the assembly contributes cycles to it, and as unresolved if it contributes none,
but for idle matches in block layout: those contribute nothing, and count as matched. -/
theorem merge_countedByContribution {report : Report} (h : merge skips asm fs = .ok (fs', report)) :
    ∃ counts, mergeCounting skips asm fs = .ok (fs', counts) ∧ report = account counts ∧
      ∀ p f a k b, fs[p]? = some f → partner? asm f = some a → (marked skips f)[k]? = some b →
        b.skip = false → ∃ f' b', fs'[p]? = some f' ∧ f'.blocks[k]? = some b' ∧
          CountedByContribution counts p k f.layout a b b' := by
  obtain ⟨counts, hm, hpartition⟩ := merge_partitioned h
  refine ⟨counts, hm, hpartition.counted, ?_⟩
  intro p f a k b hf hp hb hs
  obtain ⟨f', b', o, hf', hb', ho⟩ := exists_merged h hf hp hb
  have hcount : ∀ o', .block p k o' ∈ counts ↔ o = o' := by
    intro o'
    rw [block_mem_counts_iff hm, hf]
    simp only [Option.some.injEq, exists_eq_left', mem_told_of_some hp, List.getElem?_map, ho,
      Option.map_some]
  refine ⟨f', b', hf', hb', ?_⟩
  cases hl : f.layout with
  | line =>
    rw [hl] at ho
    exact countedByContribution_of_line hs hb ho hcount
  | block =>
    rw [hl, outcomes, List.getElem?_map, hb, Option.map_some, Option.some.injEq] at ho
    obtain rfl : (mergeBlock a.blocks b).1 = b' := congrArg Prod.fst ho
    obtain rfl : (mergeBlock a.blocks b).2 = o := congrArg Prod.snd ho
    exact countedByContribution_of_block hs hcount

/-- The block of `twinFunc` without a tally, and the assembly of a block with its lines all of whose
instructions are ignored. -/
def idleBlock : Block :=
  ⟨"entry", false, some ⟨1, ⟨"a.c", 10⟩, ⟨"a.c", 12⟩⟩, .zero, .empty⟩

def idleAsm : Listing.Func :=
  ⟨"f", ⟨"a.c", 10⟩, [⟨some 1, "entry", some (.between 10 12), .zero⟩], .empty⟩

/-- The block counts as matched, and gets nothing. -/
theorem merge_countedByContribution_idle : ∃ counts,
    merge defaultSkips [idleAsm] [twinFunc .zero] = .ok ([twinFunc .zero], ⟨1, 0, 1, 0, 0, 0⟩) ∧
      mergeCounting defaultSkips [idleAsm] [twinFunc .zero] = .ok ([twinFunc .zero], counts) ∧
      IdleMatch idleAsm.blocks idleBlock ∧
      CountedByContribution counts 0 0 .block idleAsm idleBlock idleBlock ∧
      Received counts 0 0 ∧ contribution .block idleAsm idleBlock idleBlock = 0 := by
  have hmerge : merge defaultSkips [idleAsm] [twinFunc .zero] =
      .ok ([twinFunc .zero], ⟨1, 0, 1, 0, 0, 0⟩) := rfl
  have hidle : IdleMatch idleAsm.blocks idleBlock := .exact (t := .zero) rfl rfl
  obtain ⟨counts, hcounts, -, hblocks⟩ := merge_countedByContribution hmerge
  obtain ⟨f', b', hf', hb', hcounted⟩ :=
    hblocks 0 (twinFunc .zero) idleAsm 0 idleBlock rfl rfl rfl rfl
  obtain rfl := Option.some.inj hf'
  obtain rfl : idleBlock = b' := Option.some.inj hb'
  exact ⟨counts, hmerge, hcounts, hidle, hcounted, hcounted.received.2 (.inr ⟨rfl, hidle⟩), rfl⟩

end LineCost.Attribution
