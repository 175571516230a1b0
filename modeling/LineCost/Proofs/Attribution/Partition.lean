import LineCost.Proofs.Attribution.Counting

/-!
The account of a merge is a partition: each function is counted once, as matched or as unmatched,
and each block at most once. In line layout what a block is counted as tells when it has gained
cycles.
-/

namespace LineCost.Attribution

open Outline

/-- What a counter is raised for. -/
def Count.subject : Count → Nat × Option Nat
  | .function p _ => (p, none)
  | .block p k _ => (p, some k)

/-- A block `b` in line layout, which the direct pass leaves as `d` and the merge as `b'`, is
counted by when it has gained cycles. -/
structure CountedByGain (counts : List Count) (p k : Nat) (b d b' : Block) : Prop where
  matched : .block p k .matched ∈ counts ↔ b.lines.total.cycles < d.lines.total.cycles
  fallback : .block p k .fallback ∈ counts ↔
    d.lines.total.cycles = b.lines.total.cycles ∧ d.lines.total.cycles < b'.lines.total.cycles
  unresolved : .block p k .unresolved ∈ counts ↔ b' = b

/-- What it means that the account of a merge, and what has been counted for it, is a partition. -/
structure Partitioned (skips : List String) (asm : List Listing.Func) (fs fs' : List Func)
    (report : Report) (counts : List Count) : Prop where
  /-- The account is what has been counted. -/
  counted : report = account counts
  /-- Nothing is counted twice. -/
  once : (counts.map Count.subject).Nodup
  functions : report.functionsMatched + report.functionsUnmatched = fs.length
  function : ∀ p paired, .function p paired ∈ counts ↔
    ∃ f, fs[p]? = some f ∧ (partner? asm f).isSome = paired
  blocksSkipped : report.blocksSkipped =
    (fs.flatMap Func.blocks).countP fun b => leavesOut skips b.name
  skipped : ∀ p k, .block p k .skipped ∈ counts ↔
    ∃ f b, fs[p]? = some f ∧ f.blocks[k]? = some b ∧ leavesOut skips b.name = true
  blocksServed : report.blocksMatched + report.blocksFallback + report.blocksUnresolved =
    ((fs.filter fun f => (partner? asm f).isSome).flatMap Func.blocks).countP fun b =>
      !leavesOut skips b.name
  served : ∀ p k, (∃ o ≠ .skipped, .block p k o ∈ counts) ↔
    ∃ f b, fs[p]? = some f ∧ (partner? asm f).isSome ∧ f.blocks[k]? = some b ∧
      leavesOut skips b.name = false
  /-- The blocks of a function in line layout are told apart by their gains. -/
  gains : ∀ p f a k b, fs[p]? = some f → f.layout = .line → partner? asm f = some a →
    (marked skips f)[k]? = some b → b.skip = false →
      ∃ d f' b', (directPass (pool a) (marked skips f)).2[k]?.map Prod.fst = some d ∧
        fs'[p]? = some f' ∧ f'.blocks[k]? = some b' ∧ CountedByGain counts p k b d b'

variable {skips : List String} {asm : List Listing.Func} {a : Listing.Func} {fs fs' : List Func}
  {f : Func} {blocks : List Block} {b : Block} {counts : List Count} {c : Count}
  {o : Outcome} {p k : Nat}

theorem mem_placed_iff {α β : Type} {tell : Nat → α → Option β} {l : List α} {x : β} :
    x ∈ placed tell 0 l ↔ ∃ k a, l[k]? = some a ∧ tell k a = some x := by
  simp only [placed, List.mem_filterMap, Prod.exists, List.mem_zipIdx_iff_getElem?]
  exact exists_comm

/-- A block is marked if its name tells that it is left out. -/
theorem exists_marked_iff {skip : Bool} : (∃ b, (marked skips f)[k]? = some b ∧ b.skip = skip) ↔
    ∃ b, f.blocks[k]? = some b ∧ leavesOut skips b.name = skip := by
  simp only [marked, markSkipped, List.getElem?_map, Option.map_eq_some_iff]
  constructor
  · rintro ⟨_, ⟨b, hb, rfl⟩, hs⟩
    exact ⟨b, hb, hs⟩
  · rintro ⟨b, hb, hs⟩
    exact ⟨_, ⟨b, hb, rfl⟩, hs⟩

/-- A block has an outcome, and is skipped if it is marked. -/
theorem outcomes_getElem? (asm : Listing.Func) (f : Func) (blocks : List Block) (k : Nat) :
    (((outcomes f.layout asm blocks).map Prod.snd)[k]?).map (· == .skipped) =
      (blocks[k]?).map Block.skip := by
  have h := congrArg (·[k]?) (outcomes_skipped f.layout asm blocks)
  simpa only [List.getElem?_map, Option.map_map, Function.comp_def] using h

theorem mem_told_of_some (hp : partner? asm f = some a) : (k, o) ∈ told skips asm f ↔
    ((outcomes f.layout a (marked skips f)).map Prod.snd)[k]? = some o := by
  simp only [told, hp, mem_placed_iff, Option.some.injEq, Prod.mk.injEq]
  constructor
  · rintro ⟨_, _, h, rfl, rfl⟩
    exact h
  · intro h
    exact ⟨k, o, h, rfl, rfl⟩

theorem mem_told_of_none (hp : partner? asm f = none) : (k, o) ∈ told skips asm f ↔
    o = .skipped ∧ ∃ b, (marked skips f)[k]? = some b ∧ b.skip = true := by
  simp only [told, hp, mem_placed_iff, markCount?, Option.ite_none_right_eq_some,
    Option.some.injEq, Prod.mk.injEq]
  constructor
  · rintro ⟨_, b, h, hs, rfl, rfl⟩
    exact ⟨rfl, b, h, hs⟩
  · rintro ⟨rfl, b, h, hs⟩
    exact ⟨k, b, h, hs, rfl, rfl⟩

theorem skipped_mem_told_iff : (k, .skipped) ∈ told skips asm f ↔
    ∃ b, (marked skips f)[k]? = some b ∧ b.skip = true := by
  cases hp : partner? asm f with
  | none => simp [mem_told_of_none hp]
  | some a =>
    have h := outcomes_getElem? a f (marked skips f) k
    rw [mem_told_of_some hp]
    constructor
    · intro ho
      rw [ho, Option.map_some, beq_self_eq_true, eq_comm, Option.map_eq_some_iff] at h
      exact h
    · rintro ⟨b, hb, hs⟩
      rw [hb, Option.map_some, hs, Option.map_eq_some_iff] at h
      obtain ⟨o, ho, hskipped⟩ := h
      rw [ho, beq_iff_eq.1 hskipped]

theorem served_mem_told_iff : (∃ o ≠ .skipped, (k, o) ∈ told skips asm f) ↔
    (partner? asm f).isSome ∧ ∃ b, (marked skips f)[k]? = some b ∧ b.skip = false := by
  cases hp : partner? asm f with
  | none => simp [mem_told_of_none hp]
  | some a =>
    have h := outcomes_getElem? a f (marked skips f) k
    simp only [mem_told_of_some hp, Option.isSome_some, true_and]
    constructor
    · rintro ⟨o, hne, ho⟩
      rw [ho, Option.map_some, beq_eq_false_iff_ne.2 hne, eq_comm, Option.map_eq_some_iff] at h
      exact h
    · rintro ⟨b, hb, hs⟩
      rw [hb, Option.map_some, hs, Option.map_eq_some_iff] at h
      obtain ⟨o, ho, hserved⟩ := h
      exact ⟨o, beq_eq_false_iff_ne.1 hserved, ho⟩

/-- A place is told of at most once if whatever is told of it names it. -/
theorem nodup_placed {α : Type} {tell : Nat → α → Option (Nat × Outcome)}
    (h : ∀ k a x, tell k a = some x → x.1 = k) (i : Nat) (l : List α) :
    ((placed tell i l).map Prod.fst).Nodup := by
  have hplaces : ((placed tell i l).map Prod.fst).Sublist ((l.zipIdx i).map Prod.snd) := by
    induction l generalizing i with
    | nil => exact .slnil
    | cons a l ih =>
      rw [placed_cons, List.zipIdx_cons, List.map_append, List.map_cons]
      cases hx : tell i a with
      | none => exact (ih (i + 1)).cons i
      | some x =>
        have hi := h i a x hx
        subst hi
        exact (ih (x.1 + 1)).cons_cons x.1
  rw [List.zipIdx_map_snd] at hplaces
  exact hplaces.nodup List.nodup_range'

theorem nodup_told (skips : List String) (asm : List Listing.Func) (f : Func) :
    ((told skips asm f).map Prod.fst).Nodup := by
  cases hp : partner? asm f with
  | none =>
    simp only [told, hp]
    refine nodup_placed ?_ 0 _
    intro k b x hx
    rw [markCount?, Option.ite_none_right_eq_some] at hx
    exact (congrArg Prod.fst (Option.some.inj hx.2)).symm
  | some a =>
    simp only [told, hp]
    refine nodup_placed ?_ 0 _
    intro k o x hx
    exact (congrArg Prod.fst (Option.some.inj hx)).symm

/-- What is counted in a merge is what is counted for its functions. -/
theorem mergeCounting_counts (hm : mergeCounting skips asm fs = .ok (fs', counts)) :
    counts = fs.zipIdx.flatMap fun e => (countFunc skips asm e.2 e.1).2 := by
  rw [mergeCounting] at hm
  split at hm
  · cases hm
  · obtain ⟨-, hcounts⟩ := Prod.mk.inj (Except.ok.inj hm)
    rw [← hcounts, List.mapIdx_eq_zipIdx_map, List.map_map, List.flatMap_def]
    rfl

theorem mem_counts_iff (hm : mergeCounting skips asm fs = .ok (fs', counts)) : c ∈ counts ↔
    ∃ p f, fs[p]? = some f ∧ (c = .function p (partner? asm f).isSome ∨
      ∃ k o, (k, o) ∈ told skips asm f ∧ c = .block p k o) := by
  have hfunc : ∀ p f, c ∈ (countFunc skips asm p f).2 ↔
      c = .function p (partner? asm f).isSome ∨
        ∃ k o, (k, o) ∈ told skips asm f ∧ c = .block p k o := by
    intro p f
    rw [(countFunc_perm skips asm p f).mem_iff, List.mem_cons, List.mem_map, Prod.exists]
    simp only [Count.ofBlock, eq_comm]
  rw [mergeCounting_counts hm]
  simp only [List.mem_flatMap, Prod.exists, List.mem_zipIdx_iff_getElem?, hfunc]
  exact exists_comm

theorem nodup_counts (hm : mergeCounting skips asm fs = .ok (fs', counts)) :
    (counts.map Count.subject).Nodup := by
  have hsubjects : ∀ p f, ((countFunc skips asm p f).2.map Count.subject).Perm
      ((p, none) :: ((told skips asm f).map Prod.fst).map fun k => (p, some k)) := by
    intro p f
    have hperm := (countFunc_perm skips asm p f).map Count.subject
    rw [List.map_cons, List.map_map] at hperm
    rw [List.map_map]
    exact hperm
  rw [mergeCounting_counts hm, List.map_flatMap, List.nodup_flatMap]
  constructor
  · intro e _
    rw [(hsubjects e.2 e.1).nodup_iff, List.nodup_cons]
    refine ⟨by simp, (nodup_told skips asm e.1).map ?_⟩
    intro k l hkl
    exact Option.some.inj (Prod.mk.inj hkl).2
  · -- what is counted for different functions differs in the place of the function
    have hp : (fs.zipIdx.map Prod.snd).Nodup := by
      rw [List.zipIdx_map_snd]
      exact List.nodup_range'
    apply (List.pairwise_map.1 hp).imp
    intro e e' hne x hx hx'
    have hplace : ∀ p f, x ∈ (countFunc skips asm p f).2.map Count.subject → x.1 = p := by
      intro p f hx
      rcases List.mem_cons.1 ((hsubjects p f).mem_iff.1 hx) with rfl | hx
      · rfl
      · obtain ⟨k, _, rfl⟩ := List.mem_map.1 hx
        rfl
    exact hne ((hplace _ _ hx).symm.trans (hplace _ _ hx'))

/-- A block gains cycles in line layout if it is handed anything. -/
theorem cycles_lt_credit_iff {hs : List Handout} (hw : ∀ h ∈ hs, h.tally.cycles ≠ 0)
    (he : ∀ h ∈ hs, h.block = k → h.entry ∈ b.lines.lines) :
    b.lines.total.cycles < (credit hs k b).lines.total.cycles ↔ ∃ h ∈ hs, h.block = k := by
  have htotal : (credit hs k b).lines.total.cycles = b.lines.total.cycles +
      (Tally.sum (b.lines.lines.map fun n => booked hs k n)).cycles := by
    rw [credit, LineMap.total_map_add, Tally.cycles_add]
  have hgain : (Tally.sum (b.lines.lines.map fun n => booked hs k n)).cycles = 0 ↔
      ∀ h ∈ hs, h.block ≠ k := by
    rw [Tally.cycles_sum_eq_zero_iff, List.forall_mem_map]
    constructor
    · intro hzero h hh hk
      have hentry := hzero h.entry (he h hh hk)
      rw [booked, Tally.cycles_sum_eq_zero_iff, List.forall_mem_map] at hentry
      exact hw h hh (hentry h (List.mem_filter.2 ⟨hh, by simp [hk]⟩))
    · intro hnone n _
      rw [booked_of_ne hnone]
      rfl
  rw [htotal, Nat.lt_add_right_iff_pos, Nat.pos_iff_ne_zero, ne_eq, hgain]
  simp

/-- A sum of counters over an account is the sum over its parts. -/
theorem Report.sum_counter {c : Report → Nat} (hzero : c .zero = 0)
    (hadd : ∀ r s, c (r + s) = c r + c s) (rs : List Report) :
    c (Report.sum rs) = (rs.map c).sum := by
  induction rs with
  | nil => exact hzero
  | cons r rs ih => rw [Report.sum_cons, hadd, ih, List.map_cons, List.sum_cons]

/-- The counters of the functions. -/
def Report.functions (r : Report) : Nat := r.functionsMatched + r.functionsUnmatched

/-- The counters of the blocks that are served. -/
def Report.served (r : Report) : Nat := r.blocksMatched + r.blocksFallback + r.blocksUnresolved

theorem mergeOne_functions (skips : List String) (asm : List Listing.Func) (f : Func) :
    (mergeOne skips asm f).2.functions = 1 := by
  rw [mergeOne_eq]
  cases partner? asm f <;> rfl

theorem countP_marked (skips : List String) (f : Func) (q : Bool → Bool) :
    (marked skips f).countP (fun b => q b.skip) =
      f.blocks.countP fun b => q (leavesOut skips b.name) := by
  rw [marked, markSkipped, List.countP_map]
  rfl

theorem countP_outcomes (asm : Listing.Func) (f : Func) (blocks : List Block) (q : Bool → Bool) :
    ((outcomes f.layout asm blocks).map Prod.snd).countP (fun o => q (o == .skipped)) =
      blocks.countP fun b => q b.skip := by
  have h := congrArg (List.countP q) (outcomes_skipped f.layout asm blocks)
  rw [List.countP_map, List.countP_map] at h
  rw [List.countP_map]
  exact h

theorem mergeOne_blocksSkipped (skips : List String) (asm : List Listing.Func) (f : Func) :
    (mergeOne skips asm f).2.blocksSkipped = f.blocks.countP fun b => leavesOut skips b.name := by
  have hmarked := countP_marked skips f fun skip => skip
  rw [mergeOne_eq]
  cases hp : partner? asm f with
  | none => exact hmarked
  | some a =>
    have houtcomes := countP_outcomes a f (marked skips f) fun skip => skip
    simp only [mergeFunc_eq, ← hmarked, ← houtcomes]
    rfl

theorem served_ofMatched (os : List Outcome) :
    (Report.ofMatched os).served = os.countP fun o => !(o == .skipped) := by
  induction os with
  | nil => rfl
  | cons o os ih =>
    simp only [Report.served, Report.ofMatched] at ih ⊢
    cases o <;> simp <;> omega

theorem mergeOne_served (skips : List String) (asm : List Listing.Func) (f : Func) :
    (mergeOne skips asm f).2.served =
      if (partner? asm f).isSome then f.blocks.countP fun b => !leavesOut skips b.name else 0 := by
  rw [mergeOne_eq]
  cases hp : partner? asm f with
  | none => rfl
  | some a =>
    simp only [mergeFunc_eq, served_ofMatched]
    exact (countP_outcomes a f (marked skips f) (!·)).trans (countP_marked skips f (!·))

theorem functions_eq (skips : List String) (asm : List Listing.Func) (fs : List Func) :
    (Report.sum (fs.map fun f => (mergeOne skips asm f).2)).functions = fs.length := by
  have hadd : ∀ r s : Report, (r + s).functions = r.functions + s.functions := by
    intro r s
    simp only [Report.functions, Report.add_def, Report.add]
    omega
  rw [Report.sum_counter rfl hadd, List.map_map]
  simp [Function.comp_def, mergeOne_functions]

theorem blocksSkipped_eq (skips : List String) (asm : List Listing.Func) (fs : List Func) :
    (Report.sum (fs.map fun f => (mergeOne skips asm f).2)).blocksSkipped =
      (fs.flatMap Func.blocks).countP fun b => leavesOut skips b.name := by
  rw [Report.sum_counter (c := Report.blocksSkipped) rfl (fun _ _ => rfl), List.map_map,
    List.countP_flatMap]
  simp only [Function.comp_def, mergeOne_blocksSkipped]

theorem served_eq (skips : List String) (asm : List Listing.Func) (fs : List Func) :
    (Report.sum (fs.map fun f => (mergeOne skips asm f).2)).served =
      ((fs.filter fun f => (partner? asm f).isSome).flatMap Func.blocks).countP fun b =>
        !leavesOut skips b.name := by
  have hadd : ∀ r s : Report, (r + s).served = r.served + s.served := by
    intro r s
    simp only [Report.served, Report.add_def, Report.add]
    omega
  rw [Report.sum_counter rfl hadd, List.map_map, List.countP_flatMap]
  induction fs with
  | nil => rfl
  | cons f fs ih =>
    rw [List.map_cons, List.sum_cons, ih, Function.comp_apply, mergeOne_served, List.filter_cons]
    split
    · rfl
    · exact Nat.zero_add _

theorem block_mem_counts_iff (hm : mergeCounting skips asm fs = .ok (fs', counts)) :
    .block p k o ∈ counts ↔ ∃ f, fs[p]? = some f ∧ (k, o) ∈ told skips asm f := by
  rw [mem_counts_iff hm]
  constructor
  · rintro ⟨_, f, hf, hc | ⟨_, _, htold, hc⟩⟩
    · cases hc
    · cases hc
      exact ⟨f, hf, htold⟩
  · rintro ⟨f, hf, htold⟩
    exact ⟨p, f, hf, .inr ⟨k, o, htold, rfl⟩⟩

theorem function_mem_counts_iff {paired : Bool}
    (hm : mergeCounting skips asm fs = .ok (fs', counts)) :
    .function p paired ∈ counts ↔ ∃ f, fs[p]? = some f ∧ (partner? asm f).isSome = paired := by
  rw [mem_counts_iff hm]
  constructor
  · rintro ⟨_, f, hf, hc | ⟨_, _, _, hc⟩⟩
    · cases hc
      exact ⟨f, hf, rfl⟩
    · cases hc
  · rintro ⟨f, hf, rfl⟩
    exact ⟨p, f, hf, .inl rfl⟩

/-- What a block is handed in the direct pass is in the ledger, and so are the gains. -/
theorem countedByGain (hm : mergeCounting skips asm fs = .ok (fs', counts)) (hf : fs[p]? = some f)
    (hl : f.layout = .line) (hp : partner? asm f = some a) (hb : (marked skips f)[k]? = some b)
    (hs : b.skip = false) :
    CountedByGain counts p k b (credit (directHandouts 0 (pool a) (marked skips f)) k b)
      (credit (handouts a (marked skips f)) k b) := by
  have hcount : ∀ o, .block p k o ∈ counts ↔ ledgerOutcome a (marked skips f) k b = o := by
    intro o
    rw [block_mem_counts_iff hm, hf]
    simp only [Option.some.injEq, exists_eq_left', mem_told_of_some hp, hl, outcomes,
      mergeLines_outcome hb]
  have hentry : ∀ h ∈ handouts a (marked skips f), h.block = k → h.entry ∈ b.lines.lines := by
    rintro h hh rfl
    obtain ⟨c, hc, _, he⟩ := entry_of_mem hh
    rwa [Option.some.inj (hb.symm.trans hc)]
  have hsub : ∀ h ∈ directHandouts 0 (pool a) (marked skips f), h ∈ handouts a (marked skips f) :=
    fun h hh => mem_handouts_iff.2 (.inl hh)
  have hall := cycles_lt_credit_iff (fun h hh => (whole_of_mem hh).2.2) hentry
  have hdirect := cycles_lt_credit_iff (fun h hh => (whole_of_mem (hsub h hh)).2.2)
    fun h hh => hentry h (hsub h hh)
  have hincl := @exists_handout_of_direct a (marked skips f) k
  refine ⟨?_, ?_, ?_⟩
  · rw [hcount, ledgerOutcome_eq_matched_iff, hdirect]
    exact and_iff_right hs
  · rw [hcount, ledgerOutcome_eq_fallback_iff]
    -- without handouts in the direct pass the block is still what it was before
    constructor
    · rintro ⟨-, hnone, hsome⟩
      have hd : credit (directHandouts 0 (pool a) (marked skips f)) k b = b :=
        credit_of_ne (fun h hh hk => hnone ⟨h, hh, hk⟩) b
      rw [hd]
      exact ⟨rfl, hall.2 hsome⟩
    · rintro ⟨heq, hlt⟩
      refine ⟨hs, fun hsome => ?_, hall.1 (heq ▸ hlt)⟩
      exact Nat.ne_of_gt (hdirect.2 hsome) heq
  · rw [hcount, ledgerOutcome_eq_unresolved_iff]
    constructor
    · rintro ⟨-, hnone⟩
      exact credit_of_ne hnone b
    · intro heq
      refine ⟨hs, fun h hh hk => ?_⟩
      have hlt := hall.2 ⟨h, hh, hk⟩
      rw [heq] at hlt
      exact Nat.lt_irrefl _ hlt

/-- Every function and every block is counted at most once in a merge, and the account is what has
been counted: each function once, each block that is left out once, and each other block of a
function with assembly once. -/
theorem merge_partitioned {report : Report} (h : merge skips asm fs = .ok (fs', report)) :
    ∃ counts, mergeCounting skips asm fs = .ok (fs', counts) ∧
      Partitioned skips asm fs fs' report counts := by
  obtain ⟨_, _, hreport⟩ := merge_eq_ok_iff.1 h
  have hm := merge_eq_counting skips asm fs
  rw [h] at hm
  cases hc : mergeCounting skips asm fs with
  | error d => simp [hc, Except.map] at hm
  | ok r =>
    obtain ⟨gs, counts⟩ := r
    obtain ⟨rfl, rfl⟩ : fs' = gs ∧ report = account counts := by simpa [hc, Except.map] using hm
    have hblock : ∀ p k o, .block p k o ∈ counts ↔
        ∃ f, fs[p]? = some f ∧ (k, o) ∈ told skips asm f := fun _ _ _ => block_mem_counts_iff hc
    refine ⟨counts, rfl, {
      counted := rfl
      once := nodup_counts hc
      functions := (congrArg Report.functions hreport).trans (functions_eq skips asm fs)
      function := fun _ _ => function_mem_counts_iff hc
      blocksSkipped := (congrArg Report.blocksSkipped hreport).trans (blocksSkipped_eq skips asm fs)
      skipped := ?_
      blocksServed := (congrArg Report.served hreport).trans (served_eq skips asm fs)
      served := ?_
      gains := ?_ }⟩
    · intro p k
      simp only [hblock, skipped_mem_told_iff, exists_marked_iff, exists_and_left]
    · intro p k
      simp only [hblock]
      constructor
      · rintro ⟨o, hne, f, hf, ho⟩
        obtain ⟨hp, hb⟩ := served_mem_told_iff.1 ⟨o, hne, ho⟩
        obtain ⟨b, hb, hs⟩ := exists_marked_iff.1 hb
        exact ⟨f, b, hf, hp, hb, hs⟩
      · rintro ⟨f, b, hf, hp, hb, hs⟩
        obtain ⟨o, hne, ho⟩ := served_mem_told_iff.2 ⟨hp, exists_marked_iff.2 ⟨b, hb, hs⟩⟩
        exact ⟨o, hne, f, hf, ho⟩
    · intro p f a k b hf hl hp hb hs
      obtain ⟨ha, hk⟩ := (partner?_eq_some_iff (merge_eq_ok_iff.1 h).1).1 hp
      refine ⟨_, _, _, ?_, merge_getElem?_of_line h hf hl ha hk, ?_,
        countedByGain hc hf hl hp hb hs⟩
      · rw [map_fst_directPass_getElem?, hb, Option.map_some]
      · rw [mergeLines_blocks, List.getElem?_mapIdx, hb, Option.map_some]

/-- A function without assembly, one block of which is left out. -/
def orphanFunc : Func :=
  ⟨"g", ⟨"a.c", 50⟩, .block,
    [.named "entry", ⟨"lpad3", false, some ⟨1, ⟨"a.c", 51⟩, ⟨"a.c", 52⟩⟩, .zero, .empty⟩]⟩

theorem merge_partitioned_orphan : ∃ fs' report,
    merge defaultSkips [nestedAsm] [nestedFunc, orphanFunc] = .ok (fs', report) ∧
      report = ⟨1, 1, 2, 1, 1, 2⟩ ∧
      ∃ counts, mergeCounting defaultSkips [nestedAsm] [nestedFunc, orphanFunc] =
          .ok (fs', counts) ∧
        Partitioned defaultSkips [nestedAsm] [nestedFunc, orphanFunc] fs' report counts := by
  refine ⟨_, _, rfl, by decide +kernel, ?_⟩
  exact merge_partitioned rfl

end LineCost.Attribution
