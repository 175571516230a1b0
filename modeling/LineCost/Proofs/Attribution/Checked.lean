import LineCost.Proofs.Attribution.DirectPass
import LineCost.Proofs.Attribution.Pairing
import LineCost.Proofs.Attribution.BlockCosts
import LineCost.Proofs.Outline.Checked

/-!
Attribution with counters that have a limit. What is attributed is what would be without; each step
only adds to what is there, so if what it comes to is within the limit, so is all on the way. What
lies inside the range of a block is added up even where it makes no difference, and has to be within
the limit too.
-/

namespace LineCost

/-- All counters of an assembly function are within the limit. -/
def Listing.Func.Fits (f : Listing.Func) : Prop :=
  (∀ b ∈ f.blocks, b.tally.Fits) ∧ ∀ e ∈ f.lines.entries, e.2.Fits

instance (f : Listing.Func) : Decidable f.Fits :=
  inferInstanceAs (Decidable ((∀ b ∈ f.blocks, b.tally.Fits) ∧ ∀ e ∈ f.lines.entries, e.2.Fits))

namespace Attribution

open Outline

variable {left : LineMap} {b : Block} {blocks : List Block} {i : Interval}
  {ranges : List Interval} {hit : Bool} {served : List (Block × Bool)} {asm : Listing.Func}

section Lines

/-- What a block takes directly is added to entries that are there. -/
theorem takeDirect_of_kept (hs : ¬ b.skip = true) (left : LineMap) :
    takeDirect left b = (left.filter fun n _ => !records b n,
      { b with lines := b.lines.addAll (left.filter fun n _ => records b n).entries },
      !(left.filter fun n _ => records b n).entries.isEmpty) := by
  have hlines : ∀ n ∈ (left.filter fun n _ => records b n).lines, n ∈ b.lines.lines := by
    intro n hn
    obtain ⟨t, ht⟩ := LineMap.mem_lines_iff.1 hn
    rw [LineMap.get?_filter, Option.filter_eq_some_iff] at ht
    exact (records_iff.1 ht.2).2
  rw [takeDirect, if_neg hs, LineMap.addAll_eq_map hlines]

theorem takeDirect_of_checked {r : LineMap × Block × Bool} (h : checkedTakeDirect left b = .ok r) :
    takeDirect left b = r ∧ (b.Fits → r.2.1.Fits) := by
  rw [checkedTakeDirect] at h
  by_cases hs : b.skip = true
  · rw [if_pos hs] at h
    obtain rfl := Except.ok.inj h
    exact ⟨by rw [takeDirect, if_pos hs], id⟩
  · rw [if_neg hs] at h
    obtain ⟨lines, hlines, h⟩ := bind_eq_ok h
    obtain rfl := Except.ok.inj h
    obtain ⟨rfl, hfits⟩ := LineMap.addAll_of_checkedAddAll hlines
    exact ⟨takeDirect_of_kept hs left, fun hb => ⟨hb.1, hfits hb.2⟩⟩

/-- What fits after a block has taken its lines has fitted before. -/
theorem fits_of_takeDirect (h : (takeDirect left b).2.1.Fits) :
    b.Fits ∧ checkedTakeDirect left b = .ok (takeDirect left b) := by
  by_cases hs : b.skip = true
  · rw [takeDirect, if_pos hs] at h ⊢
    exact ⟨h, by rw [checkedTakeDirect, if_pos hs]⟩
  · rw [takeDirect_of_kept hs] at h ⊢
    refine ⟨⟨h.1, LineMap.fits_of_fits_addAll h.2⟩, ?_⟩
    simp only [checkedTakeDirect, if_neg hs, LineMap.checkedAddAll_of_fits h.2, ok_bind]
    rfl

theorem directPass_of_checked {r : LineMap × List (Block × Bool)}
    (h : checkedDirectPass left blocks = .ok r) :
    directPass left blocks = r ∧ ((∀ b ∈ blocks, b.Fits) → ∀ x ∈ r.2, x.1.Fits) := by
  induction blocks generalizing left r with
  | nil =>
    obtain rfl := Except.ok.inj h
    exact ⟨rfl, fun _ => List.forall_mem_nil _⟩
  | cons b rest ih =>
    obtain ⟨⟨left', b', hit⟩, hb, h⟩ := bind_eq_ok h
    obtain ⟨⟨left'', rest'⟩, hrest, h⟩ := bind_eq_ok h
    obtain rfl := Except.ok.inj h
    obtain ⟨hfirst, hfits⟩ := takeDirect_of_checked hb
    obtain ⟨hothers, hall⟩ := ih hrest
    refine ⟨by rw [directPass, hfirst]; simp only [hothers], ?_⟩
    intro hblocks
    obtain ⟨hb, hrest⟩ := List.forall_mem_cons.1 hblocks
    exact List.forall_mem_cons.2 ⟨hfits hb, hall hrest⟩

theorem fits_of_directPass (h : ∀ x ∈ (directPass left blocks).2, x.1.Fits) :
    (∀ b ∈ blocks, b.Fits) ∧ checkedDirectPass left blocks = .ok (directPass left blocks) := by
  induction blocks generalizing left with
  | nil => exact ⟨List.forall_mem_nil _, rfl⟩
  | cons b rest ih =>
    rw [directPass] at h
    obtain ⟨hfirst, hothers⟩ := List.forall_mem_cons.1 h
    obtain ⟨hb, hcheck⟩ := fits_of_takeDirect hfirst
    obtain ⟨hrest, hchecks⟩ := ih hothers
    refine ⟨List.forall_mem_cons.2 ⟨hb, hrest⟩, ?_⟩
    rw [checkedDirectPass, hcheck, ok_bind]
    simp only [hchecks, ok_bind]
    rfl

theorem takeRange?_of_checked {r : Option (Tally × LineMap)}
    (h : checkedTakeRange? left i = .ok r) : takeRange? left i = r := by
  rw [checkedTakeRange?] at h
  rw [takeRange?]
  by_cases hempty : (left.filter fun n _ => i.includes n).entries.isEmpty = true
  · rw [if_pos hempty] at h ⊢
    exact Except.ok.inj h
  · rw [if_neg hempty] at h ⊢
    obtain ⟨sum, hsum, h⟩ := bind_eq_ok h
    obtain ⟨_, rfl⟩ := Tally.checkedSum_eq_ok_iff.1 hsum
    exact Except.ok.inj h

theorem checkedTakeRange?_of_fits (h : ∀ taken, takeRange? left i = some taken → taken.1.Fits) :
    checkedTakeRange? left i = .ok (takeRange? left i) := by
  rw [takeRange?] at h ⊢
  rw [checkedTakeRange?]
  by_cases hempty : (left.filter fun n _ => i.includes n).entries.isEmpty = true
  · rw [if_pos hempty, if_pos hempty]
  · rw [if_neg hempty] at h ⊢
    have hfits : (Tally.sum (left.filter fun n _ => i.includes n).tallies).Fits := h _ rfl
    rw [if_neg hempty, Tally.checkedSum_of_fits hfits]
    rfl

theorem takeAround?_eq (ranges : List Interval) (left : LineMap) (i : Interval) :
    takeAround? ranges left i = match takeRange? left i with
      | some taken => some taken
      | none => (narrowest? (ranges.filter (·.encloses i))).bind (takeRange? left) := by
  rw [takeAround?]
  cases takeRange? left i <;> rfl

theorem takeAround?_of_checked {r : Option (Tally × LineMap)}
    (h : checkedTakeAround? ranges left i = .ok r) : takeAround? ranges left i = r := by
  obtain ⟨own, hown, h⟩ := bind_eq_ok h
  rw [takeAround?_eq, takeRange?_of_checked hown]
  cases own with
  | some taken => exact Except.ok.inj h
  | none =>
    cases hn : narrowest? (ranges.filter (·.encloses i)) with
    | none =>
      rw [hn] at h
      exact Except.ok.inj h
    | some outer =>
      rw [hn] at h
      exact takeRange?_of_checked h

theorem checkedTakeAround?_of_fits
    (h : ∀ taken, takeAround? ranges left i = some taken → taken.1.Fits) :
    checkedTakeAround? ranges left i = .ok (takeAround? ranges left i) := by
  rw [takeAround?_eq] at h ⊢
  have hown : ∀ taken, takeRange? left i = some taken → taken.1.Fits := by
    intro taken ht
    apply h
    rw [ht]
  rw [checkedTakeAround?, checkedTakeRange?_of_fits hown, ok_bind]
  cases hr : takeRange? left i with
  | some taken => rfl
  | none =>
    rw [hr] at h
    cases hn : narrowest? (ranges.filter (·.encloses i)) with
    | none => rfl
    | some outer =>
      rw [hn] at h
      exact checkedTakeRange?_of_fits h

/-- What becomes of a block that has to be served by its range, when it has taken what it can. -/
def book (left : LineMap) (b : Block) (first : Nat) :
    Option (Tally × LineMap) → LineMap × Block × Outcome
  | some (t, left) => (left, { b with lines := b.lines.addAt first t }, .fallback)
  | none => (left, b, .unresolved)

/-- A block is served by its range, or nothing becomes of it. -/
theorem takeByRange_cases (ranges : List Interval) (left : LineMap) (b : Block) (hit : Bool) :
    (∃ outcome, takeByRange ranges left b hit = (left, b, outcome) ∧
      checkedTakeByRange ranges left b hit = .ok (left, b, outcome)) ∨
    ∃ i first, takeByRange ranges left b hit =
        book left b first (takeAround? ranges left i) ∧
      checkedTakeByRange ranges left b hit = (do
        match ← checkedTakeAround? ranges left i with
        | some (t, left) =>
          let lines ← b.lines.checkedAddAt first t
          return (left, { b with lines }, .fallback)
        | none => return (left, b, .unresolved)) := by
  rw [takeByRange, checkedTakeByRange]
  by_cases hs : b.skip = true
  · rw [if_pos hs, if_pos hs]
    exact .inl ⟨_, rfl, rfl⟩
  · rw [if_neg hs, if_neg hs]
    by_cases hhit : hit = true
    · rw [if_pos hhit, if_pos hhit]
      exact .inl ⟨_, rfl, rfl⟩
    · rw [if_neg hhit, if_neg hhit]
      cases b.range? with
      | none => exact .inl ⟨_, rfl, rfl⟩
      | some i =>
        cases b.firstRecorded? with
        | none => exact .inl ⟨_, rfl, rfl⟩
        | some first =>
          refine .inr ⟨i, first, ?_, rfl⟩
          cases ht : takeAround? ranges left i <;> simp only [ht, book]

theorem takeByRange_of_checked {r : LineMap × Block × Outcome}
    (h : checkedTakeByRange ranges left b hit = .ok r) :
    takeByRange ranges left b hit = r ∧ (b.Fits → r.2.1.Fits) := by
  rcases takeByRange_cases ranges left b hit with ⟨outcome, heq, hcheck⟩ | ⟨i, first, heq, hcheck⟩
  · obtain rfl := Except.ok.inj (hcheck.symm.trans h)
    exact ⟨heq, id⟩
  · rw [hcheck] at h
    obtain ⟨taken, htaken, h⟩ := bind_eq_ok h
    rw [heq, takeAround?_of_checked htaken]
    cases taken with
    | none =>
      obtain rfl := Except.ok.inj h
      exact ⟨rfl, id⟩
    | some taken =>
      obtain ⟨lines, hlines, h⟩ := bind_eq_ok h
      obtain rfl := Except.ok.inj h
      obtain ⟨rfl, hfits⟩ := LineMap.addAt_of_checkedAddAt hlines
      exact ⟨rfl, fun hb => ⟨hb.1, hfits hb.2⟩⟩

theorem fits_of_takeByRange (h : (takeByRange ranges left b hit).2.1.Fits) :
    b.Fits ∧ checkedTakeByRange ranges left b hit = .ok (takeByRange ranges left b hit) := by
  rcases takeByRange_cases ranges left b hit with ⟨outcome, heq, hcheck⟩ | ⟨i, first, heq, hcheck⟩
  · rw [heq] at h ⊢
    exact ⟨h, hcheck⟩
  · rw [heq] at h ⊢
    -- what is booked fits, so what has been taken for it does
    have htaken : ∀ taken, takeAround? ranges left i = some taken → taken.1.Fits := by
      intro taken ht
      rw [ht] at h
      exact Tally.fits_right_of_add (LineMap.fits_addAt_iff.1 h.2).2
    rw [hcheck, checkedTakeAround?_of_fits htaken, ok_bind]
    cases ht : takeAround? ranges left i with
    | none =>
      rw [ht] at h
      exact ⟨h, rfl⟩
    | some taken =>
      rw [ht] at h
      refine ⟨⟨h.1, (LineMap.fits_addAt_iff.1 h.2).1⟩, ?_⟩
      simp only [LineMap.checkedAddAt_of_fits h.2, ok_bind]
      rfl

theorem rangePass_cons (ranges : List Interval) (left : LineMap) (b : Block) (hit : Bool)
    (rest : List (Block × Bool)) : rangePass ranges left ((b, hit) :: rest) =
      (takeByRange ranges left b hit).2 ::
        rangePass ranges (takeByRange ranges left b hit).1 rest := rfl

theorem rangePass_of_checked {r : List (Block × Outcome)}
    (h : checkedRangePass ranges left served = .ok r) :
    rangePass ranges left served = r ∧ ((∀ x ∈ served, x.1.Fits) → ∀ x ∈ r, x.1.Fits) := by
  induction served generalizing left r with
  | nil =>
    obtain rfl := Except.ok.inj h
    exact ⟨rfl, fun _ => List.forall_mem_nil _⟩
  | cons x rest ih =>
    obtain ⟨b, hit⟩ := x
    obtain ⟨⟨left', b', outcome⟩, hb, h⟩ := bind_eq_ok h
    obtain ⟨rest', hrest, h⟩ := bind_eq_ok h
    obtain rfl := Except.ok.inj h
    obtain ⟨hfirst, hfits⟩ := takeByRange_of_checked hb
    obtain ⟨hothers, hall⟩ := ih hrest
    refine ⟨by rw [rangePass, hfirst]; simp only [hothers], ?_⟩
    intro hserved
    obtain ⟨hb, hrest⟩ := List.forall_mem_cons.1 hserved
    exact List.forall_mem_cons.2 ⟨hfits hb, hall hrest⟩

theorem fits_of_rangePass (h : ∀ x ∈ rangePass ranges left served, x.1.Fits) :
    (∀ x ∈ served, x.1.Fits) ∧
      checkedRangePass ranges left served = .ok (rangePass ranges left served) := by
  induction served generalizing left with
  | nil => exact ⟨List.forall_mem_nil _, rfl⟩
  | cons x rest ih =>
    obtain ⟨b, hit⟩ := x
    rw [rangePass_cons] at h ⊢
    obtain ⟨hfirst, hothers⟩ := List.forall_mem_cons.1 h
    obtain ⟨hb, hcheck⟩ := fits_of_takeByRange hfirst
    obtain ⟨hrest, hchecks⟩ := ih hothers
    refine ⟨List.forall_mem_cons.2 ⟨hb, hrest⟩, ?_⟩
    rw [checkedRangePass, hcheck, ok_bind]
    simp only [hchecks, ok_bind]
    rfl

theorem mergeLines_of_checked {r : List (Block × Outcome)}
    (h : checkedMergeLines asm blocks = .ok r) :
    mergeLines asm blocks = r ∧ ((∀ b ∈ blocks, b.Fits) → ∀ x ∈ r, x.1.Fits) := by
  obtain ⟨⟨left, served⟩, hdirect, h⟩ := bind_eq_ok h
  obtain ⟨hpass, hfits⟩ := directPass_of_checked hdirect
  obtain ⟨hrest, hall⟩ := rangePass_of_checked h
  refine ⟨?_, fun hblocks => hall (hfits hblocks)⟩
  rw [mergeLines, hpass]
  exact hrest

theorem checkedMergeLines_of_fits (h : ∀ x ∈ mergeLines asm blocks, x.1.Fits) :
    checkedMergeLines asm blocks = .ok (mergeLines asm blocks) := by
  obtain ⟨hserved, hrange⟩ := fits_of_rangePass h
  obtain ⟨_, hdirect⟩ := fits_of_directPass hserved
  rw [checkedMergeLines, hdirect, ok_bind]
  exact hrange

end Lines

section Blocks

variable {asm : List Listing.Block} {f : Func} {a : Listing.Func}

theorem mergeBlock_of_checked {r : Block × Outcome} (h : checkedMergeBlock asm b = .ok r) :
    mergeBlock asm b = r ∧ (innerTally asm b).Fits ∧
      ((∀ c ∈ asm, c.tally.Fits) → b.Fits → r.1.Fits) := by
  rw [checkedMergeBlock] at h
  rw [mergeBlock, innerTally]
  by_cases hs : b.skip = true
  · rw [if_pos hs] at h
    obtain rfl := Except.ok.inj h
    rw [if_pos hs, if_pos hs]
    exact ⟨rfl, Tally.fits_zero, fun _ hb => hb⟩
  · rw [if_neg hs] at h
    rw [if_neg hs, if_neg hs]
    cases hi : b.range? with
    | none =>
      rw [hi] at h
      obtain rfl := Except.ok.inj h
      exact ⟨rfl, Tally.fits_zero, fun _ hb => hb⟩
    | some i =>
      rw [hi] at h
      obtain ⟨sum, hsum, h⟩ := bind_eq_ok h
      obtain ⟨hfits, rfl⟩ := Tally.checkedSum_eq_ok_iff.1 hsum
      have hinner : ((some i).elim Tally.zero (tallyInside asm b.name)).Fits := by
        rw [Option.elim_some, ← sum_candidates_strict]
        exact hfits
      cases he : candidates b.name i .equal asm with
      | cons exact rest =>
        simp only [he] at h ⊢
        obtain rfl := Except.ok.inj h
        refine ⟨rfl, hinner, fun hasm hb => ⟨?_, hb.2⟩⟩
        have hmem : exact ∈ candidates b.name i .equal asm := he ▸ List.mem_cons_self
        obtain ⟨c, hc, rfl⟩ := List.mem_map.1 hmem
        exact hasm c (List.mem_filter.1 hc).1
      | nil =>
        cases hin : candidates b.name i .strict asm with
        | nil =>
          simp only [he, hin] at h ⊢
          obtain rfl := Except.ok.inj h
          exact ⟨rfl, hinner, fun _ hb => hb⟩
        | cons t rest =>
          simp only [he, hin] at h ⊢
          obtain ⟨tally, htally, h⟩ := bind_eq_ok h
          obtain ⟨hnew, rfl⟩ := Tally.checkedAdd_eq_ok_iff.1 htally
          obtain rfl := Except.ok.inj h
          exact ⟨rfl, hinner, fun _ hb => ⟨hnew, hb.2⟩⟩

theorem checkedMergeBlock_of_fits (h : (mergeBlock asm b).1.Fits)
    (hinner : (innerTally asm b).Fits) : checkedMergeBlock asm b = .ok (mergeBlock asm b) := by
  rw [mergeBlock] at h ⊢
  rw [innerTally] at hinner
  rw [checkedMergeBlock]
  by_cases hs : b.skip = true
  · rw [if_pos hs, if_pos hs]
  · rw [if_neg hs] at h hinner ⊢
    rw [if_neg hs]
    cases hi : b.range? with
    | none => rfl
    | some i =>
      rw [hi] at h hinner
      rw [Option.elim_some, ← sum_candidates_strict] at hinner
      simp only [Tally.checkedSum_of_fits hinner, ok_bind]
      cases he : candidates b.name i .equal asm with
      | cons exact rest => rfl
      | nil =>
        cases hin : candidates b.name i .strict asm with
        | nil => rfl
        | cons t rest =>
          simp only [he, hin] at h
          simp only [Tally.checkedAdd_of_fits h.1, ok_bind]
          rfl

end Blocks

section Funcs

variable {skips : List String} {asm : List Listing.Func} {f : Func} {fs gs : List Func}
  {a : Listing.Func} {report : Report}

/-- In block layout, what lies inside the range of each block fits. -/
def InsideFits (f : Func) (a : Listing.Func) : Prop :=
  f.layout = .block → ∀ b ∈ f.blocks, (innerTally a.blocks b).Fits

theorem mergeFunc_of_checked {r : Func × Report} (h : checkedMergeFunc f a = .ok r) :
    mergeFunc f a = r ∧ InsideFits f a ∧ (a.Fits → f.Fits → r.1.Fits) := by
  obtain ⟨served, hserved, h⟩ := bind_eq_ok h
  obtain rfl := Except.ok.inj h
  rw [checkedServe] at hserved
  rw [mergeFunc]
  cases hl : f.layout with
  | line =>
    rw [hl] at hserved
    obtain ⟨rfl, hfits⟩ := mergeLines_of_checked hserved
    refine ⟨rfl, ?_, fun _ hf => ?_⟩
    · intro hblock
      cases hl.symm.trans hblock
    · rw [Func.Fits, List.forall_mem_map]
      exact hfits hf
  | block =>
    rw [hl] at hserved
    obtain rfl := map_of_mapM_eq_ok (fun b r hr => (mergeBlock_of_checked hr).1) hserved
    obtain ⟨hall, hback⟩ := mapM_mem_of_eq_ok hserved
    refine ⟨rfl, ?_, fun ha hf => ?_⟩
    · intro _ b hb
      obtain ⟨r, _, hr⟩ := hall b hb
      exact (mergeBlock_of_checked hr).2.1
    · rw [Func.Fits, List.forall_mem_map]
      intro r hr
      obtain ⟨b, hb, hbr⟩ := hback r hr
      exact (mergeBlock_of_checked hbr).2.2 ha.1 (hf b hb)

theorem checkedMergeFunc_of_fits (h : (mergeFunc f a).1.Fits) (hinside : InsideFits f a) :
    checkedMergeFunc f a = .ok (mergeFunc f a) := by
  rw [mergeFunc] at h ⊢
  rw [checkedMergeFunc, checkedServe]
  cases hl : f.layout with
  | line =>
    rw [hl] at h
    rw [Func.Fits, List.forall_mem_map] at h
    simp only [checkedMergeLines_of_fits h, ok_bind]
    rfl
  | block =>
    rw [hl] at h
    rw [Func.Fits, List.forall_mem_map, List.forall_mem_map] at h
    have hserved : f.blocks.mapM (checkedMergeBlock a.blocks) =
        .ok (f.blocks.map (mergeBlock a.blocks)) :=
      mapM_eq_ok fun b hb => checkedMergeBlock_of_fits (h b hb) (hinside hl b hb)
    simp only [hserved, ok_bind]
    rfl

theorem fits_markSkipped_iff : (markSkipped skips f).Fits ↔ f.Fits := by
  rw [Func.Fits, markSkipped, List.forall_mem_map]
  exact Iff.rfl

/-- For the assembly that a function is paired with, what lies inside its blocks fits. -/
def PartnerFits (skips : List String) (asm : List Listing.Func) (f : Func) : Prop :=
  ∀ a, partner? asm f = some a → InsideFits (markSkipped skips f) a

theorem checkedMergeOne_eq (skips : List String) (asm : List Listing.Func) (f : Func) :
    checkedMergeOne skips asm f = match partner? asm f with
      | some a => checkedMergeFunc (markSkipped skips f) a
      | none => .ok (markSkipped skips f, .ofUnmatched ((marked skips f).countP (·.skip))) := rfl

theorem mergeOne_of_checked {r : Func × Report} (h : checkedMergeOne skips asm f = .ok r) :
    mergeOne skips asm f = r ∧ PartnerFits skips asm f ∧
      ((∀ a ∈ asm, a.Fits) → f.Fits → r.1.Fits) := by
  rw [checkedMergeOne_eq] at h
  rw [mergeOne_eq, PartnerFits]
  cases hp : partner? asm f with
  | none =>
    rw [hp] at h
    obtain rfl := Except.ok.inj h
    refine ⟨rfl, ?_, fun _ => fits_markSkipped_iff.2⟩
    intro a ha
    cases ha
  | some a =>
    rw [hp] at h
    obtain ⟨heq, hinside, hfits⟩ := mergeFunc_of_checked h
    refine ⟨heq, ?_, ?_⟩
    · intro c hc
      obtain rfl := Option.some.inj hc
      exact hinside
    · intro hasm hf
      exact hfits (hasm a (List.mem_of_find?_eq_some hp)) (fits_markSkipped_iff.2 hf)

theorem checkedMergeOne_of_fits (h : (mergeOne skips asm f).1.Fits)
    (hinside : PartnerFits skips asm f) :
    checkedMergeOne skips asm f = .ok (mergeOne skips asm f) := by
  rw [mergeOne_eq] at h ⊢
  rw [checkedMergeOne_eq]
  cases hp : partner? asm f with
  | none => rfl
  | some a =>
    rw [hp] at h
    exact checkedMergeFunc_of_fits h (hinside a hp)

/-- What is attributed with a limit is attributed without. -/
theorem merge_of_checkedMerge {r : Except DuplicateFunction (List Func × Report)}
    (h : checkedMerge skips asm fs = .ok r) : merge skips asm fs = r := by
  rw [checkedMerge] at h
  rw [merge]
  cases hd : duplicate? [] asm with
  | some d =>
    rw [hd] at h
    exact Except.ok.inj h
  | none =>
    rw [hd] at h
    obtain ⟨served, hserved, h⟩ := bind_eq_ok h
    obtain rfl := map_of_mapM_eq_ok (fun f r hr => (mergeOne_of_checked hr).1) hserved
    exact Except.ok.inj h

/-- Of counters that are within the limit, a merge makes the counters that it makes without a limit,
exactly if these are within the limit and so is what lies inside blocks. -/
theorem checkedMerge_eq_ok_iff (hasm : ∀ a ∈ asm, a.Fits) (hfs : ∀ f ∈ fs, f.Fits) :
    checkedMerge skips asm fs = .ok (.ok (gs, report)) ↔
      merge skips asm fs = .ok (gs, report) ∧ (∀ g ∈ gs, g.Fits) ∧
        ∀ f ∈ fs, PartnerFits skips asm f := by
  constructor
  · intro h
    refine ⟨merge_of_checkedMerge h, ?_⟩
    rw [checkedMerge] at h
    cases hd : duplicate? [] asm with
    | some d =>
      rw [hd] at h
      cases h
    | none =>
      rw [hd] at h
      obtain ⟨served, hserved, h⟩ := bind_eq_ok h
      obtain ⟨rfl, rfl⟩ := Prod.mk.inj (Except.ok.inj (Except.ok.inj h))
      obtain ⟨hall, hback⟩ := mapM_mem_of_eq_ok hserved
      constructor
      · rw [List.forall_mem_map]
        intro r hr
        obtain ⟨f, hf, hfr⟩ := hback r hr
        exact (mergeOne_of_checked hfr).2.2 hasm (hfs f hf)
      · intro f hf
        obtain ⟨r, _, hr⟩ := hall f hf
        exact (mergeOne_of_checked hr).2.1
  · intro h
    obtain ⟨hmerge, hgs, hinside⟩ := h
    rw [merge] at hmerge
    rw [checkedMerge]
    cases hd : duplicate? [] asm with
    | some d =>
      rw [hd] at hmerge
      cases hmerge
    | none =>
      rw [hd] at hmerge
      obtain ⟨rfl, rfl⟩ := Prod.mk.inj (Except.ok.inj hmerge)
      rw [List.forall_mem_map, List.forall_mem_map] at hgs
      have hserved : fs.mapM (checkedMergeOne skips asm) = .ok (fs.map (mergeOne skips asm)) :=
        mapM_eq_ok fun f hf => checkedMergeOne_of_fits (hgs f hf) (hinside f hf)
      simp only [hserved, ok_bind]
      rfl

end Funcs

end Attribution

end LineCost
