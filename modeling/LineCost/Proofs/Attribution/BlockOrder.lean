import LineCost.Proofs.Attribution.Frame
import LineCost.Proofs.Attribution.Outcomes

/-!
The order of the blocks in an assembly function. The account of a merge does not depend on it, and
of the outline only the tallies of those blocks for which two exact counterparts differ: such a
block gets the tally of the one that comes first.
-/

namespace LineCost.Attribution

open Outline

/-- The same assembly function with its blocks in any order. -/
structure Reblocked (a a' : Listing.Func) : Prop where
  rest : a' = { a with blocks := a'.blocks }
  perm : a.blocks.Perm a'.blocks

/-- Two assembly blocks that have the name of a block and exactly its lines differ in their tallies.
A block that is left out is not contested. -/
def Contested (asm : List Listing.Block) (b : Block) : Prop :=
  b.skip = false ∧ ∃ i, b.range? = some i ∧ ∃ c ∈ asm, ∃ d ∈ asm, c.name = b.name ∧
    d.name = b.name ∧ c.range = some i ∧ d.range = some i ∧ c.tally ≠ d.tally

/-- A function after two merges whose assembly has its blocks in different orders. -/
structure Reordered (asm : List Listing.Func) (f f' : Func) : Prop where
  frame : f' = { f with blocks := f'.blocks }
  blocks : List.Forall₂ (fun b b' => b' = { b with tally := b'.tally } ∧ (b' = b ∨
    f.layout = .block ∧ ∃ a ∈ asm, key a = (f.name, f.decl.line) ∧ Contested a.blocks b))
    f.blocks f'.blocks

/-- How far the order of the blocks in the assembly functions matters to a merge. -/
structure OrderMatters (skips : List String) (asm : List Listing.Func) (fs : List Func) : Prop where
  /-- The account does not depend on it, nor does a failure. -/
  account : ∀ asm', List.Forall₂ Reblocked asm asm' →
    (merge skips asm' fs).map Prod.snd = (merge skips asm fs).map Prod.snd
  /-- Of the outline, it is at most the tallies of contested blocks that do. -/
  outline : ∀ asm' gs gs' r r', List.Forall₂ Reblocked asm asm' →
    merge skips asm fs = .ok (gs, r) → merge skips asm' fs = .ok (gs', r') →
      List.Forall₂ (Reordered asm) gs gs'
  /-- All orders give the same outline exactly if no block is contested. -/
  settled : ∀ gs r, merge skips asm fs = .ok (gs, r) →
    ((∀ asm', List.Forall₂ Reblocked asm asm' → merge skips asm' fs = .ok (gs, r)) ↔
      ∀ f ∈ gs, f.layout = .block → ∀ a ∈ asm, key a = (f.name, f.decl.line) →
        ∀ b ∈ f.blocks, ¬ Contested a.blocks b)

variable {skips : List String} {asm asm' : List Listing.Func} {as as' : List Listing.Block}
  {a a' : Listing.Func} {b : Block} {i : Interval} {t : Tally}

theorem mem_counterparts_iff {name : String} : (i, t) ∈ counterparts as name ↔
    ∃ c ∈ as, c.name = name ∧ c.range = some i ∧ c.tally = t := by
  rw [counterparts, List.mem_filterMap]
  refine exists_congr fun c => and_congr_right fun _ => ?_
  by_cases hname : c.name = name <;> simp [hname]

/-- An exact tally is that of some assembly block with the name and the lines of the block. -/
theorem exists_of_exactTally? (h : exactTally? as b = some t) :
    b.skip = false ∧ ∃ i, b.range? = some i ∧ ∃ c ∈ as, c.name = b.name ∧ c.range = some i ∧
      c.tally = t := by
  rw [exactTally?] at h
  split at h
  · cases h
  · rename_i hskip
    obtain ⟨i, hi, hfind⟩ := Option.bind_eq_some_iff.1 h
    obtain ⟨⟨j, u⟩, hc, rfl⟩ := Option.map_eq_some_iff.1 hfind
    obtain rfl : j = i := by simpa using List.find?_some hc
    exact ⟨Bool.eq_false_iff.2 hskip, j, hi, mem_counterparts_iff.1 (List.mem_of_find?_eq_some hc)⟩

/-- There is an exact tally as soon as there is such an assembly block. -/
theorem exactTally?_ne_none {c : Listing.Block} (hs : b.skip = false) (hi : b.range? = some i)
    (hc : c ∈ as) (hname : c.name = b.name) (hrange : c.range = some i) :
    exactTally? as b ≠ none := by
  have hmem : (i, c.tally) ∈ counterparts as b.name :=
    mem_counterparts_iff.2 ⟨c, hc, hname, hrange, rfl⟩
  intro hnone
  simp only [exactTally?, hs, Bool.false_eq_true, if_false, hi, Option.bind_some,
    Option.map_eq_none_iff, List.find?_eq_none] at hnone
  exact hnone _ hmem (by simp)

theorem exactTally?_cons {c : Listing.Block} (hs : b.skip = false) (hi : b.range? = some i)
    (hname : c.name = b.name) (hrange : c.range = some i) :
    exactTally? (c :: as) b = some c.tally := by
  simp [exactTally?, hs, hi, counterparts, hname, hrange]

/-- Exact tallies do not depend on the order where they do not differ. -/
theorem exactTally?_perm (hp : as.Perm as') (hb : ¬ Contested as b) :
    exactTally? as' b = exactTally? as b := by
  cases h : exactTally? as b with
  | none =>
    apply Option.eq_none_iff_forall_ne_some.2
    intro t ht
    obtain ⟨hs, i, hi, c, hc, hname, hrange, -⟩ := exists_of_exactTally? ht
    exact exactTally?_ne_none hs hi (hp.mem_iff.2 hc) hname hrange h
  | some t =>
    obtain ⟨hs, i, hi, c, hc, hcname, hcrange, rfl⟩ := exists_of_exactTally? h
    obtain ⟨u, hu⟩ := Option.ne_none_iff_exists'.1
      (exactTally?_ne_none hs hi (hp.mem_iff.1 hc) hcname hcrange)
    obtain ⟨-, j, hj, d, hd, hdname, hdrange, rfl⟩ := exists_of_exactTally? hu
    obtain rfl : i = j := Option.some.inj (hi.symm.trans hj)
    rw [hu]
    apply congrArg some
    apply Classical.byContradiction
    intro hne
    exact hb ⟨hs, i, hi, c, hc, d, hp.mem_iff.2 hd, hcname, hdname, hcrange, hdrange, Ne.symm hne⟩

theorem innerTally_perm (hp : as.Perm as') (b : Block) : innerTally as' b = innerTally as b := by
  have hinside : ∀ i, tallyInside as' b.name i = tallyInside as b.name i := by
    intro i
    exact Tally.sum_perm (((hp.symm.filterMap _).filter _).map _)
  simp only [innerTally, funext hinside]

theorem mergeBlock_perm (hp : as.Perm as') (hb : ¬ Contested as b) :
    (mergeBlock as' b).1 = (mergeBlock as b).1 := by
  rw [mergeBlock_eq, mergeBlock_eq, exactTally?_perm hp hb, innerTally_perm hp]

/-- What becomes of a block depends on whether there are candidates, not on which comes first. -/
theorem mergeBlock_outcome_perm (hp : as.Perm as') (b : Block) :
    (mergeBlock as' b).2 = (mergeBlock as b).2 := by
  have hempty : ∀ i how, (candidates b.name i how as').isEmpty =
      (candidates b.name i how as).isEmpty :=
    fun i how => ((hp.symm.filter _).map _).isEmpty_eq
  simp only [mergeBlock_outcome_eq, hempty]

namespace Reblocked

theorem key (h : Reblocked a a') : key a' = Attribution.key a := by
  rw [h.rest]
  rfl

theorem mergeLines (h : Reblocked a a') (bs : List Block) :
    mergeLines a' bs = Attribution.mergeLines a bs := by
  rw [h.rest]
  rfl

end Reblocked

theorem map_key_reblocked (h : List.Forall₂ Reblocked asm asm') :
    asm'.map key = asm.map key := by
  induction h with
  | nil => rfl
  | cons ha _ ih => rw [List.map_cons, List.map_cons, ha.key, ih]

theorem duplicate?_reblocked (h : List.Forall₂ Reblocked asm asm') (seen : List (String × Nat)) :
    duplicate? seen asm' = duplicate? seen asm := by
  induction h generalizing seen with
  | nil => rfl
  | cons ha _ ih =>
    have hname := congrArg Prod.fst ha.key
    have hline := congrArg Prod.snd ha.key
    simp only [key] at hname hline
    simp only [duplicate?, ha.key, ih, hname, hline]

/-- Functions are paired the same way. -/
theorem partner?_reblocked (h : List.Forall₂ Reblocked asm asm') (f : Func) :
    partner? asm f = none ∧ partner? asm' f = none ∨
      ∃ a a', partner? asm f = some a ∧ partner? asm' f = some a' ∧ Reblocked a a' := by
  induction h with
  | nil => exact .inl ⟨rfl, rfl⟩
  | @cons a a' _ _ ha _ ih =>
    rw [partner?, partner?, List.find?_cons, List.find?_cons, ha.key]
    cases key a == (f.name, f.decl.line) with
    | true => exact .inr ⟨a, a', rfl, rfl, ha⟩
    | false => exact ih

theorem mergeOne_account (h : List.Forall₂ Reblocked asm asm') (f : Func) :
    (mergeOne skips asm' f).2 = (mergeOne skips asm f).2 := by
  rw [mergeOne_eq, mergeOne_eq]
  rcases partner?_reblocked h f with ⟨hp, hp'⟩ | ⟨a, a', hp, hp', ha⟩
  · rw [hp, hp']
  · rw [hp, hp']
    simp only [mergeFunc, ha.mergeLines]
    cases (markSkipped skips f).layout with
    | line => rfl
    | block => simp only [List.map_map, Function.comp_def, mergeBlock_outcome_perm ha.perm]

theorem Reordered.refl (asm : List Listing.Func) (f : Func) : Reordered asm f f where
  frame := rfl
  blocks := List.forall₂_same.2 fun _ _ => ⟨rfl, .inl rfl⟩

/-- The tally that a block has got plays no part. -/
theorem contested_mergeBlock_iff : Contested as (mergeBlock as b).1 ↔ Contested as b := by
  rw [mergeBlock_eq]
  rfl

theorem mergeOne_reordered (hn : (asm.map key).Nodup) (h : List.Forall₂ Reblocked asm asm')
    (f : Func) : Reordered asm (mergeOne skips asm f).1 (mergeOne skips asm' f).1 := by
  rcases partner?_reblocked h f with ⟨hp, hp'⟩ | ⟨a, a', hp, hp', ha⟩
  · rw [mergeOne_of_none hp, mergeOne_of_none hp']
    exact .refl asm _
  · cases hl : f.layout with
    | line =>
      rw [mergeOne_of_line hp hl, mergeOne_of_line hp' hl, ha.mergeLines]
      exact .refl asm _
    | block =>
      rw [mergeOne_of_block hp hl, mergeOne_of_block hp' hl]
      refine ⟨rfl, ?_⟩
      rw [List.forall₂_map_left_iff, List.forall₂_map_right_iff, List.forall₂_same]
      intro b _
      refine ⟨by rw [mergeBlock_eq, mergeBlock_eq], ?_⟩
      by_cases hb : Contested a.blocks b
      · exact .inr ⟨hl, a, ((partner?_eq_some_iff hn).1 hp).1, ((partner?_eq_some_iff hn).1 hp).2,
          contested_mergeBlock_iff.2 hb⟩
      · exact .inl (mergeBlock_perm ha.perm hb)

/-- A contested block gets another tally if some other assembly block comes first. -/
theorem exists_mergeBlock_ne (hb : Contested as b) :
    ∃ as', as.Perm as' ∧ (mergeBlock as' b).1 ≠ (mergeBlock as b).1 := by
  obtain ⟨hs, i, hi, c, hc, d, hd, hcname, hdname, hcrange, hdrange, hne⟩ := hb
  obtain ⟨t, ht⟩ := Option.ne_none_iff_exists'.1 (exactTally?_ne_none hs hi hc hcname hcrange)
  obtain ⟨e, he, hename, herange, het⟩ : ∃ e ∈ as, e.name = b.name ∧ e.range = some i ∧
      e.tally ≠ t := by
    by_cases hct : c.tally = t
    · exact ⟨d, hd, hdname, hdrange, fun hdt => hne (hct.trans hdt.symm)⟩
    · exact ⟨c, hc, hcname, hcrange, hct⟩
  refine ⟨e :: as.erase e, List.perm_cons_erase he, ?_⟩
  intro hsame
  have htally := congrArg Block.tally hsame
  rw [mergeBlock_eq, mergeBlock_eq, ht, exactTally?_cons hs hi hename herange] at htally
  exact het htally

/-- The same assembly functions with other blocks for one of them. -/
theorem forall₂_reblocked_map (ha' : Reblocked a a') (asm : List Listing.Func) :
    List.Forall₂ Reblocked asm (asm.map fun c => if c = a then a' else c) := by
  rw [List.forall₂_map_right_iff, List.forall₂_same]
  intro c _
  split
  · rename_i hc
    exact hc ▸ ha'
  · exact ⟨rfl, .refl _⟩

theorem partner?_map (ha' : Reblocked a a') {f : Func} (hp : partner? asm f = some a) :
    partner? (asm.map fun c => if c = a then a' else c) f = some a' := by
  have hkey : ∀ c, key (if c = a then a' else c) = key c := by
    intro c
    split
    · rename_i hc
      rw [ha'.key, hc]
    · rfl
  rw [partner?, List.find?_map]
  simp only [Function.comp_def, hkey]
  rw [partner?] at hp
  rw [hp, Option.map_some, if_pos rfl]

/-- If all orders give the same, no block is contested. -/
theorem not_contested_of_settled {f : Func} (hl : f.layout = .block)
    (hp : partner? asm f = some a)
    (h : ∀ asm', List.Forall₂ Reblocked asm asm' →
      (mergeOne skips asm' f).1 = (mergeOne skips asm f).1)
    (hb : b ∈ (mergeOne skips asm f).1.blocks) : ¬ Contested a.blocks b := by
  rw [mergeOne_of_block hp hl] at hb
  obtain ⟨c, hc, rfl⟩ := List.mem_map.1 hb
  intro hcontested
  obtain ⟨as', hperm, hne⟩ := exists_mergeBlock_ne (contested_mergeBlock_iff.1 hcontested)
  have ha' : Reblocked a { a with blocks := as' } := ⟨rfl, hperm⟩
  have hsame := h _ (forall₂_reblocked_map ha' asm)
  rw [mergeOne_of_block (partner?_map ha' hp) hl, mergeOne_of_block hp hl] at hsame
  exact hne (List.map_inj_left.1 (congrArg Func.blocks hsame) c hc)

theorem Reordered.eq {f f' : Func} (h : Reordered asm f f')
    (hf : f.layout = .block → ∀ a ∈ asm, key a = (f.name, f.decl.line) →
      ∀ b ∈ f.blocks, ¬ Contested a.blocks b) : f' = f := by
  have hblocks : List.Forall₂ (· = ·) f.blocks f'.blocks := by
    refine List.forall₂_iff_zip.2 ⟨h.blocks.length_eq, ?_⟩
    intro b b' hzip
    rcases ((List.forall₂_iff_zip.1 h.blocks).2 hzip).2 with hb | ⟨hl, a, ha, hk, hb⟩
    · exact hb.symm
    · exact absurd hb (hf hl a ha hk b (List.of_mem_zip hzip).1)
  rw [List.forall₂_eq_eq_eq] at hblocks
  rw [h.frame, ← hblocks]

/-- The order of the blocks in the assembly functions makes no difference to the account of a merge,
and none to the outline either, but for blocks with exact counterparts that differ: those get the
tally of the one that comes first. -/
theorem merge_orderMatters (skips : List String) (asm : List Listing.Func) (fs : List Func) :
    OrderMatters skips asm fs where
  account := by
    intro asm' h
    simp only [merge, duplicate?_reblocked h]
    cases duplicate? [] asm with
    | some d => rfl
    | none =>
      simp only [Except.map, List.map_map, Function.comp_def, mergeOne_account h]
  outline := by
    intro asm' gs gs' r r' h hgs hgs'
    obtain ⟨hn, rfl, _⟩ := merge_eq_ok_iff.1 hgs
    obtain ⟨_, rfl, _⟩ := merge_eq_ok_iff.1 hgs'
    rw [List.forall₂_map_left_iff, List.forall₂_map_right_iff, List.forall₂_same]
    exact fun f _ => mergeOne_reordered hn h f
  settled := by
    intro gs r hgs
    obtain ⟨hn, rfl, rfl⟩ := merge_eq_ok_iff.1 hgs
    constructor
    · intro h g hg hl a ha hk b hb
      obtain ⟨f, hf, rfl⟩ := List.mem_map.1 hg
      obtain ⟨hname, hdecl, hlayout⟩ := mergeOne_name skips asm f
      rw [hlayout] at hl
      rw [hname, hdecl] at hk
      refine not_contested_of_settled hl ((partner?_eq_some_iff hn).2 ⟨ha, hk⟩) ?_ hb
      intro asm' h'
      exact List.map_inj_left.1 (merge_eq_ok_iff.1 (h asm' h')).2.1.symm f hf
    · intro hfree asm' h
      refine merge_eq_ok_iff.2 ⟨map_key_reblocked h ▸ hn, ?_, ?_⟩
      · apply List.map_congr_left
        intro f hf
        exact ((mergeOne_reordered hn h f).eq (hfree _ (List.mem_map_of_mem hf))).symm
      · simp only [mergeOne_account h]

/-- A function with one block, which has the given tally. -/
def twinFunc (t : Tally) : Func :=
  ⟨"f", ⟨"a.c", 10⟩, .block,
    [⟨"entry", false, some ⟨1, ⟨"a.c", 10⟩, ⟨"a.c", 12⟩⟩, t, .empty⟩]⟩

/-- Two blocks of one name with the same lines. -/
def twinAsm : Listing.Func :=
  ⟨"f", ⟨"a.c", 10⟩,
    [⟨some 1, "entry", some (.between 10 12), ⟨0, 1, 0, 0, 0, 0, 4⟩⟩,
      ⟨some 2, "entry", some (.between 10 12), ⟨0, 0, 0, 1, 0, 0, 1⟩⟩], .empty⟩

/-- The block gets the tally of whichever of the two comes first. -/
theorem merge_twins_reversed :
    Reblocked twinAsm { twinAsm with blocks := twinAsm.blocks.reverse } ∧
      merge defaultSkips [twinAsm] [twinFunc .zero] =
        .ok ([twinFunc ⟨0, 1, 0, 0, 0, 0, 4⟩], ⟨1, 0, 1, 0, 0, 0⟩) ∧
      merge defaultSkips [{ twinAsm with blocks := twinAsm.blocks.reverse }] [twinFunc .zero] =
        .ok ([twinFunc ⟨0, 0, 0, 1, 0, 0, 1⟩], ⟨1, 0, 1, 0, 0, 0⟩) ∧
      twinFunc ⟨0, 1, 0, 0, 0, 0, 4⟩ ≠ twinFunc ⟨0, 0, 0, 1, 0, 0, 1⟩ := by
  refine ⟨⟨rfl, twinAsm.blocks.reverse_perm.symm⟩, rfl, rfl, by decide +kernel⟩

end LineCost.Attribution
