import LineCost.Proofs.Attribution.Checked

/-!
Attribution to whole blocks. A block takes its costs from its counterparts and from no other
assembly block, as long as the sums have room in the counters.
-/

namespace LineCost.Attribution

open Outline

/-- An assembly block of the same name, all of whose lines are known and lie within the block. -/
def Concerns (b : Block) (c : Listing.Block) : Prop :=
  c.name = b.name ∧ ∃ outer inner, b.range? = some outer ∧ c.range = some inner ∧
    ∀ n, inner.includes n = true → outer.includes n = true

/-- What becomes of a block that is not skipped. -/
structure Reconciled (asm : List Listing.Block) (b b' : Block) : Prop where
  unranged : b.range? = none → b' = b
  /-- The first counterpart with the range of the block replaces what was there, whatever stands
  before it or after it. -/
  exact : ∀ i t before after, b.range? = some i →
    counterparts asm b.name = before ++ (i, t) :: after → (∀ c ∈ before, c.1 ≠ i) →
      b' = { b with tally := t }
  /-- If there is none, all counterparts strictly inside the range add to what was there. -/
  inside : ∀ i, b.range? = some i → (∀ c ∈ counterparts asm b.name, c.1 ≠ i) →
    b' = { b with tally := b.tally + tallyInside asm b.name i }
  /-- If there is none inside either, nothing changes. -/
  untouched : ∀ i, b.range? = some i →
    (∀ c ∈ counterparts asm b.name, c.1 ≠ i ∧ i.encloses c.1 = false) → b' = b
  /-- Assembly blocks that do not concern the block make no difference. -/
  others : ∀ before c after, asm = before ++ c :: after → ¬ Concerns b c →
    b' = (mergeBlock (before ++ after) b).1

theorem containment_eq_exceeds_iff {outer inner : Interval} :
    outer.containment inner = .exceeds ↔
      ¬ ∀ n, inner.includes n = true → outer.includes n = true := by
  rw [← Interval.contains_iff, Interval.containment]
  split
  · rename_i h
    subst h
    simp [Interval.contains]
  · split <;> simp [*]

/-- Equal candidates lead to equal results. -/
theorem mergeBlock_congr {asm asm' : List Listing.Block} {b : Block}
    (h : ∀ i how, b.range? = some i → how ≠ .exceeds →
      candidates b.name i how asm = candidates b.name i how asm') :
    mergeBlock asm b = mergeBlock asm' b := by
  cases hr : b.range? with
  | none => simp [mergeBlock, hr]
  | some i =>
    have hequal := h i .equal hr (by decide)
    have hstrict := h i .strict hr (by decide)
    simp only [mergeBlock, hr, hequal, hstrict]

theorem candidates_append (asm asm' : List Listing.Block) (name : String) (i : Interval)
    (how : Containment) :
    candidates name i how (asm ++ asm') =
      candidates name i how asm ++ candidates name i how asm' := by
  rw [candidates, List.filter_append, List.map_append]
  rfl

theorem candidates_of_not_concerns {b : Block} {c : Listing.Block} (h : ¬ Concerns b c)
    {i : Interval} (hi : b.range? = some i) {how : Containment} (hh : how ≠ .exceeds) :
    candidates b.name i how [c] = [] := by
  rw [candidates, List.map_eq_nil_iff, List.filter_eq_nil_iff]
  intro d hd hc
  obtain rfl := List.mem_singleton.1 hd
  simp only [Bool.and_eq_true, beq_iff_eq, Option.map_eq_some_iff] at hc
  obtain ⟨hname, inner, hinner, hhow⟩ := hc
  apply h
  refine ⟨hname, i, inner, hi, hinner, ?_⟩
  apply Classical.byContradiction
  intro hexceeds
  exact hh (hhow.symm.trans (containment_eq_exceeds_iff.2 hexceeds))

theorem mergeBlock_reconciled (asm : List Listing.Block) {b : Block} (hs : b.skip = false) :
    Reconciled asm b (mergeBlock asm b).1 where
  unranged := by
    intro hr
    simp [mergeBlock, hs, hr]
  exact := fun _ _ _ _ hi hc hb => mergeBlock_of_exact hs hi hc hb
  inside := fun _ hi hc => mergeBlock_of_no_exact hs hi hc
  untouched := by
    intro i hi hc
    have hnone : (counterparts asm b.name).filter (fun c => i.encloses c.1) = [] := by
      apply List.filter_eq_nil_iff.2
      intro c hm
      simp [(hc c hm).2]
    rw [mergeBlock_of_no_exact hs hi fun c hm => (hc c hm).1, tallyInside, hnone]
    simp
  others := by
    intro before c after hasm hc
    have hsame : mergeBlock asm b = mergeBlock (before ++ after) b := by
      apply mergeBlock_congr
      intro i how hi hh
      rw [hasm, ← List.singleton_append, candidates_append, candidates_append,
        candidates_of_not_concerns hc hi hh, List.nil_append, candidates_append]
    rw [hsame]

/-- If no counter runs over, the blocks of a function in block layout are reconciled one by one with
those of its assembly, except for those that are left out. -/
theorem checkedMerge_reconciled {skips : List String} {asm : List Listing.Func} {fs fs' : List Func}
    {report : Report} {p : Nat} {f : Func} {a : Listing.Func}
    (hm : checkedMerge skips asm fs = .ok (.ok (fs', report))) (hf : fs[p]? = some f)
    (hl : f.layout = .block) (ha : a ∈ asm) (hk : key a = (f.name, f.decl.line)) :
    ∃ f', fs'[p]? = some f' ∧ f' = { f with blocks := f'.blocks } ∧
      List.Forall₂ (fun b b' => if leavesOut skips b.name then b' = { b with skip := true }
        else Reconciled a.blocks { b with skip := false } b') f.blocks f'.blocks := by
  obtain ⟨hn, hfs, _⟩ := merge_eq_ok_iff.1 (merge_of_checkedMerge hm)
  have hp := (partner?_eq_some_iff hn).2 ⟨ha, hk⟩
  refine ⟨_, by rw [hfs, List.getElem?_map, hf, Option.map_some, mergeOne_of_block hp hl], rfl, ?_⟩
  rw [marked, markSkipped, List.map_map, List.forall₂_map_right_iff, List.forall₂_same]
  intro b _
  split
  · rename_i hskip
    rw [Function.comp_apply, hskip, mergeBlock_of_skip rfl]
  · rename_i hkept
    rw [Function.comp_apply, Bool.eq_false_iff.2 hkept]
    exact mergeBlock_reconciled a.blocks rfl

/-- A block with its ends the wrong way round and two exact counterparts after one inside, a block
with counterparts inside, across and without lines, one that ends on line 0, and one that is left
out. -/
def mixedFunc : Func :=
  ⟨"f", ⟨"a.c", 10⟩, .block,
    [⟨"body", false, some ⟨7, ⟨"a.c", 20⟩, ⟨"a.c", 14⟩⟩, ⟨1, 0, 0, 0, 0, 0, 1⟩, .empty⟩,
      ⟨"loop", false, some ⟨4, ⟨"a.c", 30⟩, ⟨"a.c", 40⟩⟩, ⟨0, 0, 0, 0, 0, 1, 3⟩, .empty⟩,
      ⟨"end", false, some ⟨1, ⟨"a.c", 50⟩, ⟨"a.c", 0⟩⟩, ⟨0, 0, 1, 0, 0, 0, 2⟩, .empty⟩,
      ⟨"cleanup", false, some ⟨1, ⟨"a.c", 60⟩, ⟨"a.c", 60⟩⟩, .zero, .empty⟩]⟩

def mixedAsm : Listing.Func :=
  ⟨"f", ⟨"a.c", 10⟩,
    [⟨some 1, "body", some (.between 15 16), ⟨0, 1, 0, 0, 0, 0, 4⟩⟩,
      ⟨some 2, "loop", some (.between 33 34), ⟨0, 1, 0, 0, 0, 0, 4⟩⟩,
      ⟨some 3, "body", some (.between 14 20), ⟨0, 0, 0, 2, 0, 0, 2⟩⟩,
      ⟨some 4, "body", some (.between 14 20), ⟨0, 0, 0, 9, 0, 0, 9⟩⟩,
      ⟨some 5, "loop", some (.between 39 45), ⟨8, 0, 0, 0, 0, 0, 8⟩⟩,
      ⟨some 6, "loop", none, ⟨8, 0, 0, 0, 0, 0, 8⟩⟩,
      ⟨some 7, "loop", some (.between 30 39), ⟨0, 0, 0, 1, 0, 0, 1⟩⟩,
      ⟨some 8, "end", some (.between 50 50), ⟨0, 0, 0, 1, 0, 0, 1⟩⟩,
      ⟨some 9, "cleanup", some (.between 60 60), ⟨0, 0, 0, 1, 0, 0, 1⟩⟩], .empty⟩

theorem checkedMerge_reconciled_mixed :
    ∃ fs' report,
      checkedMerge defaultSkips [mixedAsm] [mixedFunc] = .ok (.ok (fs', report)) ∧
      ∃ f', fs'[0]? = some f' ∧ f' = { mixedFunc with blocks := f'.blocks } ∧
        f'.blocks.map Block.tally = [⟨0, 0, 0, 2, 0, 0, 2⟩, ⟨0, 1, 0, 1, 0, 1, 8⟩,
          ⟨0, 0, 1, 0, 0, 0, 2⟩, .zero] ∧
        List.Forall₂ (fun b b' => if leavesOut defaultSkips b.name then b' = { b with skip := true }
          else Reconciled mixedAsm.blocks { b with skip := false } b') mixedFunc.blocks
            f'.blocks := by
  have hm : checkedMerge defaultSkips [mixedAsm] [mixedFunc] = .ok (.ok (_, _)) := rfl
  have hf : [mixedFunc][0]? = some mixedFunc := rfl
  refine ⟨_, _, hm, ?_⟩
  obtain ⟨f', hf', hframe, hblocks⟩ :=
    checkedMerge_reconciled hm hf rfl (List.mem_singleton_self _) rfl
  refine ⟨f', hf', hframe, ?_, hblocks⟩
  rw [← Option.some.inj hf']
  decide +kernel

end LineCost.Attribution
