import LineCost.Proofs.Attribution.Pairing
import Mathlib.Data.List.Forall2

/-!
What a block takes in block layout. It takes its costs from its counterparts, the assembly blocks of
its name whose lines are known: from the first that covers exactly its lines, or else from all that
lie strictly inside.
-/

namespace LineCost.Attribution

open Outline

/-- The ranges and tallies of the assembly blocks of a name whose lines are known. -/
def counterparts (asm : List Listing.Block) (name : String) : List (Interval × Tally) :=
  asm.filterMap fun c => if c.name = name then c.range.map fun i => (i, c.tally) else none

/-- The sum of the counterparts strictly inside a range. -/
def tallyInside (asm : List Listing.Block) (name : String) (i : Interval) : Tally :=
  Tally.sum (((counterparts asm name).filter fun c => i.encloses c.1).map Prod.snd)

theorem containment_eq_equal_iff {outer inner : Interval} :
    outer.containment inner = .equal ↔ inner = outer := by
  rw [Interval.containment, @eq_comm _ inner]
  split
  · simp [*]
  · split <;> simp [*]

theorem containment_eq_strict_iff {outer inner : Interval} :
    outer.containment inner = .strict ↔ outer.encloses inner = true := by
  rw [Interval.containment, Interval.encloses]
  split
  · simp [*]
  · split <;> simp [*]

theorem candidates_eq (asm : List Listing.Block) (name : String) (outer : Interval)
    (how : Containment) :
    candidates name outer how asm =
      ((counterparts asm name).filter fun c => outer.containment c.1 = how).map Prod.snd := by
  induction asm with
  | nil => rfl
  | cons c asm ih =>
    rw [candidates, counterparts] at ih ⊢
    rw [List.filter_cons, List.filterMap_cons]
    by_cases hn : c.name = name
    · cases hr : c.range with
      | none => simpa [hn, hr] using ih
      | some i =>
        by_cases hi : outer.containment i = how
        · simpa [hn, hr, hi] using ih
        · simpa [hn, hr, hi] using ih
    · simpa [hn] using ih

theorem sum_candidates_strict (asm : List Listing.Block) (name : String) (i : Interval) :
    Tally.sum (candidates name i .strict asm) = tallyInside asm name i := by
  rw [candidates_eq, tallyInside]
  simp only [containment_eq_strict_iff, Bool.decide_eq_true]

theorem mergeBlock_of_exact {asm : List Listing.Block} {b : Block} {i : Interval} {t : Tally}
    {before after : List (Interval × Tally)} (hs : b.skip = false) (hi : b.range? = some i)
    (hc : counterparts asm b.name = before ++ (i, t) :: after) (hb : ∀ c ∈ before, c.1 ≠ i) :
    (mergeBlock asm b).1 = { b with tally := t } := by
  have hfront : before.filter (fun c => i.containment c.1 = .equal) = [] := by
    apply List.filter_eq_nil_iff.2
    intro c hm
    simpa [containment_eq_equal_iff] using hb c hm
  have hself : i.containment i = .equal := containment_eq_equal_iff.2 rfl
  have hequal : candidates b.name i .equal asm =
      t :: (after.filter fun c => i.containment c.1 = .equal).map Prod.snd := by
    rw [candidates_eq, hc, List.filter_append, hfront, List.filter_cons]
    simp [hself]
  simp [mergeBlock, hs, hi, hequal]

theorem mergeBlock_of_no_exact {asm : List Listing.Block} {b : Block} {i : Interval}
    (hs : b.skip = false) (hi : b.range? = some i)
    (hc : ∀ c ∈ counterparts asm b.name, c.1 ≠ i) :
    (mergeBlock asm b).1 = { b with tally := b.tally + tallyInside asm b.name i } := by
  have hequal : candidates b.name i .equal asm = [] := by
    rw [candidates_eq, List.map_eq_nil_iff, List.filter_eq_nil_iff]
    intro c hm
    simpa [containment_eq_equal_iff] using hc c hm
  have hkept : ¬ b.skip = true := by simp [hs]
  rw [← sum_candidates_strict, mergeBlock, if_neg hkept, hi]
  simp only [hequal]
  -- no candidates at all leave the block as it is, and so does their empty sum
  cases candidates b.name i .strict asm with
  | nil => simp
  | cons t rest => rfl

theorem mergeBlock_of_skip {b : Block} (h : b.skip = true) (asm : List Listing.Block) :
    (mergeBlock asm b).1 = b := by
  simp [mergeBlock, h]

/-- The tally of the first counterpart of a block with its range, unless the block is left out. -/
def exactTally? (asm : List Listing.Block) (b : Block) : Option Tally :=
  if b.skip then none
  else b.range?.bind fun i => ((counterparts asm b.name).find? fun c => c.1 = i).map Prod.snd

/-- The sum of the counterparts strictly inside the range of a block, unless it is left out. -/
def innerTally (asm : List Listing.Block) (b : Block) : Tally :=
  if b.skip then .zero else b.range?.elim .zero (tallyInside asm b.name)

/-- Of a block only the tally changes, which is replaced or added to. -/
theorem mergeBlock_eq (asm : List Listing.Block) (b : Block) :
    (mergeBlock asm b).1 =
      { b with tally := (exactTally? asm b).getD (b.tally + innerTally asm b) } := by
  cases hs : b.skip with
  | true =>
    simp only [mergeBlock_of_skip hs, exactTally?, innerTally, hs, if_true, Option.getD_none,
      Tally.add_zero]
    rw [← hs]
  | false =>
    cases hi : b.range? with
    | none =>
      simp only [mergeBlock, exactTally?, innerTally, hs, hi, Bool.false_eq_true, if_false,
        Option.bind_none, Option.elim_none, Option.getD_none, Tally.add_zero]
      rw [← hs]
    | some i =>
      cases hc : (counterparts asm b.name).find? fun c => c.1 = i with
      | some c =>
        obtain ⟨hself, before, after, hsplit, hbefore⟩ := List.find?_eq_some_iff_append.1 hc
        obtain rfl : c.1 = i := by simpa using hself
        rw [mergeBlock_of_exact hs hi hsplit fun d hd => by simpa using hbefore d hd]
        simp [exactTally?, hs, hi, hc]
      | none =>
        have hne : ∀ c ∈ counterparts asm b.name, c.1 ≠ i := by
          intro c hm
          simpa using List.find?_eq_none.1 hc c hm
        rw [mergeBlock_of_no_exact hs hi hne]
        simp [exactTally?, innerTally, hs, hi, hc]

end LineCost.Attribution
