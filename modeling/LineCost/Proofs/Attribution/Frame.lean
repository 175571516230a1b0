import LineCost.Proofs.Attribution.Exactness
import LineCost.Proofs.Attribution.BlockCosts
import Mathlib.Data.List.Forall2

/-!
What a merge leaves as it is. Of a function only its blocks change, and of a block only whether it
is left out and the tallies that the layout provides for.
-/

namespace LineCost.Attribution

open Outline

/-- A block with other tallies. -/
structure Retallied (layout : Layout) (b b' : Block) : Prop where
  name : b'.name = b.name
  span : b'.span = b.span
  recorded : b'.lines.lines = b.lines.lines
  line : layout = .line → b'.tally = b.tally
  block : layout = .block → b'.lines = b.lines ∧ (b.range? = none → b'.tally = b.tally)

theorem Retallied.refl (layout : Layout) (b : Block) : Retallied layout b b where
  name := rfl
  span := rfl
  recorded := rfl
  line := fun _ => rfl
  block := fun _ => ⟨rfl, fun _ => rfl⟩

/-- Whether a block is left out does not matter. -/
theorem Retallied.of_marked {layout : Layout} {b c : Block} {skip : Bool}
    (h : Retallied layout { b with skip := skip } c) : Retallied layout b c where
  name := h.name
  span := h.span
  recorded := h.recorded
  line := h.line
  block := h.block

theorem retallied_credit (hs : List Handout) (i : Nat) (b : Block) :
    Retallied .line b (credit hs i b) where
  name := rfl
  span := rfl
  recorded := LineMap.lines_map _ _
  line := fun _ => rfl
  block := by
    intro h
    cases h

theorem retallied_mergeBlock (asm : List Listing.Block) (b : Block) :
    Retallied .block b (mergeBlock asm b).1 := by
  have hkept := Retallied.refl .block b
  rw [mergeBlock_eq]
  refine { hkept with line := nofun, block := fun _ => ⟨rfl, ?_⟩ }
  intro hr
  simp [exactTally?, innerTally, hr]

theorem forall₂_mapIdx_map {α β γ : Type} {r : α → γ → Prop} {f : Nat → β → γ} {g : α → β}
    {l : List α} (h : ∀ i a, l[i]? = some a → r a (f i (g a))) :
    List.Forall₂ r l ((l.map g).mapIdx f) := by
  apply List.forall₂_iff_get.2
  refine ⟨by simp, ?_⟩
  intro i hi hi'
  simpa using h i _ (List.getElem?_eq_getElem hi)

theorem mergeOne_retallied (skips : List String) (asm : List Listing.Func) (f : Func) :
    List.Forall₂ (Retallied f.layout) f.blocks (mergeOne skips asm f).1.blocks := by
  cases hp : partner? asm f with
  | none =>
    rw [mergeOne_of_none hp, marked, markSkipped, List.forall₂_map_right_iff, List.forall₂_same]
    intro b _
    exact (Retallied.refl f.layout _).of_marked
  | some a =>
    cases hl : f.layout with
    | line =>
      rw [mergeOne_of_line hp hl, mergeLines_blocks, marked, markSkipped]
      apply forall₂_mapIdx_map
      intro i b _
      exact (retallied_credit _ i _).of_marked
    | block =>
      rw [mergeOne_of_block hp hl, marked, markSkipped, List.map_map, List.forall₂_map_right_iff,
        List.forall₂_same]
      intro b _
      exact (retallied_mergeBlock a.blocks _).of_marked

theorem mergeOne_name (skips : List String) (asm : List Listing.Func) (f : Func) :
    (mergeOne skips asm f).1.name = f.name ∧ (mergeOne skips asm f).1.decl = f.decl ∧
      (mergeOne skips asm f).1.layout = f.layout := by
  cases hp : partner? asm f with
  | none =>
    rw [mergeOne_of_none hp]
    exact ⟨rfl, rfl, rfl⟩
  | some a =>
    cases hl : f.layout with
    | line =>
      rw [mergeOne_of_line hp hl]
      exact ⟨rfl, rfl, hl⟩
    | block =>
      rw [mergeOne_of_block hp hl]
      exact ⟨rfl, rfl, hl⟩

end LineCost.Attribution
