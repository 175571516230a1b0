import LineCost.Proofs.Attribution.Frame
import LineCost.Proofs.Attribution.Shapes

/-!
Merging again into what a merge has made. Every round has the same for each block, since the shape
of the outline stays, and so the tallies grow by the same in every round.
-/

namespace LineCost

namespace Tally

/-- The same tally so many times. -/
def times (k : Nat) (t : Tally) : Tally where
  branch := k * t.branch
  load := k * t.load
  store := k * t.store
  arithmetic := k * t.arithmetic
  floatingPoint := k * t.floatingPoint
  other := k * t.other
  cycles := k * t.cycles

@[simp] theorem times_one (t : Tally) : t.times 1 = t := by
  simp only [times, Nat.one_mul]

@[simp] theorem times_zero (k : Nat) : zero.times k = zero := by
  simp only [times, zero, Nat.mul_zero]

end Tally

namespace Attribution

open Outline

variable {skips : List String} {asm : List Listing.Func} {f : Func} {fs gs fs' : List Func}
  {report : Report}

namespace Gains

/-- The block in place `i` with what `k` merges have for it, marked if it is left out. -/
def give (g : Gains) (skips : List String) (layout : Layout) (k i : Nat) (b : Block) : Block :=
  match layout with
  | .line =>
    { b with
      skip := leavesOut skips b.name
      lines := b.lines.map fun n t => t + (g.entry i n).times k }
  | .block =>
    { b with
      skip := leavesOut skips b.name
      tally := (g.replacement? i).getD (b.tally + (g.inside i).times k) }

/-- A function with what `k` merges have for its blocks. -/
def grow (g : Gains) (skips : List String) (k : Nat) (f : Func) : Func :=
  { f with blocks := f.blocks.mapIdx (g.give skips f.layout k) }

end Gains

theorem give_of_line (skips : List String) (asm : List Listing.Func) (f : Func) (i : Nat)
    (b : Block) : (gains skips asm f).give skips .line 1 i b =
      credit (handedTo skips asm f) i { b with skip := leavesOut skips b.name } := by
  simp only [Gains.give, gains, Tally.times_one, credit]

theorem give_of_none (hp : partner? asm f = none) (i : Nat) (b : Block) :
    (gains skips asm f).give skips .block 1 i b = { b with skip := leavesOut skips b.name } := by
  simp [Gains.give, gains, hp]

theorem give_of_block {a : Listing.Func} {i : Nat} {b : Block} (hp : partner? asm f = some a)
    (hb : f.blocks[i]? = some b) : (gains skips asm f).give skips .block 1 i b =
      (mergeBlock a.blocks { b with skip := leavesOut skips b.name }).1 := by
  simp [Gains.give, gains, hp, marked, markSkipped, hb, mergeBlock_eq]

/-- One merge gives a function what it has for it once. -/
theorem mergeOne_eq_grow (skips : List String) (asm : List Listing.Func) (f : Func) :
    (mergeOne skips asm f).1 = (gains skips asm f).grow skips 1 f := by
  have hblocks : (mergeOne skips asm f).1.blocks =
      f.blocks.mapIdx ((gains skips asm f).give skips f.layout 1) := by
    apply List.ext_getElem?
    intro i
    rw [List.getElem?_mapIdx]
    cases hl : f.layout with
    | line =>
      rw [mergeOne_credited skips asm hl, marked, markSkipped, List.getElem?_mapIdx,
        List.getElem?_map, Option.map_map]
      exact Option.map_congr fun b _ => (give_of_line skips asm f i b).symm
    | block =>
      cases hp : partner? asm f with
      | none =>
        rw [mergeOne_of_none hp, marked, markSkipped, List.getElem?_map]
        exact Option.map_congr fun b _ => (give_of_none hp i b).symm
      | some a =>
        rw [mergeOne_of_block hp hl, marked, markSkipped, List.getElem?_map, List.getElem?_map,
          Option.map_map]
        exact Option.map_congr fun b hb => (give_of_block hp hb).symm
  obtain ⟨hname, hdecl, hlayout⟩ := mergeOne_name skips asm f
  rw [Gains.grow, ← hblocks, ← hname, ← hdecl, ← hlayout]

end Attribution

end LineCost
