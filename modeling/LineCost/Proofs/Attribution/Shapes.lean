import LineCost.Proofs.Attribution.ConsumeOnce
import LineCost.Proofs.Attribution.BlockCosts

/-!
What a merge goes by. Of a function it looks at the name, the line of declaration, the layout and
the shapes of the blocks, and of a block at the name, the lines of its ends and the lines that it
records. No tally of the outline and no mark from before makes a difference to what is handed out.
-/

namespace LineCost

namespace Outline

/-- What is fixed of a block, whatever its tallies are and whether it is left out. -/
structure BlockShape where
  name : String
  /-- The source lines of the two ends. -/
  ends : Option (Nat × Nat)
  recorded : List Nat
  deriving DecidableEq, Repr

structure FuncShape where
  name : String
  line : Nat
  layout : Layout
  blocks : List BlockShape
  deriving DecidableEq, Repr

def Block.shape (b : Block) : BlockShape where
  name := b.name
  ends := b.span.map fun s => (s.start.line, s.stop.line)
  recorded := b.lines.lines

def Func.shape (f : Func) : FuncShape where
  name := f.name
  line := f.decl.line
  layout := f.layout
  blocks := f.blocks.map Block.shape

end Outline

namespace Attribution

open Outline

/-- What one merge has for the blocks of a function, by place. -/
structure Gains where
  /-- What goes on the entry of a line, in line layout. -/
  entry : Nat → Nat → Tally
  /-- What replaces the tally of a block, in block layout. -/
  replacement? : Nat → Option Tally
  /-- What is added to the tally of a block if nothing replaces it. -/
  inside : Nat → Tally

def gains (skips : List String) (asm : List Listing.Func) (f : Func) : Gains where
  entry := booked (handedTo skips asm f)
  replacement? i := (partner? asm f).bind fun a =>
    ((marked skips f).map (exactTally? a.blocks))[i]?.join
  inside i := ((partner? asm f).bind fun a =>
    ((marked skips f).map (innerTally a.blocks))[i]?).getD .zero

/-- Two blocks of one shape, both left out or neither. -/
structure Alike (b c : Block) : Prop where
  skip : b.skip = c.skip
  shape : b.shape = c.shape

variable {skips : List String} {asm : List Listing.Func} {f g : Func} {b c : Block}
  {bs cs : List Block}

theorem shape_credit (hs : List Handout) (i : Nat) (b : Block) :
    (credit hs i b).shape = b.shape := by
  simp only [Block.shape, credit, LineMap.lines_map]

namespace Alike

theorem name (h : Alike b c) : b.name = c.name := congrArg BlockShape.name h.shape

theorem recorded (h : Alike b c) : b.lines.lines = c.lines.lines :=
  congrArg BlockShape.recorded h.shape

theorem validLines (h : Alike b c) : b.lines.validLines = c.lines.validLines := by
  rw [LineMap.validLines, LineMap.validLines, h.recorded]

theorem claims (h : Alike b c) : claims b = claims c := by
  funext n
  simp only [Attribution.claims, records, h.skip, h.validLines]

theorem firstRecorded? (h : Alike b c) : b.firstRecorded? = c.firstRecorded? := by
  rw [Block.firstRecorded?, Block.firstRecorded?, h.validLines]

theorem recordedRange? (h : Alike b c) : b.recordedRange? = c.recordedRange? := by
  simp only [Block.recordedRange?, h.validLines]

/-- The range follows from the lines of the ends and the recorded lines. -/
theorem range? (h : Alike b c) : b.range? = c.range? := by
  have hends := congrArg BlockShape.ends h.shape
  simp only [Block.shape] at hends
  cases hb : b.span with
  | none =>
    have hc : c.span = none := by simpa [hb] using hends.symm
    simp only [Block.range?, hb, hc, h.recordedRange?]
  | some s =>
    obtain ⟨t, hc, ht⟩ : ∃ t, c.span = some t ∧ (t.start.line, t.stop.line) =
        (s.start.line, s.stop.line) := by
      simpa [hb] using hends.symm
    obtain ⟨hstart, hstop⟩ := Prod.mk.inj ht
    simp only [Block.range?, hb, hc, Location.isValid, hstart, hstop, h.recordedRange?]

theorem credit (h : Alike b c) (hs : List Handout) (i : Nat) :
    Alike (credit hs i b) (Attribution.credit hs i c) where
  skip := h.skip
  shape := by rw [shape_credit, shape_credit, h.shape]

theorem takeDirect_left (h : Alike b c) (left : LineMap) :
    (takeDirect left b).1 = (takeDirect left c).1 := by
  rw [Attribution.takeDirect_left, Attribution.takeDirect_left, h.claims]

theorem takeDirect_block (h : Alike b c) (left : LineMap) :
    Alike (takeDirect left b).2.1 (takeDirect left c).2.1 := by
  rw [Attribution.takeDirect_block left b 0, Attribution.takeDirect_block left c 0,
    h.takeDirect_left]
  exact h.credit _ 0

theorem takeDirect_hit (h : Alike b c) (left : LineMap) :
    (takeDirect left b).2.2 = (takeDirect left c).2.2 := by
  rw [Bool.eq_iff_iff, Attribution.takeDirect_hit, Attribution.takeDirect_hit, h.claims]

/-- What is left and the outcome, but not the tallies of the block. -/
theorem takeByRange (h : Alike b c) (ranges : List Interval) (left : LineMap) (hit : Bool) :
    (takeByRange ranges left b hit).1 = (takeByRange ranges left c hit).1 ∧
      (Attribution.takeByRange ranges left b hit).2.2 =
        (Attribution.takeByRange ranges left c hit).2.2 := by
  simp only [Attribution.takeByRange, h.skip, h.range?, h.firstRecorded?]
  split
  · exact ⟨rfl, rfl⟩
  · split
    · exact ⟨rfl, rfl⟩
    · split
      · split <;> exact ⟨rfl, rfl⟩
      · exact ⟨rfl, rfl⟩

theorem exactTally? (h : Alike b c) (asm : List Listing.Block) :
    exactTally? asm b = Attribution.exactTally? asm c := by
  simp only [Attribution.exactTally?, h.skip, h.range?, h.name]

theorem innerTally (h : Alike b c) (asm : List Listing.Block) :
    innerTally asm b = Attribution.innerTally asm c := by
  simp only [Attribution.innerTally, h.skip, h.range?, h.name]

theorem mergeBlock_outcome (h : Alike b c) (asm : List Listing.Block) :
    (mergeBlock asm b).2 = (mergeBlock asm c).2 := by
  simp only [mergeBlock, h.skip, h.range?, h.name]
  split
  · rfl
  · split
    · rfl
    · split <;> rfl

end Alike

theorem keptRanges_alike (h : List.Forall₂ Alike bs cs) : keptRanges bs = keptRanges cs := by
  induction h with
  | nil => rfl
  | cons hb _ ih =>
    rw [keptRanges, keptRanges] at ih ⊢
    rw [List.filter_cons, List.filter_cons, hb.skip]
    split
    · rw [List.filterMap_cons, List.filterMap_cons, hb.range?, ih]
    · exact ih

theorem map_eq_map_of_forall₂ {α β : Type} {r : α → α → Prop} {as as' : List α}
    (h : List.Forall₂ r as as') {value : α → β} (hv : ∀ a a', r a a' → value a = value a') :
    as.map value = as'.map value := by
  rw [← List.forall₂_eq_eq_eq, List.forall₂_map_left_iff, List.forall₂_map_right_iff]
  exact h.imp hv

end Attribution

end LineCost
