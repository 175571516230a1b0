import LineCost.Attribution.Report
import LineCost.Listing.Basic
import LineCost.Outline.Basic

/-!
Attribution to whole blocks. A block of the outline takes its costs from the assembly blocks of its
name: from the first that covers exactly its lines, or else from all those inside it together.
-/

namespace LineCost.Attribution

/-- The tallies of the assembly blocks of a name whose ranges lie in the given way to the outer
one. -/
def candidates (name : String) (outer : Interval) (how : Containment) (asm : List Listing.Block) :
    List Tally :=
  (asm.filter fun b => b.name == name && (b.range.map outer.containment) == some how).map
    Listing.Block.tally

/-- The costs of one block. An exact range replaces what was there; ranges inside it add to it. -/
def mergeBlock (asm : List Listing.Block) (b : Outline.Block) : Outline.Block × Outcome :=
  if b.skip then (b, .skipped)
  else match b.range? with
    | none => (b, .unresolved)
    | some range =>
      match candidates b.name range .equal asm, candidates b.name range .strict asm with
      | exact :: _, _ => ({ b with tally := exact }, .matched)
      | [], [] => (b, .unresolved)
      | [], inside => ({ b with tally := b.tally + Tally.sum inside }, .matched)

/-- The costs of one block, checking every addition. What lies inside is added up even if there is
an exact range. -/
def checkedMergeBlock (asm : List Listing.Block) (b : Outline.Block) :
    Except Overflow (Outline.Block × Outcome) :=
  if b.skip then .ok (b, .skipped)
  else match b.range? with
    | none => .ok (b, .unresolved)
    | some range => do
      let sum ← Tally.checkedSum (candidates b.name range .strict asm)
      match candidates b.name range .equal asm, candidates b.name range .strict asm with
      | exact :: _, _ => return ({ b with tally := exact }, .matched)
      | [], [] => return (b, .unresolved)
      | [], _ => do
        let tally ← b.tally.checkedAdd sum
        return ({ b with tally }, .matched)

end LineCost.Attribution
