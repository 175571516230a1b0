import LineCost.Attribution.Merge
import LineCost.Proofs.Totals

/-!
The ledger of a function in line layout: which assembly line went to which entry of which block.
-/

namespace LineCost.Attribution

open Outline

/-- One assembly line with its tally, and where it went: the place of a block in its function, and
the source line of an entry of that block. -/
structure Handout where
  line : Nat
  tally : Tally
  block : Nat
  entry : Nat
  deriving DecidableEq, Repr

/-- What an entry of a block is given altogether. -/
def booked (hs : List Handout) (i n : Nat) : Tally :=
  Tally.sum ((hs.filter fun h => h.block = i ∧ h.entry = n).map Handout.tally)

/-- The block in place `i` with all that its entries are given. -/
def credit (hs : List Handout) (i : Nat) (b : Block) : Block :=
  { b with lines := b.lines.map fun n t => t + booked hs i n }

theorem booked_append (hs ks : List Handout) (i n : Nat) :
    booked (hs ++ ks) i n = booked hs i n + booked ks i n := by
  simp only [booked, List.filter_append, List.map_append, Tally.sum_append]

theorem booked_of_ne {hs : List Handout} {i n : Nat} (h : ∀ x ∈ hs, x.block ≠ i) :
    booked hs i n = .zero := by
  have hn : hs.filter (fun x => x.block = i ∧ x.entry = n) = [] := by
    apply List.filter_eq_nil_iff.2
    intro x hx
    simp [h x hx]
  simp only [booked, hn, List.map_nil, Tally.sum_nil]

theorem credit_append (hs ks : List Handout) (i : Nat) (b : Block) :
    credit (hs ++ ks) i b = credit ks i (credit hs i b) := by
  simp only [credit, booked_append, LineMap.map_map, Tally.add_assoc]

theorem credit_of_ne {hs : List Handout} {i : Nat} (h : ∀ x ∈ hs, x.block ≠ i) (b : Block) :
    credit hs i b = b := by
  have hm : b.lines.map (fun n t => t + booked hs i n) = b.lines := by
    apply LineMap.map_id
    intro n t
    rw [booked_of_ne h, Tally.add_zero]
  simp only [credit, hm]

@[simp] theorem validLines_credit (hs : List Handout) (i : Nat) (b : Block) :
    (credit hs i b).lines.validLines = b.lines.validLines := LineMap.validLines_map _ _

@[simp] theorem range?_credit (hs : List Handout) (i : Nat) (b : Block) :
    (credit hs i b).range? = b.range? := by
  have hr : (credit hs i b).recordedRange? = b.recordedRange? := by
    simp only [Block.recordedRange?, validLines_credit]
  simp only [Block.range?, hr]
  rfl

@[simp] theorem firstRecorded?_credit (hs : List Handout) (i : Nat) (b : Block) :
    (credit hs i b).firstRecorded? = b.firstRecorded? := by
  simp only [Block.firstRecorded?, validLines_credit]

/-- Handouts to one block and to blocks after it are credited one after the other. -/
theorem credit_mapIdx_cons {hs ks : List Handout} {i : Nat} (b : Block) (rest : List Block)
    (hh : ∀ x ∈ hs, x.block = i) (hk : ∀ x ∈ ks, i < x.block) :
    ((b :: rest).mapIdx fun k c => credit (hs ++ ks) (i + k) c) =
      credit hs i b :: rest.mapIdx fun k c => credit ks (i + 1 + k) c := by
  rw [List.mapIdx_cons]
  congr 1
  · rw [Nat.add_zero, credit_append]
    apply credit_of_ne
    intro x hx
    exact Nat.ne_of_gt (hk x hx)
  · apply List.ext_getElem
    · simp only [List.length_mapIdx]
    · intro k _ _
      have he : i + (k + 1) = i + 1 + k := by omega
      have hne : ∀ x ∈ hs, x.block ≠ i + 1 + k := by
        intro x hx
        have := hh x hx
        omega
      simp only [List.getElem_mapIdx, he, credit_append, credit_of_ne hne]

/-- The entries of a pool that have gone from it. -/
def drawn (left left' : LineMap) : LineMap := left.filter fun n _ => (left'.get? n).isNone

theorem drawn_filter (left : LineMap) (q : Nat → Bool) :
    drawn left (left.filter fun n _ => q n) = left.filter fun n _ => !q n := by
  apply LineMap.ext_get?
  intro n
  simp only [drawn, LineMap.get?_filter]
  cases left.get? n with
  | none => rfl
  | some t => cases q n <;> rfl

theorem drawn_self (left : LineMap) : drawn left left = .empty := by
  apply LineMap.ext_get?
  intro n
  simp only [drawn, LineMap.get?_filter]
  cases left.get? n with
  | none => rfl
  | some t => rfl

/-- What is drawn now and what is handed out later of the rest are different lines. -/
theorem nodup_drawn_append {left left' : LineMap} {hs : List Handout} (f : Nat × Tally → Handout)
    (hf : ∀ e, (f e).line = e.1) (hn : (hs.map Handout.line).Nodup)
    (hs' : ∀ h ∈ hs, left'.get? h.line = some h.tally) :
    (((drawn left left').entries.map f ++ hs).map Handout.line).Nodup := by
  have hl : ((drawn left left').entries.map f).map Handout.line = (drawn left left').lines := by
    simp only [List.map_map, LineMap.lines]
    exact List.map_congr_left fun e _ => hf e
  rw [List.map_append, hl, List.nodup_append]
  refine ⟨LineMap.nodup_lines _, hn, ?_⟩
  intro n hd m hm he
  subst he
  obtain ⟨t, ht⟩ := LineMap.mem_lines_iff.1 hd
  obtain ⟨h, hh, he⟩ := List.mem_map.1 hm
  rw [drawn, LineMap.get?_filter, Option.filter_eq_some_iff, ← he, hs' h hh] at ht
  exact absurd ht.2 (by simp)

/-- What the blocks from place `i` on get because they record it. -/
def directHandouts (i : Nat) (left : LineMap) : List Block → List Handout
  | [] => []
  | b :: rest =>
    let left' := (takeDirect left b).1
    ((drawn left left').entries.map fun e => ⟨e.1, e.2, i, e.1⟩) ++
      directHandouts (i + 1) left' rest

/-- What the blocks from place `i` on get by range. -/
def rangeHandouts (ranges : List Interval) (i : Nat) (left : LineMap) :
    List (Block × Bool) → List Handout
  | [] => []
  | (b, hit) :: rest =>
    let left' := (takeByRange ranges left b hit).1
    ((drawn left left').entries.map fun e => ⟨e.1, e.2, i, b.firstRecorded?.getD 0⟩) ++
      rangeHandouts ranges (i + 1) left' rest

/-- The ranges of the blocks that are not skipped, in block order. -/
def keptRanges (blocks : List Block) : List Interval :=
  (blocks.filter (!·.skip)).filterMap Block.range?

/-- The ledger of a function: what is handed out of the lines of its assembly. -/
def handouts (asm : Listing.Func) (blocks : List Block) : List Handout :=
  let direct := directPass (pool asm) blocks
  directHandouts 0 (pool asm) blocks ++ rangeHandouts (keptRanges blocks) 0 direct.1 direct.2

end LineCost.Attribution
