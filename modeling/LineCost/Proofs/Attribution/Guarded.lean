import LineCost.Proofs.Attribution.Bounds
import LineCost.Proofs.Attribution.Partition
import LineCost.Proofs.Results
import Mathlib.Data.List.ReduceOption

/-!
A merge that can stop. It works on bounds that nothing orders, and stops where it would look up a
place that a list does not have, take the span of bounds or look for the lines between them although
they are not in order, or begin at line 0. It never does stop, and comes to what a merge comes to.
-/

namespace LineCost

/-- What stops a merge. -/
inductive Fault where
  /-- A list of some length has no place `k`. -/
  | place (k length : Nat)
  /-- There are no lines from the first to the last. -/
  | bounds (r : Bounds)
  deriving DecidableEq, Repr

/-- What stands in a place of a list. -/
def member {α : Type} (l : List α) (k : Nat) : Except Fault α :=
  match l[k]? with
  | some a => .ok a
  | none => .error (.place k l.length)

/-- The interval that some bounds stand for. -/
def Bounds.interval (r : Bounds) : Except Fault Interval :=
  if h : 1 ≤ r.first ∧ r.first ≤ r.last then .ok ⟨r.first, r.last, h.2⟩ else .error (.bounds r)

/-- Bounds end before they begin. -/
example : (Bounds.mk 5 3).interval = .error (.bounds ⟨5, 3⟩) := rfl

namespace Attribution

open Outline

/-- Takes what is left between some bounds. -/
def takeBounds (left : LineMap) (r : Bounds) : Except Fault (Option (Tally × LineMap)) := do
  let i ← r.interval
  return takeRange? left i

/-- The narrowest of some bounds, the first of several. The span of each is taken. -/
def narrowestBounds (rs : List Bounds) : Except Fault (Option Bounds) := do
  let is ← rs.mapM Bounds.interval
  return (narrowest? is).map Interval.bounds

/-- Takes what is left between the bounds of the block in place `k`, or else between the narrowest
bounds around them that another block has. -/
def takeAroundBounds (bounds : List (Option Bounds)) (k : Nat) (left : LineMap) (r : Bounds) :
    Except Fault (Option (Tally × LineMap)) := do
  match ← takeBounds left r with
  | some taken => return some taken
  | none =>
    match ← narrowestBounds ((bounds.eraseIdx k).reduceOption.filter (·.encloses r)) with
    | some outer => takeBounds left outer
    | none => return none

/-- The bounds of a block that is not left out. -/
def keptBounds? (b : Block) : Option Bounds := if b.skip then none else b.bounds?

/-- Serves the block in place `k`, which had to wait and may have bounds. -/
def takeByBounds (bounds : List (Option Bounds)) (k : Nat) (left : LineMap) (b : Block)
    (r? : Option Bounds) : Except Fault (LineMap × Block × Outcome) :=
  match r?, b.firstRecorded? with
  | some r, some first => do
    match ← takeAroundBounds bounds k left r with
    | some (t, left) => return (left, { b with lines := b.lines.addAt first t }, .fallback)
    | none => return (left, b, .unresolved)
  | _, _ => return (left, b, .unresolved)

/-- Looks a block that had to wait and its bounds up, and serves it. -/
def Desk.byBounds (bounds : List (Option Bounds)) (d : Desk) (k : Nat) : Except Fault Desk := do
  let b ← member d.blocks k
  let r? ← member bounds k
  let (left, b, outcome) ← takeByBounds bounds k d.left b r?
  return (d.put left k b).count k outcome

/-- Serves all blocks of a function, and then those that had to wait. In block layout nothing is
looked up in a place, and no lines are looked for between bounds. -/
def serveGuarded (layout : Layout) (asm : Listing.Func) (blocks : List Block) :
    Except Fault Desk :=
  match layout with
  | .block => return serveBlocks .block asm blocks
  | .line =>
    let d := (List.range blocks.length).foldl Desk.direct ⟨pool asm, blocks, [], []⟩
    d.starved.foldlM (Desk.byBounds (d.blocks.map keptBounds?)) d

/-- Merges the function in place `p`. -/
def countGuarded (skips : List String) (asm : List Listing.Func) (p : Nat) (f : Func) :
    Except Fault (Func × List Count) :=
  let blocks := marked skips f
  let marks := (placed markCount? 0 blocks).map (Count.ofBlock p)
  match partner? asm f with
  | none => return ({ f with blocks := blocks }, marks ++ [.function p false])
  | some a => do
    let d ← serveGuarded f.layout a blocks
    return ({ f with blocks := d.blocks },
      marks ++ .function p true :: d.counted.map (Count.ofBlock p))

/-- Merges all functions. -/
def mergeGuarded (skips : List String) (asm : List Listing.Func) (fs : List Func) :
    Except Fault (Except DuplicateFunction (List Func × Report)) :=
  match duplicate? [] asm with
  | some d => return .error d
  | none => do
    let served ← fs.zipIdx.mapM fun e => countGuarded skips asm e.2 e.1
    return .ok (served.map Prod.fst, account (served.map Prod.snd).flatten)

section Lookups

variable {α β : Type} {left : LineMap} {i : Interval}

theorem member_eq_ok {l : List α} {k : Nat} {a : α} (h : l[k]? = some a) : member l k = .ok a := by
  rw [member, h]

theorem interval_bounds (h : 0 < i.first) : i.bounds.interval = .ok i := by
  have hi : 1 ≤ i.bounds.first ∧ i.bounds.first ≤ i.bounds.last := ⟨h, i.ordered⟩
  rw [Bounds.interval, dif_pos hi]
  rfl

theorem takeBounds_eq (left : LineMap) (h : 0 < i.first) :
    takeBounds left i.bounds = .ok (takeRange? left i) := by
  rw [takeBounds, interval_bounds h]
  rfl

theorem narrowestBounds_eq {is : List Interval} (h : ∀ i ∈ is, 0 < i.first) :
    narrowestBounds (is.map Interval.bounds) = .ok ((narrowest? is).map Interval.bounds) := by
  have his : (is.map Interval.bounds).mapM Bounds.interval = .ok is := by
    have hi := mapM_eq_ok (f := fun i : Interval => i.bounds.interval) (g := id)
      fun i hi => interval_bounds (h i hi)
    rw [List.map_id] at hi
    rw [List.mapM_map]
    exact hi
  rw [narrowestBounds, his]
  rfl

/-- What a filter drops may as well be removed before. -/
theorem filter_reduceOption_eraseIdx {l : List (Option α)} {k : Nat} {p : α → Bool}
    (h : ∀ a, l[k]? = some (some a) → p a = false) :
    (l.eraseIdx k).reduceOption.filter p = l.reduceOption.filter p := by
  induction l generalizing k with
  | nil => rfl
  | cons a l ih =>
    cases k with
    | zero =>
      cases a with
      | none => rfl
      | some a =>
        rw [List.eraseIdx_cons_zero, List.reduceOption_cons_of_some, List.filter_cons_of_neg]
        simp [h a rfl]
    | succ k =>
      have hrest := ih (k := k) h
      cases a with
      | none => exact hrest
      | some a =>
        rw [List.eraseIdx_cons_succ, List.reduceOption_cons_of_some, List.reduceOption_cons_of_some,
          List.filter_cons, List.filter_cons, hrest]

end Lookups

theorem mem_of_narrowest? {is : List Interval} {i : Interval} (h : narrowest? is = some i) :
    i ∈ is := by
  obtain ⟨before, after, rfl, _, _⟩ := narrowest?_eq_some h
  simp

theorem keptBounds?_eq (b : Block) :
    keptBounds? b = if b.skip then none else b.range?.map Interval.bounds := by
  rw [keptBounds?, b.range?_bounds]

theorem reduceOption_keptBounds? (blocks : List Block) :
    (blocks.map keptBounds?).reduceOption = (keptRanges blocks).map Interval.bounds := by
  induction blocks with
  | nil => rfl
  | cons b rest ih =>
    rw [List.map_cons, keptBounds?_eq]
    cases hs : b.skip with
    | true => simpa [keptRanges, hs] using ih
    | false =>
      cases hr : b.range? with
      | none => simpa [keptRanges, hs, hr] using ih
      | some i => simpa [keptRanges, hs, hr] using ih

theorem keptRanges_first_pos {blocks : List Block} {i : Interval} (h : i ∈ keptRanges blocks) :
    0 < i.first := by
  obtain ⟨b, _, hi⟩ := List.mem_filterMap.1 h
  exact range?_first_pos hi

/-- No range encloses itself, so the bounds of the block itself may be left in. -/
theorem takeAroundBounds_eq {blocks : List Block} {b : Block} {k : Nat} {i : Interval}
    (left : LineMap) (hb : blocks[k]? = some b) (hs : b.skip = false) (hi : b.range? = some i) :
    takeAroundBounds (blocks.map keptBounds?) k left i.bounds =
      .ok (takeAround? (keptRanges blocks) left i) := by
  have hown : ∀ r, (blocks.map keptBounds?)[k]? = some (some r) →
      r.encloses i.bounds = false := by
    intro r hr
    have hr' : r = i.bounds := by simpa [hb, keptBounds?_eq, hs, hi, eq_comm] using hr
    simp [hr', Bounds.encloses]
  have hothers : ((blocks.map keptBounds?).eraseIdx k).reduceOption.filter (·.encloses i.bounds) =
      ((keptRanges blocks).filter (·.encloses i)).map Interval.bounds := by
    rw [filter_reduceOption_eraseIdx hown, reduceOption_keptBounds?, List.filter_map]
    simp only [Function.comp_def, Interval.encloses_bounds]
  have hpos : ∀ j ∈ (keptRanges blocks).filter (·.encloses i), 0 < j.first :=
    fun j hj => keptRanges_first_pos (List.mem_of_mem_filter hj)
  rw [takeAroundBounds, takeBounds_eq left (range?_first_pos hi), hothers, narrowestBounds_eq hpos,
    takeAround?]
  cases takeRange? left i with
  | some taken => rfl
  | none =>
    cases hn : narrowest? ((keptRanges blocks).filter (·.encloses i)) with
    | none => rfl
    | some outer => exact takeBounds_eq left (hpos outer (mem_of_narrowest? hn))

theorem takeByBounds_eq {blocks : List Block} {b : Block} {k : Nat} (left : LineMap)
    (hb : blocks[k]? = some b) (hs : b.skip = false) :
    takeByBounds (blocks.map keptBounds?) k left b (b.range?.map Interval.bounds) =
      .ok (takeByRange (keptRanges blocks) left b false) := by
  unfold takeByBounds takeByRange
  rw [hs, if_neg Bool.false_ne_true, if_neg Bool.false_ne_true]
  cases hi : b.range? with
  | none => rfl
  | some i =>
    have htake := takeAroundBounds_eq left hb hs hi
    cases b.firstRecorded? with
    | none => rfl
    | some first =>
      simp only [Option.map_some, htake]
      cases takeAround? (keptRanges blocks) left i <;> rfl

section Waiting

variable {d : Desk} {k : Nat}

theorem set_alike {blocks : List Block} {b c : Block} (hb : blocks[k]? = some b) (h : Alike b c) :
    List.Forall₂ Alike blocks (blocks.set k c) := by
  induction blocks generalizing k with
  | nil => exact .nil
  | cons a rest ih =>
    have hrefl : ∀ a : Block, Alike a a := fun _ => ⟨rfl, rfl⟩
    cases k with
    | zero =>
      cases hb
      exact .cons h (List.forall₂_same.2 fun a _ => hrefl a)
    | succ k => exact .cons (hrefl a) (ih hb)

theorem keptBounds?_alike {bs cs : List Block} (h : List.Forall₂ Alike bs cs) :
    bs.map keptBounds? = cs.map keptBounds? :=
  map_eq_map_of_forall₂ h fun b c hbc => by
    rw [keptBounds?_eq, keptBounds?_eq, hbc.skip, hbc.range?]

/-- What a block that had to wait gets does not change where its lines are. -/
theorem byRange_alike (ranges : List Interval) (d : Desk) (k : Nat) :
    List.Forall₂ Alike d.blocks (d.byRange ranges k).blocks := by
  rw [Desk.byRange]
  split
  · exact List.forall₂_same.2 fun b _ => ⟨rfl, rfl⟩
  · rename_i b hb
    have halike : Alike b (takeByRange ranges d.left b false).2.1 := by
      rw [takeByRange_block ranges d.left b false k]
      exact ⟨rfl, (shape_credit _ k b).symm⟩
    exact set_alike hb halike

/-- A block that had to wait is served without a fault. -/
theorem byBounds_eq (h : (d.blocks.map Block.skip)[k]? = some false) :
    d.byBounds (d.blocks.map keptBounds?) k = .ok (d.byRange (keptRanges d.blocks) k) := by
  rw [List.getElem?_map, Option.map_eq_some_iff] at h
  obtain ⟨b, hb, hs⟩ := h
  have hbounds : (d.blocks.map keptBounds?)[k]? = some (b.range?.map Interval.bounds) := by
    rw [List.getElem?_map, hb, Option.map_some, keptBounds?_eq, hs]
    rfl
  have htake := takeByBounds_eq d.left hb hs
  simp only [Desk.byBounds, bind, Except.bind, member_eq_ok hb, member_eq_ok hbounds, htake,
    Desk.byRange, hb]
  rfl

/-- All blocks that had to wait are served without a fault. -/
theorem foldlM_byBounds {places : List Nat}
    (h : ∀ k ∈ places, (d.blocks.map Block.skip)[k]? = some false) :
    places.foldlM (Desk.byBounds (d.blocks.map keptBounds?)) d =
      .ok (places.foldl (Desk.byRange (keptRanges d.blocks)) d) := by
  induction places generalizing d with
  | nil => rfl
  | cons k places ih =>
    have halike := byRange_alike (keptRanges d.blocks) d k
    have hskip := map_eq_map_of_forall₂ halike fun _ _ h => h.skip
    have hrest := ih (d := d.byRange (keptRanges d.blocks) k) fun j hj => by
      rw [← hskip]
      exact h j (List.mem_cons_of_mem _ hj)
    rw [← keptBounds?_alike halike, ← keptRanges_alike halike] at hrest
    rw [List.foldlM_cons, byBounds_eq (h k List.mem_cons_self)]
    exact hrest

/-- A block that waits has its place in the function, and is not left out. -/
theorem starved_skip {served : List (Block × Bool)} (h : k ∈ placed starvedPlace? 0 served) :
    ((served.map Prod.fst).map Block.skip)[k]? = some false := by
  obtain ⟨j, e, he, htell⟩ := mem_placed_iff.1 h
  obtain ⟨hwaits, rfl⟩ : (e.1.skip = false ∧ e.2 = false) ∧ j = k := by
    simpa [starvedPlace?] using htell
  simp [he, hwaits.1]

end Waiting

theorem serveGuarded_eq (layout : Layout) (asm : Listing.Func) (blocks : List Block) :
    serveGuarded layout asm blocks = .ok (serveBlocks layout asm blocks) := by
  cases layout with
  | block => rfl
  | line =>
    have hdirect := foldl_direct (pool asm) [] blocks [] []
    simp only [List.length_nil, List.nil_append, ← List.range_eq_range'] at hdirect
    rw [serveGuarded, serveBlocks]
    apply foldlM_byBounds
    intro k hk
    rw [hdirect] at hk ⊢
    exact starved_skip hk

theorem countGuarded_eq (skips : List String) (asm : List Listing.Func) (p : Nat) (f : Func) :
    countGuarded skips asm p f = .ok (countFunc skips asm p f) := by
  rw [countGuarded, countFunc]
  cases partner? asm f with
  | none => rfl
  | some a =>
    simp only [serveGuarded_eq]
    rfl

/-- No merge meets a fault: whatever place it looks up is there, and whatever bounds it takes the
span of or looks for lines between begin at line 1 or later and are in order. The intervals are all
bounds that can be made, and the range of a block is the interval with its bounds, which come from
its ends or else from the lines that are recorded for it. -/
theorem merge_faultless (skips : List String) (asm : List Listing.Func) (fs : List Func) :
    mergeGuarded skips asm fs = .ok (merge skips asm fs) ∧
      (∀ r : Bounds, r.Made ↔ ∃ i : Interval, i.bounds = r) ∧
      (∀ b : Block, b.range?.map Interval.bounds = b.bounds?) ∧
      ∀ start stop m, BoundedBy start stop m (boundsOf? start stop m) := by
  refine ⟨?_, fun _ => Bounds.made_iff, Block.range?_bounds, boundsOf?_boundedBy⟩
  have hserved : (fs.zipIdx.mapM fun e => countGuarded skips asm e.2 e.1) =
      .ok (fs.mapIdx (countFunc skips asm)) := by
    rw [mapM_eq_ok fun e _ => countGuarded_eq skips asm e.2 e.1, List.mapIdx_eq_zipIdx_map]
  rw [mergeGuarded, merge_eq_counting, mergeCounting]
  cases duplicate? [] asm with
  | some d => rfl
  | none =>
    simp only [hserved]
    rfl

end Attribution

end LineCost
