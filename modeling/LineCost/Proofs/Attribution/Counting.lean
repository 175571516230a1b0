import LineCost.Proofs.Attribution.Outcomes
import LineCost.Proofs.Attribution.Shapes

/-!
A merge that counts as it goes. The blocks of a function are served one after the other where they
stand, the starved ones once more after all others, and a counter is raised whenever it is decided
what becomes of a block. The account of a merge is what all counters come to in the end.
-/

namespace LineCost.Attribution

open Outline

/-- One rise of a counter, and what it is raised for: the function in place `p`, or the block in
place `k` of it. -/
inductive Count where
  | function (p : Nat) (paired : Bool)
  | block (p k : Nat) (outcome : Outcome)
  deriving DecidableEq, Repr

/-- The counter that is raised. -/
def Count.raised : Count → Report
  | .function _ true => { Report.zero with functionsMatched := 1 }
  | .function _ false => { Report.zero with functionsUnmatched := 1 }
  | .block _ _ .skipped => { Report.zero with blocksSkipped := 1 }
  | .block _ _ .matched => { Report.zero with blocksMatched := 1 }
  | .block _ _ .fallback => { Report.zero with blocksFallback := 1 }
  | .block _ _ .unresolved => { Report.zero with blocksUnresolved := 1 }

def Count.ofBlock (p : Nat) (c : Nat × Outcome) : Count := .block p c.1 c.2

/-- Where the work on the blocks of a function stands: the assembly lines that are left, the blocks
as they are by now, the places of those that are starved, and what has been counted. -/
structure Desk where
  left : LineMap
  blocks : List Block
  starved : List Nat
  counted : List (Nat × Outcome)

namespace Desk

def put (d : Desk) (left : LineMap) (k : Nat) (b : Block) : Desk :=
  { d with left := left, blocks := d.blocks.set k b }

def count (d : Desk) (k : Nat) (outcome : Outcome) : Desk :=
  { d with counted := d.counted ++ [(k, outcome)] }

/-- Serves the block in a place as a whole. -/
def whole (as : List Listing.Block) (d : Desk) (k : Nat) : Desk :=
  match d.blocks[k]? with
  | none => d
  | some b =>
    if b.skip then d
    else
      let (b, outcome) := mergeBlock as b
      (d.put d.left k b).count k outcome

/-- Gives the block in a place the lines that it records. If there are none it has to wait. -/
def direct (d : Desk) (k : Nat) : Desk :=
  match d.blocks[k]? with
  | none => d
  | some b =>
    if b.skip then d
    else
      let (left, b, hit) := takeDirect d.left b
      let d := d.put left k b
      if hit then d.count k .matched else { d with starved := d.starved ++ [k] }

/-- Serves a block that had to wait. -/
def byRange (ranges : List Interval) (d : Desk) (k : Nat) : Desk :=
  match d.blocks[k]? with
  | none => d
  | some b =>
    let (left, b, outcome) := takeByRange ranges d.left b false
    (d.put left k b).count k outcome

end Desk

/-- Serves all blocks of a function, and then those that had to wait. -/
def serveBlocks (layout : Layout) (asm : Listing.Func) (blocks : List Block) : Desk :=
  let places := List.range blocks.length
  let desk : Desk := ⟨pool asm, blocks, [], []⟩
  match layout with
  | .block => places.foldl (Desk.whole asm.blocks) desk
  | .line =>
    let d := places.foldl Desk.direct desk
    d.starved.foldl (Desk.byRange (keptRanges d.blocks)) d

/-- What there is to tell of the members of a list, the first of which is in place `i`. -/
def placed {α β : Type} (tell : Nat → α → Option β) (i : Nat) (l : List α) : List β :=
  (l.zipIdx i).filterMap fun e => tell e.2 e.1

/-- A block that is marked is counted at once. -/
def markCount? (k : Nat) (b : Block) : Option (Nat × Outcome) :=
  if b.skip then some (k, .skipped) else none

/-- Merges the function in place `p`. -/
def countFunc (skips : List String) (asm : List Listing.Func) (p : Nat) (f : Func) :
    Func × List Count :=
  let blocks := marked skips f
  let marks := (placed markCount? 0 blocks).map (Count.ofBlock p)
  match partner? asm f with
  | none => ({ f with blocks := blocks }, marks ++ [.function p false])
  | some a =>
    let d := serveBlocks f.layout a blocks
    ({ f with blocks := d.blocks }, marks ++ .function p true :: d.counted.map (Count.ofBlock p))

/-- Merges all functions, and tells which counters have been raised. -/
def mergeCounting (skips : List String) (asm : List Listing.Func) (fs : List Func) :
    Except DuplicateFunction (List Func × List Count) :=
  match duplicate? [] asm with
  | some d => .error d
  | none =>
    let served := fs.mapIdx (countFunc skips asm)
    .ok (served.map Prod.fst, (served.map Prod.snd).flatten)

/-- What is counted when a block is served. It was counted before if it is skipped. -/
def servedCount? (k : Nat) (outcome : Outcome) : Option (Nat × Outcome) :=
  if outcome = .skipped then none else some (k, outcome)

def hitCount? (k : Nat) (served : Block × Bool) : Option (Nat × Outcome) :=
  if !served.1.skip && served.2 then some (k, .matched) else none

def starvedPlace? (k : Nat) (served : Block × Bool) : Option Nat :=
  if !served.1.skip && !served.2 then some k else none

theorem placed_cons {α β : Type} (tell : Nat → α → Option β) (i : Nat) (a : α) (l : List α) :
    placed tell i (a :: l) = (tell i a).toList ++ placed tell (i + 1) l := by
  simp only [placed, List.zipIdx_cons, List.filterMap_cons]
  cases tell i a <;> rfl

theorem mergeBlock_eq_skipped_iff (as : List Listing.Block) (b : Block) :
    (mergeBlock as b).2 = .skipped ↔ b.skip = true := by
  rw [mergeBlock_outcome_eq]
  split
  · simp [*]
  · cases b.range? with
    | none => simp [*]
    | some i =>
      simp only [Option.elim_some]
      split <;> simp [*]

theorem takeByRange_eq_skipped_iff (ranges : List Interval) (left : LineMap) (b : Block)
    (hit : Bool) : (takeByRange ranges left b hit).2.2 = .skipped ↔ b.skip = true := by
  by_cases h : ∃ j n, Served ranges left b hit j n
  · obtain ⟨j, n, hserved⟩ := h
    simp [takeByRange_of_served hserved, hserved.1]
  · rw [takeByRange_of_not_served fun j n hs => h ⟨j, n, hs⟩]
    cases b.skip <;> cases hit <;> simp

section Loops

variable {as : List Listing.Block} {ranges : List Interval} {before rest : List Block}
  {b : Block} {left : LineMap} {starved : List Nat} {counted : List (Nat × Outcome)}

theorem getElem?_length_append (before : List Block) (b : Block) (rest : List Block) :
    (before ++ b :: rest)[before.length]? = some b := by
  simp

theorem whole_step : Desk.whole as ⟨left, before ++ b :: rest, starved, counted⟩ before.length =
    ⟨left, before ++ (mergeBlock as b).1 :: rest, starved,
      counted ++ (servedCount? before.length (mergeBlock as b).2).toList⟩ := by
  have hskip := mergeBlock_eq_skipped_iff as b
  simp only [Desk.whole, getElem?_length_append]
  cases hs : b.skip with
  | true => simp [mergeBlock, hs, servedCount?]
  | false =>
    rw [hs] at hskip
    simp [Desk.put, Desk.count, servedCount?, hskip]

theorem direct_step : Desk.direct ⟨left, before ++ b :: rest, starved, counted⟩ before.length =
    ⟨(takeDirect left b).1, before ++ (takeDirect left b).2.1 :: rest,
      starved ++ (starvedPlace? before.length (takeDirect left b).2).toList,
      counted ++ (hitCount? before.length (takeDirect left b).2).toList⟩ := by
  have hskip : (takeDirect left b).2.1.skip = b.skip := by
    rw [takeDirect_block left b 0]
    rfl
  simp only [Desk.direct, getElem?_length_append]
  cases hs : b.skip with
  | true => simp [takeDirect, hs, starvedPlace?, hitCount?]
  | false =>
    rw [hs] at hskip
    cases hhit : (takeDirect left b).2.2 <;>
      simp [Desk.put, Desk.count, starvedPlace?, hitCount?, hskip, hhit]

theorem byRange_step :
    Desk.byRange ranges ⟨left, before ++ b :: rest, starved, counted⟩ before.length =
      ⟨(takeByRange ranges left b false).1,
        before ++ (takeByRange ranges left b false).2.1 :: rest, starved,
        counted ++ [(before.length, (takeByRange ranges left b false).2.2)]⟩ := by
  simp [Desk.byRange, Desk.put, Desk.count]

theorem foldl_whole (as : List Listing.Block) (left : LineMap) (before todo : List Block)
    (starved : List Nat) (counted : List (Nat × Outcome)) :
    (List.range' before.length todo.length).foldl (Desk.whole as)
        ⟨left, before ++ todo, starved, counted⟩ =
      ⟨left, before ++ todo.map fun b => (mergeBlock as b).1, starved,
        counted ++ placed servedCount? before.length (todo.map fun b => (mergeBlock as b).2)⟩ := by
  induction todo generalizing before counted with
  | nil => simp [placed]
  | cons b rest ih =>
    have hrest := ih (before ++ [(mergeBlock as b).1])
      (counted ++ (servedCount? before.length (mergeBlock as b).2).toList)
    simp only [List.length_append, List.length_singleton, List.append_assoc,
      List.singleton_append] at hrest
    rw [List.length_cons, List.range'_succ, List.foldl_cons, whole_step, hrest]
    simp [placed_cons]

theorem foldl_direct (left : LineMap) (before todo : List Block) (starved : List Nat)
    (counted : List (Nat × Outcome)) :
    (List.range' before.length todo.length).foldl Desk.direct
        ⟨left, before ++ todo, starved, counted⟩ =
      ⟨(directPass left todo).1, before ++ (directPass left todo).2.map Prod.fst,
        starved ++ placed starvedPlace? before.length (directPass left todo).2,
        counted ++ placed hitCount? before.length (directPass left todo).2⟩ := by
  induction todo generalizing left before starved counted with
  | nil => simp [directPass, placed]
  | cons b rest ih =>
    have hrest := ih (takeDirect left b).1 (before ++ [(takeDirect left b).2.1])
      (starved ++ (starvedPlace? before.length (takeDirect left b).2).toList)
      (counted ++ (hitCount? before.length (takeDirect left b).2).toList)
    simp only [List.length_append, List.length_singleton, List.append_assoc,
      List.singleton_append] at hrest
    rw [List.length_cons, List.range'_succ, List.foldl_cons, direct_step, hrest]
    simp [directPass, placed_cons]

/-- The blocks that do not have to wait are already as the range pass leaves them. All blocks
together are counted once, those that are hit before and the others here. -/
theorem foldl_byRange (ranges : List Interval) (served : List (Block × Bool)) (left : LineMap)
    (before : List Block) (starved : List Nat) (counted : List (Nat × Outcome)) :
    ∃ left' counted', (placed starvedPlace? before.length served).foldl (Desk.byRange ranges)
        ⟨left, before ++ served.map Prod.fst, starved, counted⟩ =
          ⟨left', before ++ (rangePass ranges left served).map Prod.fst, starved, counted'⟩ ∧
      (placed hitCount? before.length served ++ counted').Perm
        (counted ++ placed servedCount? before.length
          ((rangePass ranges left served).map Prod.snd)) := by
  induction served generalizing left before counted with
  | nil => exact ⟨left, counted, rfl, by simp [placed, rangePass]⟩
  | cons e rest ih =>
    obtain ⟨b, hit⟩ := e
    -- only a starved block has its turn, a hit one was counted before, and a skipped one never is
    cases hs : b.skip with
    | true =>
      obtain ⟨left', counted', hrun, hperm⟩ := ih left (before ++ [b]) counted
      refine ⟨left', counted', ?_, ?_⟩
      · simpa [placed_cons, starvedPlace?, rangePass, takeByRange, hs] using hrun
      · simpa [placed_cons, hitCount?, servedCount?, rangePass, takeByRange, hs] using hperm
    | false =>
      cases hit with
      | true =>
        obtain ⟨left', counted', hrun, hperm⟩ := ih left (before ++ [b]) counted
        have hmatched := (hperm.cons (before.length, .matched)).trans List.perm_middle.symm
        refine ⟨left', counted', ?_, ?_⟩
        · simpa [placed_cons, starvedPlace?, rangePass, takeByRange, hs] using hrun
        · simpa [placed_cons, hitCount?, servedCount?, rangePass, takeByRange, hs] using hmatched
      | false =>
        have hskip := takeByRange_eq_skipped_iff ranges left b false
        obtain ⟨left', counted', hrun, hperm⟩ := ih (takeByRange ranges left b false).1
          (before ++ [(takeByRange ranges left b false).2.1])
          (counted ++ [(before.length, (takeByRange ranges left b false).2.2)])
        refine ⟨left', counted', ?_, ?_⟩
        · simpa [placed_cons, starvedPlace?, rangePass, hs, byRange_step] using hrun
        · simpa [placed_cons, hitCount?, servedCount?, rangePass, hs, hskip] using hperm

end Loops

theorem alike_directPass (left : LineMap) (blocks : List Block) :
    List.Forall₂ Alike blocks ((directPass left blocks).2.map Prod.fst) := by
  induction blocks generalizing left with
  | nil => exact .nil
  | cons b rest ih =>
    have hb : Alike b (takeDirect left b).2.1 := by
      rw [takeDirect_block left b 0]
      exact ⟨rfl, (shape_credit _ 0 b).symm⟩
    exact .cons hb (ih (takeDirect left b).1)

/-- The ranges of the blocks are the same before and after they get the lines that they record. -/
theorem keptRanges_directPass (left : LineMap) (blocks : List Block) :
    keptRanges ((directPass left blocks).2.map Prod.fst) = keptRanges blocks :=
  (keptRanges_alike (alike_directPass left blocks)).symm

/-- What a merge makes of the blocks of a function, and what becomes of them. -/
def outcomes (layout : Layout) (asm : Listing.Func) (blocks : List Block) :
    List (Block × Outcome) :=
  match layout with
  | .block => blocks.map (mergeBlock asm.blocks)
  | .line => mergeLines asm blocks

/-- The blocks are served as in a merge, and each that is not skipped is counted once, as what it
becomes. -/
theorem serveBlocks_eq (layout : Layout) (asm : Listing.Func) (blocks : List Block) :
    (serveBlocks layout asm blocks).blocks = (outcomes layout asm blocks).map Prod.fst ∧
      (serveBlocks layout asm blocks).counted.Perm
        (placed servedCount? 0 ((outcomes layout asm blocks).map Prod.snd)) := by
  cases layout with
  | block =>
    have hrun := foldl_whole asm.blocks (pool asm) [] blocks [] []
    simp only [List.length_nil, List.nil_append, ← List.range_eq_range'] at hrun
    simp [serveBlocks, outcomes, hrun, Function.comp_def]
  | line =>
    have hdirect := foldl_direct (pool asm) [] blocks [] []
    obtain ⟨left, counted, hrun, hperm⟩ := foldl_byRange (keptRanges blocks)
      (directPass (pool asm) blocks).2 (directPass (pool asm) blocks).1 []
      (placed starvedPlace? 0 (directPass (pool asm) blocks).2)
      (placed hitCount? 0 (directPass (pool asm) blocks).2)
    simp only [List.length_nil, List.nil_append, ← List.range_eq_range'] at hdirect hrun hperm
    simp only [serveBlocks, hdirect, keptRanges_directPass, hrun, outcomes]
    exact ⟨rfl, (List.perm_append_left_iff _).1 hperm⟩

theorem mergeFunc_eq (f : Func) (asm : Listing.Func) :
    mergeFunc f asm = ({ f with blocks := (outcomes f.layout asm f.blocks).map Prod.fst },
      .ofMatched ((outcomes f.layout asm f.blocks).map Prod.snd)) := by
  cases h : f.layout <;> simp [mergeFunc, outcomes, h]

theorem rangePass_skipped (ranges : List Interval) (left : LineMap) (served : List (Block × Bool)) :
    (rangePass ranges left served).map (fun e => e.2 == .skipped) =
      served.map fun e => e.1.skip := by
  induction served generalizing left with
  | nil => rfl
  | cons e rest ih =>
    have hskip : ((takeByRange ranges left e.1 e.2).2.2 == .skipped) = e.1.skip := by
      rw [Bool.eq_iff_iff, beq_iff_eq, takeByRange_eq_skipped_iff]
    simp only [rangePass, List.map_cons, hskip, ih]

/-- A block is skipped if it is marked, in either layout. -/
theorem outcomes_skipped (layout : Layout) (asm : Listing.Func) (blocks : List Block) :
    (outcomes layout asm blocks).map (fun e => e.2 == .skipped) = blocks.map Block.skip := by
  cases layout with
  | block =>
    simp only [outcomes, List.map_map]
    apply List.map_congr_left
    intro b _
    rw [Bool.eq_iff_iff, Function.comp_apply, beq_iff_eq, mergeBlock_eq_skipped_iff]
  | line =>
    have hdirect : List.Forall₂ (fun b c => b.skip = c.skip) blocks
        ((directPass (pool asm) blocks).2.map Prod.fst) :=
      (alike_directPass (pool asm) blocks).imp fun _ _ h => h.skip
    rw [← List.forall₂_map_right_iff, ← List.forall₂_map_left_iff, List.forall₂_eq_eq_eq,
      List.map_map] at hdirect
    exact (rangePass_skipped _ _ _).trans hdirect.symm

/-- Blocks that are counted when they are marked and blocks that are counted when they are served
are all blocks. -/
theorem marks_perm {blocks : List Block} {os : List Outcome} (i : Nat)
    (h : os.map (· == .skipped) = blocks.map Block.skip) :
    (placed markCount? i blocks ++ placed servedCount? i os).Perm
      (placed (fun k o => some (k, o)) i os) := by
  induction os generalizing blocks i with
  | nil =>
    rw [List.map_nil, eq_comm, List.map_eq_nil_iff] at h
    subst h
    exact .refl _
  | cons o rest ih =>
    obtain ⟨b, bs, rfl, hb, hbs⟩ := List.map_eq_cons_iff.1 h.symm
    have hrest := ih (i + 1) hbs.symm
    by_cases ho : o = .skipped
    · have hmark : b.skip = true := by simpa [ho] using hb
      simpa [placed_cons, markCount?, servedCount?, hmark, ho] using hrest.cons (i, o)
    · have hmark : b.skip = false := hb.trans (beq_eq_false_iff_ne.2 ho)
      have hserved := List.perm_middle.trans (hrest.cons (i, o))
      simpa [placed_cons, markCount?, servedCount?, hmark, ho] using hserved

/-- What is counted for the blocks of a function: if it has assembly, for each block what it
becomes, and if not, only which blocks are marked. -/
def told (skips : List String) (asm : List Listing.Func) (f : Func) : List (Nat × Outcome) :=
  match partner? asm f with
  | none => placed markCount? 0 (marked skips f)
  | some a =>
    placed (fun k o => some (k, o)) 0 ((outcomes f.layout a (marked skips f)).map Prod.snd)

theorem countFunc_perm (skips : List String) (asm : List Listing.Func) (p : Nat) (f : Func) :
    (countFunc skips asm p f).2.Perm
      (.function p (partner? asm f).isSome :: (told skips asm f).map (Count.ofBlock p)) := by
  cases hp : partner? asm f with
  | none =>
    simp only [countFunc, told, hp]
    exact List.perm_append_comm
  | some a =>
    have hserve := (serveBlocks_eq f.layout a (marked skips f)).2
    have hskipped := outcomes_skipped f.layout a (marked skips f)
    have hall := (hserve.append_left _).trans
      (marks_perm 0 (by rw [List.map_map]; exact hskipped))
    have hcounts := (hall.map (Count.ofBlock p)).cons (.function p true)
    rw [List.map_append] at hcounts
    simp only [countFunc, told, hp]
    exact List.perm_middle.trans hcounts

namespace Report

theorem add_def (r s : Report) : r + s = r.add s := rfl

theorem add_comm (r s : Report) : r + s = s + r := by
  simp only [add_def, add, Nat.add_comm]

theorem add_assoc (r s t : Report) : r + s + t = r + (s + t) := by
  simp only [add_def, add, Nat.add_assoc]

@[simp] theorem zero_add (r : Report) : zero + r = r := by
  simp only [add_def, add, zero, Nat.zero_add]

@[simp] theorem add_zero (r : Report) : r + zero = r := by
  rw [add_comm, zero_add]

@[simp] theorem sum_nil : sum [] = zero := rfl

@[simp] theorem sum_cons (r : Report) (rs : List Report) : sum (r :: rs) = r + sum rs := rfl

theorem sum_append (rs ss : List Report) : sum (rs ++ ss) = sum rs + sum ss := by
  induction rs with
  | nil => simp
  | cons r rs ih => simp [ih, add_assoc]

theorem sum_perm {rs ss : List Report} (h : rs.Perm ss) : sum rs = sum ss := by
  induction h with
  | nil => rfl
  | cons r _ ih => rw [sum_cons, sum_cons, ih]
  | swap r s l => simp only [sum_cons, ← add_assoc, add_comm r s]
  | trans _ _ ih₁ ih₂ => exact ih₁.trans ih₂

end Report

/-- What some rises of counters come to. -/
def account (counts : List Count) : Report := Report.sum (counts.map Count.raised)

theorem account_cons (c : Count) (cs : List Count) :
    account (c :: cs) = c.raised + account cs := rfl

theorem account_append (cs ds : List Count) : account (cs ++ ds) = account cs + account ds := by
  rw [account, List.map_append, Report.sum_append]
  rfl

theorem account_flatten (css : List (List Count)) :
    account css.flatten = Report.sum (css.map account) := by
  induction css with
  | nil => rfl
  | cons cs css ih => rw [List.flatten_cons, account_append, ih, List.map_cons, Report.sum_cons]

theorem account_perm {cs ds : List Count} (h : cs.Perm ds) : account cs = account ds :=
  Report.sum_perm (h.map Count.raised)

theorem account_marks (p i : Nat) (blocks : List Block) :
    account ((placed markCount? i blocks).map (Count.ofBlock p)) =
      { Report.zero with blocksSkipped := blocks.countP (·.skip) } := by
  induction blocks generalizing i with
  | nil => rfl
  | cons b rest ih =>
    rw [placed_cons, List.map_append, account_append, ih]
    cases hs : b.skip <;>
      simp [markCount?, hs, account, Count.ofBlock, Count.raised, Report.add_def, Report.add,
        Report.zero, Nat.add_comm]

theorem account_outcomes (p i : Nat) (os : List Outcome) :
    account ((placed (fun k o => some (k, o)) i os).map (Count.ofBlock p)) =
      { Report.ofMatched os with functionsMatched := 0 } := by
  induction os generalizing i with
  | nil => rfl
  | cons o rest ih =>
    rw [placed_cons, List.map_append, account_append, ih]
    cases o <;>
      simp [account, Count.ofBlock, Count.raised, Report.add_def, Report.add, Report.zero,
        Report.ofMatched, Nat.add_comm]

/-- A function is served as in a merge, and what is counted comes to its account. -/
theorem countFunc_eq (skips : List String) (asm : List Listing.Func) (p : Nat) (f : Func) :
    mergeOne skips asm f = ((countFunc skips asm p f).1, account (countFunc skips asm p f).2) := by
  rw [mergeOne_eq, account_perm (countFunc_perm skips asm p f), account_cons]
  cases hp : partner? asm f with
  | none =>
    simp only [countFunc, told, hp, account_marks]
    simp [Count.raised, Report.add_def, Report.add, Report.zero, Report.ofUnmatched, markSkipped,
      marked]
  | some a =>
    simp only [countFunc, told, hp, account_outcomes, mergeFunc_eq, (serveBlocks_eq _ _ _).1]
    simp [Count.raised, Report.add_def, Report.add, Report.zero, Report.ofMatched, markSkipped,
      marked]

/-- A merge does the same without counting, and its account is what has been counted. -/
theorem merge_eq_counting (skips : List String) (asm : List Listing.Func) (fs : List Func) :
    merge skips asm fs =
      (mergeCounting skips asm fs).map fun r => (r.1, account r.2) := by
  have hserved : fs.map (mergeOne skips asm) =
      (fs.mapIdx (countFunc skips asm)).map fun s => (s.1, account s.2) := by
    apply List.ext_getElem?
    intro p
    simp only [List.getElem?_map, List.getElem?_mapIdx, Option.map_map, Function.comp_def,
      ← countFunc_eq]
  rw [merge, mergeCounting]
  cases duplicate? [] asm with
  | some d => rfl
  | none => simp only [hserved, Except.map, List.map_map, account_flatten, Function.comp_def]

end LineCost.Attribution
