import LineCost.Proofs.Attribution.Outcomes

/-!
What the range pass leaves behind: nothing that a block could still have had. A line that carries
cycles and is handed out to nobody stays in the pool throughout, so a block that has it in its range
would have taken it when its turn came.
-/

namespace LineCost.Attribution

open Outline

/-- A line of an assembly has gone, whole, to an entry of the block in place `k`. -/
def WentTo (lines : LineMap) (blocks : List Block) (hs : List Handout) (n k : Nat) : Prop :=
  ∃ h ∈ hs, h.line = n ∧ h.block = k ∧ lines.get? n = some h.tally ∧
    ∃ b, blocks[k]? = some b ∧ b.skip = false ∧ h.entry ∈ b.lines.lines

/-- No block misses a line that it could have had by its range. -/
structure NothingLeft (lines : LineMap) (blocks : List Block) (outcomes : List Outcome)
    (hs : List Handout) : Prop where
  /-- What lies in the range of a block that got nothing, or in the tightest range around that, has
  gone to other blocks. -/
  unresolved : ∀ k b i, blocks[k]? = some b → outcomes[k]? = some .unresolved →
    b.range? = some i → b.firstRecorded?.isSome = true →
      ∀ n t, lines.get? n = some t → t.cycles ≠ 0 →
        i.includes n = true ∨ (∃ outer, Tightest blocks i outer ∧ outer.includes n = true) →
          ∃ j ≠ k, WentTo lines blocks hs n j
  /-- What lies in the range of a starved block has gone to some block. -/
  starved : ∀ k b i, blocks[k]? = some b → Starved lines blocks k → b.range? = some i →
    b.firstRecorded?.isSome = true → ∀ n t, lines.get? n = some t → t.cycles ≠ 0 →
      i.includes n = true → ∃ j, WentTo lines blocks hs n j
  /-- Starved blocks get nothing that is recorded. -/
  unrecorded : ∀ h ∈ hs, Starved lines blocks h.block → ∀ b ∈ blocks, claims b h.line = false

variable {asm : Listing.Func} {blocks : List Block} {b : Block} {k n : Nat} {t : Tally}
  {i j : Interval}

theorem wentTo_of_mem {h : Handout} (hh : h ∈ handouts asm blocks) :
    WentTo asm.lines blocks (handouts asm blocks) h.line h.block := by
  obtain ⟨b, hb, hs, he⟩ := entry_of_mem hh
  exact ⟨h, hh, rfl, rfl, (whole_of_mem hh).2.1, b, hb, hs, he⟩

/-- A line that carries cycles and goes to nobody is left at every turn. -/
theorem get?_leftAt (hn : asm.lines.get? n = some t) (ht : t.cycles ≠ 0)
    (hnone : ∀ h ∈ handouts asm blocks, h.line ≠ n) (k : Nat) :
    (leftAt asm blocks k).get? n = some t := by
  have hfree : ∀ b ∈ blocks, claims b n = false := by
    intro b hb
    apply Classical.byContradiction
    intro hc
    obtain ⟨i, hi⟩ := exists_firstRecorder_iff.2 ⟨b, hb, Bool.not_eq_false _ ▸ hc⟩
    have hdirect := (mergeLines_exactlyAttributed asm blocks).direct n t i hn ht hi
    exact hnone _ hdirect rfl
  apply get?_rangeLeft_of_not_mem (directPass_pool_get?.2 ⟨hn, ht, hfree⟩)
  intro h hh
  exact hnone h (mem_handouts_iff.2 (.inr hh))

/-- A starved block takes whatever it has a source for, once it is its turn. -/
theorem exists_of_source (hb : blocks[k]? = some b) (hs : Starved asm.lines blocks k)
    (hi : b.range? = some i) (hfirst : b.firstRecorded?.isSome = true)
    (hj : Source (keptRanges blocks) (leftAt asm blocks k) i j)
    (hn : (leftAt asm blocks k).get? n = some t) (hjn : j.includes n = true) :
    ∃ h ∈ handouts asm blocks, h.line = n ∧ h.block = k := by
  obtain ⟨⟨c, hc, hskip⟩, hmissed⟩ := hs
  obtain rfl : b = c := Option.some.inj (hb.symm.trans hc)
  obtain ⟨hit, hserved⟩ := directPass_getElem?_of (pool asm) hb
  have hhit : hit = false := by
    cases h : hit with
    | false => rfl
    | true =>
      obtain ⟨m, u, hm, hrec⟩ := (directPass_hit hserved).1 h
      exact absurd hrec (hmissed m u (pool_get?.1 hm).1 (pool_get?.1 hm).2)
  obtain ⟨first, hfirst⟩ := Option.isSome_iff_exists.1 hfirst
  have htake : Served (keptRanges blocks) (leftAt asm blocks k)
      (credit (directHandouts 0 (pool asm) blocks) k b) hit j first := by
    refine ⟨hskip, hhit, ?_, i, ?_, hj⟩
    · rw [firstRecorded?_credit, hfirst]
    · rw [range?_credit, hi]
  refine ⟨⟨n, t, k, first⟩, mem_handouts_iff.2 (.inr ?_), rfl, rfl⟩
  exact mem_rangeHandouts_iff.2
    ⟨k, _, hit, j, (Nat.zero_add k).symm, hserved, hn, htake, hjn⟩

/-- So nothing of its own range is handed out to nobody. -/
theorem exists_of_range (hb : blocks[k]? = some b) (hs : Starved asm.lines blocks k)
    (hi : b.range? = some i) (hfirst : b.firstRecorded?.isSome = true)
    (hn : asm.lines.get? n = some t) (ht : t.cycles ≠ 0) (hin : i.includes n = true) :
    ∃ h ∈ handouts asm blocks, h.line = n := by
  apply Classical.byContradiction
  intro hnone
  have hleft := get?_leftAt hn ht (fun h hh he => hnone ⟨h, hh, he⟩) k
  have hsource : Source (keptRanges blocks) (leftAt asm blocks k) i i :=
    ⟨⟨n, t, hleft, hin⟩, .inl rfl⟩
  obtain ⟨h, hh, he, _⟩ := exists_of_source hb hs hi hfirst hsource hleft hin
  exact hnone ⟨h, hh, he⟩

/-- Nothing of the tightest range around that is, unless the block has something else. -/
theorem exists_of_tightest {outer : Interval} (hb : blocks[k]? = some b)
    (hs : Starved asm.lines blocks k) (hi : b.range? = some i)
    (hfirst : b.firstRecorded?.isSome = true) (hn : asm.lines.get? n = some t)
    (ht : t.cycles ≠ 0) (houter : Tightest blocks i outer) (hin : outer.includes n = true) :
    ∃ h ∈ handouts asm blocks, h.line = n ∨ h.block = k := by
  apply Classical.byContradiction
  intro hnone
  have hleft := get?_leftAt hn ht (fun h hh he => hnone ⟨h, hh, .inl he⟩) k
  by_cases hholds : Holds (leftAt asm blocks k) i
  · obtain ⟨m, u, hm, hmi⟩ := id hholds
    obtain ⟨h, hh, _, he⟩ := exists_of_source hb hs hi hfirst ⟨hholds, .inl rfl⟩ hm hmi
    exact hnone ⟨h, hh, .inr he⟩
  · have hsource : Source (keptRanges blocks) (leftAt asm blocks k) i outer :=
      ⟨⟨n, t, hleft, hin⟩, .inr ⟨hholds, narrowest?_eq_some_iff_tightest.2 houter⟩⟩
    obtain ⟨h, hh, _, he⟩ := exists_of_source hb hs hi hfirst hsource hleft hin
    exact hnone ⟨h, hh, .inr he⟩

theorem mergeLines_nothingLeft (asm : Listing.Func) (blocks : List Block) :
    NothingLeft asm.lines blocks ((mergeLines asm blocks).map Prod.snd)
      (handouts asm blocks) where
  unresolved := by
    intro k b i hb ho hi hfirst n t hn ht hin
    rw [mergeLines_outcome hb, Option.some.injEq] at ho
    obtain ⟨hs, hnone⟩ := ledgerOutcome_eq_unresolved_iff.1 ho
    have hstarved := starved_of_not_handed hb hs hnone
    have hgone : ∃ h ∈ handouts asm blocks, h.line = n := by
      rcases hin with hin | ⟨outer, houter, hin⟩
      · exact exists_of_range hb hstarved hi hfirst hn ht hin
      · obtain ⟨h, hh, he | he⟩ := exists_of_tightest hb hstarved hi hfirst hn ht houter hin
        · exact ⟨h, hh, he⟩
        · exact absurd he (hnone h hh)
    obtain ⟨h, hh, rfl⟩ := hgone
    exact ⟨h.block, hnone h hh, wentTo_of_mem hh⟩
  starved := by
    intro k b i hb hs hi hfirst n t hn ht hin
    obtain ⟨h, hh, rfl⟩ := exists_of_range hb hs hi hfirst hn ht hin
    exact ⟨h.block, wentTo_of_mem hh⟩
  unrecorded := by
    intro h hh hs b hb
    obtain ⟨_, hn, ht⟩ := whole_of_mem hh
    rcases mem_handouts_iff.1 hh with hd | hr
    · obtain ⟨_, _, j, hj, hrec⟩ := mem_directHandouts_iff.1 hd
      obtain rfl : h.block = j := by omega
      exact absurd hrec (hs.2 h.line h.tally hn ht)
    · obtain ⟨_, _, _, _, _, _, hl, _⟩ := mem_rangeHandouts_iff.1 hr
      exact (directPass_pool_get?.1 (get?_of_rangeLeft hl)).2.2 b hb

/-- After a merge, no block of a function in line layout has been left without a line that it could
have had by its range, and no line that is recorded has been handed out by range. -/
theorem merge_nothingLeft {skips : List String} {asm : List Listing.Func} {fs fs' : List Func}
    {report : Report} {p : Nat} {f : Func} {a : Listing.Func}
    (hm : merge skips asm fs = .ok (fs', report)) (hf : fs[p]? = some f) (hl : f.layout = .line)
    (ha : a ∈ asm) (hk : key a = (f.name, f.decl.line)) :
    ∃ f', fs'[p]? = some f' ∧
      f'.blocks = (marked skips f).mapIdx (credit (handouts a (marked skips f))) ∧
      NothingLeft a.lines (marked skips f) ((mergeLines a (marked skips f)).map Prod.snd)
        (handouts a (marked skips f)) :=
  ⟨_, merge_getElem?_of_line hm hf hl ha hk, mergeLines_blocks a (marked skips f),
    mergeLines_nothingLeft a (marked skips f)⟩

/-- Two blocks that are hit, one inside both that takes what it can, and one that finds this gone
from its own range and from the tightest around that. -/
def drainedFunc : Func :=
  ⟨"f", ⟨"a.c", 10⟩, .line,
    [⟨"wide", false, none, .zero, .ofList [(25, .zero), (45, .zero)]⟩,
      ⟨"outer", false, none, .zero, .ofList [(30, .zero), (40, .zero)]⟩,
      ⟨"inner", false, none, .zero, .ofList [(35, .zero)]⟩,
      ⟨"late", false, some ⟨1, ⟨"a.c", 37⟩, ⟨"a.c", 36⟩⟩, .zero, .ofList [(39, .zero)]⟩]⟩

def drainedAsm : Listing.Func :=
  ⟨"f", ⟨"a.c", 10⟩, [],
    .ofList [(25, ⟨1, 0, 0, 0, 0, 0, 2⟩), (30, ⟨0, 0, 0, 1, 0, 0, 1⟩),
      (36, ⟨0, 1, 0, 0, 0, 0, 4⟩), (44, ⟨0, 0, 0, 1, 0, 0, 1⟩)]⟩

theorem merge_nothingLeft_drained :
    (mergeLines drainedAsm (marked defaultSkips drainedFunc)).map Prod.snd =
        [.matched, .matched, .fallback, .unresolved] ∧
      handouts drainedAsm (marked defaultSkips drainedFunc) =
        [⟨25, ⟨1, 0, 0, 0, 0, 0, 2⟩, 0, 25⟩, ⟨30, ⟨0, 0, 0, 1, 0, 0, 1⟩, 1, 30⟩,
          ⟨36, ⟨0, 1, 0, 0, 0, 0, 4⟩, 2, 35⟩] ∧
      ∃ fs' report, merge defaultSkips [drainedAsm] [drainedFunc] = .ok (fs', report) ∧
        ∃ f', fs'[0]? = some f' ∧
          f'.blocks = (marked defaultSkips drainedFunc).mapIdx
            (credit (handouts drainedAsm (marked defaultSkips drainedFunc))) ∧
          NothingLeft drainedAsm.lines (marked defaultSkips drainedFunc)
            ((mergeLines drainedAsm (marked defaultSkips drainedFunc)).map Prod.snd)
            (handouts drainedAsm (marked defaultSkips drainedFunc)) := by
  refine ⟨by decide +kernel, by decide +kernel, _, _, rfl, ?_⟩
  exact merge_nothingLeft rfl rfl rfl (List.mem_singleton_self _) rfl

end LineCost.Attribution
