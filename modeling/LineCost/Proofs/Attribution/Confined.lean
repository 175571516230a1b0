import LineCost.Proofs.Attribution.Frame
import LineCost.Proofs.Attribution.BlockCosts

/-!
What a merge may touch. Functions and blocks stay where they are, with all that they are known by and
all the lines that they record; only tallies grow or are replaced, and only those of blocks that are
not left out, in functions that have assembly, where the layout has its tallies.
-/

namespace LineCost

namespace Tally

/-- No counter is larger than that of the other tally. -/
def AtMost (t u : Tally) : Prop := List.Forall₂ (· ≤ ·) t.fields u.fields

theorem atMost_add (t u : Tally) : t.AtMost (t + u) := by
  simp [AtMost, fields, add_def, add]

theorem AtMost.refl (t : Tally) : t.AtMost t := by
  simp [AtMost, fields]

end Tally

namespace Attribution

open Outline

/-- A block after a merge, told from what it was before. The merge has assembly for its function if
`served`. -/
structure Confined (skips : List String) (served : Prop) (layout : Layout) (b b' : Block) :
    Prop where
  name : b'.name = b.name
  /-- The size stays, and so do the two ends. -/
  span : b'.span = b.span
  /-- No entry is made, and none is lost. -/
  recorded : b'.lines.lines = b.lines.lines
  /-- Whether the block was left out before does not matter. -/
  skip : b'.skip = leavesOut skips b.name
  kept : leavesOut skips b.name = true ∨ ¬ served → b'.tally = b.tally ∧ b'.lines = b.lines
  line : layout = .line → b'.tally = b.tally ∧ b'.lines.get? 0 = b.lines.get? 0 ∧
    ∀ n t t', b.lines.get? n = some t → b'.lines.get? n = some t' → t.AtMost t'
  block : layout = .block → b'.lines = b.lines

variable {skips : List String} {served : Prop} {layout : Layout} {asm : List Listing.Func}
  {b c : Block} {hs : List Handout} {i : Nat}

/-- A block that changes at most in its tallies changes in no other way. -/
theorem Confined.of_retallied (h : Retallied layout b c)
    (hskip : c.skip = leavesOut skips b.name)
    (hkept : leavesOut skips b.name = true ∨ ¬ served → c.tally = b.tally ∧ c.lines = b.lines)
    (hzero : layout = .line → c.lines.get? 0 = b.lines.get? 0)
    (hgrow : layout = .line → ∀ n t t', b.lines.get? n = some t → c.lines.get? n = some t' →
      t.AtMost t') : Confined skips served layout b c where
  name := h.name
  span := h.span
  recorded := h.recorded
  skip := hskip
  kept := hkept
  line := fun hl => ⟨h.line hl, hzero hl, hgrow hl⟩
  block := fun hl => (h.block hl).1

theorem confined_marked (skips : List String) (served : Prop) (layout : Layout) (b : Block) :
    Confined skips served layout b { b with skip := leavesOut skips b.name } := by
  have hframe : Retallied layout b { b with skip := leavesOut skips b.name } :=
    (Retallied.refl layout _).of_marked
  refine .of_retallied hframe rfl (fun _ => ⟨rfl, rfl⟩) (fun _ => rfl) ?_
  intro _ n t t' ht ht'
  cases ht.symm.trans ht'
  exact Tally.AtMost.refl t

/-- Every handout is booked on a valid line. -/
theorem entry_pos_of_mem {asm : Listing.Func} {blocks : List Block} {h : Handout}
    (hh : h ∈ handouts asm blocks) : 0 < h.entry := by
  rcases mem_handouts_iff.1 hh with hd | hr
  · obtain ⟨_, hentry, _⟩ := mem_directHandouts_iff.1 hd
    rw [hentry]
    exact (whole_of_mem hh).1
  · obtain ⟨_, b, _, _, hfirst, _⟩ := ranged_of_mem hr
    exact (firstRecorded?_mem hfirst).1

theorem confined_credit (hskipped : leavesOut skips b.name = true → ∀ h ∈ hs, h.block ≠ i)
    (hvalid : ∀ h ∈ hs, 0 < h.entry) (hserved : served) :
    Confined skips served .line b (credit hs i { b with skip := leavesOut skips b.name }) := by
  have hframe : Retallied .line b (credit hs i { b with skip := leavesOut skips b.name }) :=
    (retallied_credit hs i _).of_marked
  refine .of_retallied hframe rfl ?_ ?_ ?_
  · intro h
    have hskip : leavesOut skips b.name = true := h.resolve_right (not_not.2 hserved)
    rw [credit_of_ne (hskipped hskip)]
    exact ⟨rfl, rfl⟩
  · intro _
    have hnone : booked hs i 0 = .zero := by
      have hn : hs.filter (fun h => h.block = i ∧ h.entry = 0) = [] := by
        apply List.filter_eq_nil_iff.2
        intro h hm
        have := hvalid h hm
        simp only [decide_eq_true_eq]
        omega
      simp only [booked, hn, List.map_nil, Tally.sum_nil]
    rw [credit, LineMap.get?_map, hnone]
    simp
  · intro _ n t t' ht ht'
    rw [credit, LineMap.get?_map, ht, Option.map_some, Option.some.injEq] at ht'
    rw [← ht']
    exact Tally.atMost_add t _

theorem confined_mergeBlock (asm : List Listing.Block) (b : Block) (hserved : served) :
    Confined skips served .block b
      (mergeBlock asm { b with skip := leavesOut skips b.name }).1 := by
  have hframe : Retallied .block b (mergeBlock asm { b with skip := leavesOut skips b.name }).1 :=
    (retallied_mergeBlock asm _).of_marked
  refine .of_retallied hframe (congrArg Block.skip (mergeBlock_eq asm _)) ?_ nofun nofun
  intro h
  have hskip : leavesOut skips b.name = true := h.resolve_right (not_not.2 hserved)
  rw [mergeBlock_of_skip hskip]
  exact ⟨rfl, rfl⟩

theorem mergeOne_confined {f : Func} (hn : (asm.map key).Nodup) :
    List.Forall₂ (Confined skips (∃ a ∈ asm, key a = (f.name, f.decl.line)) f.layout) f.blocks
      (mergeOne skips asm f).1.blocks := by
  cases hp : partner? asm f with
  | none =>
    rw [mergeOne_of_none hp, marked, markSkipped, List.forall₂_map_right_iff, List.forall₂_same]
    intro b _
    exact confined_marked skips _ f.layout b
  | some a =>
    have hserved : ∃ a ∈ asm, key a = (f.name, f.decl.line) :=
      ⟨a, (partner?_eq_some_iff hn).1 hp⟩
    cases hl : f.layout with
    | line =>
      rw [mergeOne_of_line hp hl, mergeLines_blocks, marked, markSkipped]
      refine forall₂_mapIdx_map fun i b hb => ?_
      refine confined_credit ?_ (fun h hh => entry_pos_of_mem hh) hserved
      intro hskip h hh hi
      obtain ⟨c, hc, hkept, _⟩ := entry_of_mem hh
      rw [hi, List.getElem?_map, hb] at hc
      cases hc
      exact absurd hskip (Bool.eq_false_iff.1 hkept)
    | block =>
      rw [mergeOne_of_block hp hl, marked, markSkipped, List.map_map, List.forall₂_map_right_iff,
        List.forall₂_same]
      intro b _
      exact confined_mergeBlock a.blocks b hserved

/-- A merge that succeeds, with no counter running over, changes nothing but which blocks are left
out and the tallies that it attributes. -/
theorem checkedMerge_confined {fs fs' : List Func} {report : Report}
    (h : checkedMerge skips asm fs = .ok (.ok (fs', report))) :
    List.Forall₂ (fun f f' => f'.name = f.name ∧ f'.decl = f.decl ∧ f'.layout = f.layout ∧
      List.Forall₂ (Confined skips (∃ a ∈ asm, key a = (f.name, f.decl.line)) f.layout) f.blocks
        f'.blocks) fs fs' := by
  obtain ⟨hn, hfs, _⟩ := merge_eq_ok_iff.1 (merge_of_checkedMerge h)
  rw [hfs, List.forall₂_map_right_iff, List.forall₂_same]
  intro f _
  obtain ⟨hname, hdecl, hlayout⟩ := mergeOne_name skips asm f
  exact ⟨hname, hdecl, hlayout, mergeOne_confined hn⟩

/-- A block with a span, a tally, line 0 and a mark of an earlier merge in line layout, one with
entries in block layout, and a function that is known by its name only. -/
def leftoverFuncs : List Func :=
  [⟨"f", ⟨"a.c", 10⟩, .line,
      [⟨"body", true, some ⟨2, ⟨"a.c", 20⟩, ⟨"a.c", 24⟩⟩, ⟨1, 0, 0, 0, 0, 0, 1⟩,
          .ofList [(0, ⟨0, 0, 1, 0, 0, 0, 2⟩), (12, ⟨0, 0, 0, 0, 0, 1, 1⟩)]⟩,
        ⟨"lpad", false, none, .zero, .ofList [(22, .zero)]⟩]⟩,
    ⟨"g", ⟨"a.c", 30⟩, .block,
      [⟨"entry", true, some ⟨1, ⟨"a.c", 30⟩, ⟨"a.c", 31⟩⟩, ⟨1, 0, 0, 0, 0, 0, 9⟩,
          .ofList [(31, ⟨0, 0, 0, 1, 0, 0, 1⟩)]⟩]⟩,
    ⟨"g", ⟨"a.c", 40⟩, .line, [⟨"eh.end", false, none, .zero, .ofList [(31, .zero)]⟩]⟩]

def leftoverAsm : List Listing.Func :=
  [⟨"g", ⟨"a.c", 30⟩, [⟨none, "entry", some (.between 30 31), ⟨0, 1, 0, 0, 0, 0, 4⟩⟩],
      .ofList [(31, ⟨0, 1, 0, 0, 0, 0, 4⟩)]⟩,
    ⟨"f", ⟨"a.c", 10⟩, [], .ofList [(0, ⟨0, 0, 0, 0, 0, 1, 1⟩), (22, ⟨0, 1, 0, 0, 0, 0, 4⟩)]⟩]

/-- Line 22 is in the range of the first block, which books it on its first valid line. -/
def leftoverMerged : List Func :=
  [⟨"f", ⟨"a.c", 10⟩, .line,
      [⟨"body", false, some ⟨2, ⟨"a.c", 20⟩, ⟨"a.c", 24⟩⟩, ⟨1, 0, 0, 0, 0, 0, 1⟩,
          .ofList [(0, ⟨0, 0, 1, 0, 0, 0, 2⟩), (12, ⟨0, 1, 0, 0, 0, 1, 5⟩)]⟩,
        ⟨"lpad", true, none, .zero, .ofList [(22, .zero)]⟩]⟩,
    ⟨"g", ⟨"a.c", 30⟩, .block,
      [⟨"entry", false, some ⟨1, ⟨"a.c", 30⟩, ⟨"a.c", 31⟩⟩, ⟨0, 1, 0, 0, 0, 0, 4⟩,
          .ofList [(31, ⟨0, 0, 0, 1, 0, 0, 1⟩)]⟩]⟩,
    ⟨"g", ⟨"a.c", 40⟩, .line, [⟨"eh.end", true, none, .zero, .ofList [(31, .zero)]⟩]⟩]

theorem checkedMerge_confined_leftover :
    checkedMerge defaultSkips leftoverAsm leftoverFuncs =
        .ok (.ok (leftoverMerged, ⟨2, 1, 1, 1, 0, 2⟩)) ∧
      List.Forall₂ (fun f f' => f'.name = f.name ∧ f'.decl = f.decl ∧ f'.layout = f.layout ∧
        List.Forall₂ (Confined defaultSkips (∃ a ∈ leftoverAsm, key a = (f.name, f.decl.line))
          f.layout) f.blocks f'.blocks) leftoverFuncs leftoverMerged := by
  have h : checkedMerge defaultSkips leftoverAsm leftoverFuncs =
      .ok (.ok (leftoverMerged, ⟨2, 1, 1, 1, 0, 2⟩)) := by
    rfl
  exact ⟨h, checkedMerge_confined h⟩

end Attribution

end LineCost
