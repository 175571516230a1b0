import LineCost.Proofs.Attribution.Leftovers
import LineCost.Proofs.Attribution.BlockCosts
import Mathlib.Algebra.Order.BigOperators.Group.List
import Mathlib.Data.List.Flatten
import Mathlib.Data.List.Perm.Subperm

/-!
How often a merge hands a line of the assembly out. Each function of the outline draws on the whole
assembly function that it is paired with, so a line goes out twice where two functions of the
outline are paired with one assembly function and both can reach the line.
-/

namespace LineCost.Attribution

open Outline

/-- The key of the assembly function that a function of the outline is paired with. -/
def sought (f : Func) : String × Nat := (f.name, f.decl.line)

/-- What a merge hands out to one function. -/
def handedTo (skips : List String) (asm : List Listing.Func) (f : Func) : List Handout :=
  match f.layout, partner? asm f with
  | .line, some a => handouts a (marked skips f)
  | _, _ => []

/-- All that a merge hands out, each time with the key of the assembly function that it is from. -/
def spent (skips : List String) (asm : List Listing.Func) (fs : List Func) :
    List ((String × Nat) × Handout) :=
  fs.flatMap fun f => (handedTo skips asm f).map fun h => (sought f, h)

/-- No line of any assembly function is handed out twice. -/
def ConsumesOnce (skips : List String) (asm : List Listing.Func) (fs : List Func) : Prop :=
  ((spent skips asm fs).map fun s => (s.1, s.2.line)).Nodup

/-- A function in line layout can be handed a line: one of its blocks records it, or has it in its
range or in the tightest range around that. -/
def Reaches (skips : List String) (f : Func) (n : Nat) : Prop :=
  f.layout = .line ∧ ((∃ b ∈ marked skips f, claims b n = true) ∨
    ∃ b ∈ marked skips f, b.skip = false ∧ b.firstRecorded?.isSome = true ∧
      ∃ i, b.range? = some i ∧ (i.includes n = true ∨
        ∃ outer, Tightest (marked skips f) i outer ∧ outer.includes n = true))

/-- No two functions that are paired with one assembly function can be handed the same line. -/
def Apart (skips : List String) (fs : List Func) : Prop :=
  fs.Pairwise fun f g => sought f = sought g → ∀ n, ¬ (Reaches skips f n ∧ Reaches skips g n)

/-- The cycles on all entries of all blocks. -/
def lineCycles (fs : List Func) : Nat :=
  (fs.map fun f => (f.blocks.map fun b => b.lines.total.cycles).sum).sum

/-- The cycles on all lines of the assembly. -/
def asmCycles (asm : List Listing.Func) : Nat := (asm.map fun a => a.lines.total.cycles).sum

theorem mem_handedTo_iff {skips : List String} {asm : List Listing.Func} {f : Func} {h : Handout} :
    h ∈ handedTo skips asm f ↔
      f.layout = .line ∧ ∃ a, partner? asm f = some a ∧ h ∈ handouts a (marked skips f) := by
  rw [handedTo]
  cases f.layout <;> cases partner? asm f <;> simp

theorem reaches_of_mem {skips : List String} {asm : List Listing.Func} {f : Func} {h : Handout}
    (hh : h ∈ handedTo skips asm f) : Reaches skips f h.line := by
  obtain ⟨hl, a, _, hm⟩ := mem_handedTo_iff.1 hh
  refine ⟨hl, ?_⟩
  rcases mem_handouts_iff.1 hm with hd | hr
  · obtain ⟨_, _, i, _, hi⟩ := mem_directHandouts_iff.1 hd
    exact .inl (exists_firstRecorder_iff.1 ⟨i, hi⟩)
  · obtain ⟨⟨⟨c, hc, hs⟩, _⟩, b, i, hb, hfirst, hi, hj⟩ := ranged_of_mem hr
    have hbc : b = c := Option.some.inj (hb.symm.trans hc)
    subst hbc
    exact .inr ⟨b, List.mem_of_getElem? hb, hs, by simp [hfirst], i, hi, hj⟩

/-- Where nothing else carries cycles, a line that can be reached is handed out. -/
theorem exists_handout_of_reaches {skips : List String} {f : Func} {a : Listing.Func} {n : Nat}
    {u : Tally} (ha : ∀ m t, a.lines.get? m = some t ↔ m = n ∧ t = u) (hu : u.cycles ≠ 0)
    (hr : Reaches skips f n) : ∃ h ∈ handouts a (marked skips f), h.line = n := by
  obtain ⟨_, hr⟩ := hr
  have hget : a.lines.get? n = some u := (ha n u).2 ⟨rfl, rfl⟩
  by_cases hc : ∃ b ∈ marked skips f, claims b n = true
  · obtain ⟨i, hi⟩ := exists_firstRecorder_iff.2 hc
    have hexact := mergeLines_exactlyAttributed a (marked skips f)
    exact ⟨_, hexact.direct n u i hget hu hi, rfl⟩
  · obtain ⟨b, hb, hskip, hfirst, i, hi, hin⟩ := hr.resolve_left hc
    obtain ⟨k, hk⟩ := List.mem_iff_getElem?.1 hb
    have hstarved : Starved a.lines (marked skips f) k := by
      refine ⟨⟨b, hk, hskip⟩, ?_⟩
      intro m t hm _ hrec
      obtain ⟨rfl, _⟩ := (ha m t).1 hm
      exact hc (exists_firstRecorder_iff.1 ⟨k, hrec⟩)
    rcases hin with hin | ⟨outer, houter, hin⟩
    · exact exists_of_range hk hstarved hi hfirst hget hu hin
    · obtain ⟨h, hh, _⟩ := exists_of_tightest hk hstarved hi hfirst hget hu houter hin
      exact ⟨h, hh, ((ha _ _).1 (whole_of_mem hh).2.1).1⟩

theorem nodup_handedTo (skips : List String) (asm : List Listing.Func) (f : Func) :
    ((handedTo skips asm f).map Handout.line).Nodup := by
  rw [handedTo]
  split
  · exact nodup_handouts _ _
  · exact List.nodup_nil

/-- In one run a line goes out twice exactly where two functions are handed the same line. -/
theorem consumesOnce_iff_pairwise {skips : List String} {asm : List Listing.Func}
    {fs : List Func} :
    ConsumesOnce skips asm fs ↔ fs.Pairwise fun f g => sought f = sought g →
      ∀ h ∈ handedTo skips asm f, ∀ k ∈ handedTo skips asm g, h.line ≠ k.line := by
  have hone : ∀ f ∈ fs, (((handedTo skips asm f).map fun h => (sought f, h)).map
      fun s => (s.1, s.2.line)).Nodup := by
    intro f _
    apply List.Nodup.of_map Prod.snd
    rw [List.map_map, List.map_map]
    exact nodup_handedTo skips asm f
  rw [ConsumesOnce, spent, List.map_flatMap, List.nodup_flatMap]
  rw [and_iff_right hone]
  apply List.pairwise_iff_forall_sublist.trans (Iff.trans _ List.pairwise_iff_forall_sublist.symm)
  constructor
  · intro hd f g hfg hkey h hh k hk hline
    apply hd hfg (List.mem_map_of_mem (List.mem_map_of_mem hh))
    rw [hkey, hline]
    exact List.mem_map_of_mem (f := fun s : (String × Nat) × Handout => (s.1, s.2.line))
      (List.mem_map_of_mem hk)
  · intro hp f g hfg x hx hy
    obtain ⟨_, hs, hx⟩ := List.mem_map.1 hx
    obtain ⟨h, hh, hs⟩ := List.mem_map.1 hs
    obtain ⟨_, ht, hy⟩ := List.mem_map.1 hy
    obtain ⟨k, hk, ht⟩ := List.mem_map.1 ht
    subst hs ht
    obtain ⟨hkey, hline⟩ := Prod.mk.inj (hx.trans hy.symm)
    exact hp hfg hkey h hh k hk hline

/-- The blocks of a function in line layout gain what it is handed. -/
theorem mergeOne_credited (skips : List String) (asm : List Listing.Func) {f : Func}
    (hl : f.layout = .line) :
    (mergeOne skips asm f).1.blocks =
      (marked skips f).mapIdx fun i b => credit (handedTo skips asm f) i b := by
  cases hp : partner? asm f with
  | none =>
    have hnone : ∀ i, ∀ x ∈ handedTo skips asm f, x.block ≠ i := by simp [handedTo, hp]
    have hid : (marked skips f).mapIdx (fun _ b => b) = marked skips f := by
      apply List.ext_getElem?
      intro i
      simp
    simp only [mergeOne_of_none hp, credit_of_ne (hnone _), hid]
  | some a =>
    have hh : handedTo skips asm f = handouts a (marked skips f) := by simp [handedTo, hl, hp]
    rw [mergeOne_of_line hp hl, hh]
    exact mergeLines_blocks a _

theorem cycles_sum (ts : List Tally) : (Tally.sum ts).cycles = (ts.map Tally.cycles).sum := by
  induction ts with
  | nil => rfl
  | cons t ts ih => simp only [Tally.sum_cons, Tally.cycles_add, ih, List.map_cons, List.sum_cons]

theorem lines_mergeBlock (asm : List Listing.Block) (b : Block) :
    (mergeBlock asm b).1.lines = b.lines := by
  rw [mergeBlock_eq]

theorem marked_lines (skips : List String) (f : Func) :
    (marked skips f).map (fun b => b.lines) = f.blocks.map fun b => b.lines := by
  simp only [marked, markSkipped, List.map_map]
  rfl

theorem total_mergeOne (skips : List String) (asm : List Listing.Func) (f : Func) :
    Tally.sum ((mergeOne skips asm f).1.blocks.map fun b => b.lines.total) =
      Tally.sum (f.blocks.map fun b => b.lines.total) +
        Tally.sum ((handedTo skips asm f).map Handout.tally) := by
  have hmarked : (marked skips f).map (fun b => b.lines.total) =
      f.blocks.map fun b => b.lines.total := by
    have h := congrArg (List.map LineMap.total) (marked_lines skips f)
    rw [List.map_map, List.map_map] at h
    exact h
  cases hp : partner? asm f with
  | none =>
    have hh : handedTo skips asm f = [] := by simp [handedTo, hp]
    rw [mergeOne_of_none hp, hh]
    simp only [hmarked, List.map_nil, Tally.sum_nil, Tally.add_zero]
  | some a =>
    cases hl : f.layout with
    | block =>
      have hh : handedTo skips asm f = [] := by simp [handedTo, hl]
      rw [mergeOne_of_block hp hl, hh]
      simp only [List.map_map, Function.comp_def, lines_mergeBlock, hmarked, List.map_nil,
        Tally.sum_nil, Tally.add_zero]
    | line =>
      have hh : handedTo skips asm f = handouts a (marked skips f) := by simp [handedTo, hl, hp]
      rw [mergeOne_of_line hp hl, hh, total_mergeLines, hmarked]

/-- A merge adds the cycles that it hands out, and no others. -/
theorem lineCycles_merge {skips : List String} {asm : List Listing.Func} {fs fs' : List Func}
    {report : Report} (hm : merge skips asm fs = .ok (fs', report)) :
    lineCycles fs' =
      lineCycles fs + ((spent skips asm fs).map fun s => s.2.tally.cycles).sum := by
  have hfs := (merge_eq_ok_iff.1 hm).2.1
  subst hfs
  clear hm
  induction fs with
  | nil => rfl
  | cons f rest ih =>
    have hf := congrArg Tally.cycles (total_mergeOne skips asm f)
    simp only [Tally.cycles_add, cycles_sum, List.map_map, Function.comp_def] at hf
    simp only [lineCycles, spent, List.map_map, List.map_cons, List.sum_cons, List.flatMap_cons,
      List.map_append, List.sum_append, Function.comp_def, hf] at ih ⊢
    omega

theorem sum_le_of_nodup_subset {α : Type} {l m : List α} (hn : l.Nodup) (hs : l ⊆ m)
    (f : α → Nat) : (l.map f).sum ≤ (m.map f).sum := by
  obtain ⟨k, hperm, hsub⟩ := hn.subperm hs
  calc
    (l.map f).sum = (k.map f).sum := (hperm.map f).sum_nat.symm
    _ ≤ (m.map f).sum := (hsub.map f).sum_le_sum fun _ _ => Nat.zero_le _

/-- All lines of the assembly with their tallies, each with the key of its function. -/
def asmLines (asm : List Listing.Func) : List ((String × Nat) × Nat × Tally) :=
  asm.flatMap fun a => a.lines.entries.map fun e => (key a, e)

theorem asmCycles_eq (asm : List Listing.Func) :
    asmCycles asm = ((asmLines asm).map fun x => x.2.2.cycles).sum := by
  induction asm with
  | nil => rfl
  | cons a rest ih =>
    have ha : a.lines.total.cycles = ((a.lines.entries.map fun e => (key a, e)).map
        fun x => x.2.2.cycles).sum := by
      rw [LineMap.total, cycles_sum, LineMap.tallies, List.map_map, List.map_map]
      rfl
    simp only [asmCycles, asmLines, List.map_cons, List.sum_cons, List.flatMap_cons,
      List.map_append, List.sum_append, ha] at ih ⊢
    omega

/-- What is handed out once is at most what there is. -/
theorem sum_spent_le {skips : List String} {asm : List Listing.Func} {fs : List Func}
    (hn : (asm.map key).Nodup) (h : ConsumesOnce skips asm fs) :
    ((spent skips asm fs).map fun s => s.2.tally.cycles).sum ≤ asmCycles asm := by
  let entry : (String × Nat) × Handout → (String × Nat) × Nat × Tally := fun s =>
    (s.1, s.2.line, s.2.tally)
  have hnodup : ((spent skips asm fs).map entry).Nodup := by
    apply List.Nodup.of_map fun x => (x.1, x.2.1)
    rw [List.map_map]
    exact h
  have hsub : (spent skips asm fs).map entry ⊆ asmLines asm := by
    intro x hx
    obtain ⟨s, hs, hx⟩ := List.mem_map.1 hx
    obtain ⟨f, _, hs⟩ := List.mem_flatMap.1 hs
    obtain ⟨h, hh, hs⟩ := List.mem_map.1 hs
    subst hs hx
    obtain ⟨_, a, ha, hm⟩ := mem_handedTo_iff.1 hh
    obtain ⟨ha, hk⟩ := (partner?_eq_some_iff hn).1 ha
    apply List.mem_flatMap.2 ⟨a, ha, _⟩
    apply List.mem_map.2 ⟨(h.line, h.tally), _, _⟩
    · exact LineMap.get?_eq_some_iff.1 (whole_of_mem hm).2.1
    · rw [hk]
      rfl
  have hle := sum_le_of_nodup_subset hnodup hsub fun x => x.2.2.cycles
  rw [List.map_map, ← asmCycles_eq] at hle
  exact hle

/-- An assembly function for a function of the outline, with cycles on one line only. -/
def lineOnly (f : Func) (n : Nat) : Listing.Func :=
  ⟨f.name, f.decl, [], LineMap.empty.insert n { Tally.zero with other := 1, cycles := 1 }⟩

theorem lineOnly_get?_iff {f : Func} {n m : Nat} {t : Tally} :
    (lineOnly f n).lines.get? m = some t ↔
      m = n ∧ t = { Tally.zero with other := 1, cycles := 1 } := by
  have hnone : LineMap.empty.get? m = none := rfl
  simp only [lineOnly, LineMap.insert, LineMap.get?_alter, hnone]
  split
  · rename_i hmn
    simp only [Option.some.injEq, hmn, true_and]
    exact eq_comm
  · rename_i hmn
    simp only [reduceCtorEq, hmn, false_and]

theorem merge_lineOnly (skips : List String) (f : Func) (n : Nat) (fs : List Func) :
    ∃ fs' report, merge skips [lineOnly f n] fs = .ok (fs', report) :=
  ⟨_, _, merge_eq_ok_iff.2 ⟨List.nodup_singleton _, rfl, rfl⟩⟩

theorem asmCycles_lineOnly (f : Func) (n : Nat) : asmCycles [lineOnly f n] = 1 := rfl

/-- A line that a function reaches is handed to it by the assembly that has only this line. -/
theorem exists_handedTo_lineOnly {skips : List String} {f g : Func} {n : Nat}
    (hkey : sought f = sought g) (hr : Reaches skips g n) :
    ∃ h ∈ handedTo skips [lineOnly f n] g, h.line = n := by
  have hn : ([lineOnly f n].map key).Nodup := List.nodup_singleton _
  have hp : partner? [lineOnly f n] g = some (lineOnly f n) :=
    (partner?_eq_some_iff hn).2 ⟨List.mem_singleton_self _, hkey⟩
  obtain ⟨h, hh, hn⟩ := exists_handout_of_reaches (fun _ _ => lineOnly_get?_iff) (by decide) hr
  exact ⟨h, mem_handedTo_iff.2 ⟨hr.1, _, hp, hh⟩, hn⟩

theorem consumesOnce_of_apart {skips : List String} {fs : List Func} (h : Apart skips fs)
    (asm : List Listing.Func) : ConsumesOnce skips asm fs := by
  apply consumesOnce_iff_pairwise.2
  apply h.imp
  intro f g hfg hkey x hx y hy hline
  apply hfg hkey x.line
  exact ⟨reaches_of_mem hx, hline ▸ reaches_of_mem hy⟩

/-- A function that is handed a line gains cycles. -/
theorem one_le_handedTo {skips : List String} {asm : List Listing.Func} {f : Func} {h : Handout}
    (hh : h ∈ handedTo skips asm f) :
    1 ≤ ((handedTo skips asm f).map fun h => h.tally.cycles).sum := by
  obtain ⟨_, _, _, hm⟩ := mem_handedTo_iff.1 hh
  have hc := (whole_of_mem hm).2.2
  have hle := List.le_sum_of_mem (List.mem_map_of_mem (f := fun h => h.tally.cycles) hh)
  omega

theorem two_le_spent {skips : List String} {asm : List Listing.Func} {fs : List Func}
    {f g : Func} (hfg : [f, g].Sublist fs) {h k : Handout} (hh : h ∈ handedTo skips asm f)
    (hk : k ∈ handedTo skips asm g) :
    2 ≤ ((spent skips asm fs).map fun s => s.2.tally.cycles).sum := by
  have hsub : (spent skips asm [f, g]).Sublist (spent skips asm fs) := hfg.flatMap _
  have hle := (hsub.map fun s => s.2.tally.cycles).sum_le_sum fun _ _ => Nat.zero_le _
  have hf := one_le_handedTo hh
  have hg := one_le_handedTo hk
  simp only [spent, List.flatMap_cons, List.flatMap_nil, List.append_nil, List.map_append,
    List.map_map, Function.comp_def, List.sum_append] at hle
  exact Nat.le_trans (Nat.add_le_add hf hg) hle

/-- Functions that are not apart share a line of an assembly that has no other. -/
theorem exists_shared_of_not_apart {skips : List String} {fs : List Func}
    (h : ¬ Apart skips fs) :
    ∃ f g n, [f, g].Sublist fs ∧ sought f = sought g ∧
      ∃ x ∈ handedTo skips [lineOnly f n] f, ∃ y ∈ handedTo skips [lineOnly f n] g,
        x.line = y.line := by
  simp only [Apart, List.pairwise_iff_forall_sublist, not_forall, not_not] at h
  obtain ⟨f, g, hfg, hkey, n, hf, hg⟩ := h
  obtain ⟨x, hx, hxn⟩ := exists_handedTo_lineOnly rfl hf
  obtain ⟨y, hy, hyn⟩ := exists_handedTo_lineOnly hkey hg
  exact ⟨f, g, n, hfg, hkey, x, hx, y, hy, hxn.trans hyn.symm⟩

theorem forall_consumesOnce_iff_apart (skips : List String) (fs : List Func) :
    (∀ asm fs' report, merge skips asm fs = .ok (fs', report) → ConsumesOnce skips asm fs) ↔
      Apart skips fs := by
  constructor
  · intro honce
    apply Classical.byContradiction
    intro hapart
    obtain ⟨f, g, n, hfg, hkey, x, hx, y, hy, hline⟩ := exists_shared_of_not_apart hapart
    obtain ⟨fs', report, hm⟩ := merge_lineOnly skips f n fs
    have hpair := consumesOnce_iff_pairwise.1 (honce _ _ _ hm)
    exact List.pairwise_iff_forall_sublist.1 hpair hfg hkey x hx y hy hline
  · intro hapart asm _ _ _
    exact consumesOnce_of_apart hapart asm

theorem forall_lineCycles_le_iff_apart (skips : List String) (fs : List Func) :
    (∀ asm fs' report, merge skips asm fs = .ok (fs', report) →
      lineCycles fs' ≤ lineCycles fs + asmCycles asm) ↔ Apart skips fs := by
  constructor
  · intro hcycles
    apply Classical.byContradiction
    intro hapart
    obtain ⟨f, g, n, hfg, _, x, hx, y, hy, _⟩ := exists_shared_of_not_apart hapart
    obtain ⟨fs', report, hm⟩ := merge_lineOnly skips f n fs
    have hle := hcycles _ _ _ hm
    have htwo := two_le_spent hfg hx hy
    rw [lineCycles_merge hm, asmCycles_lineOnly] at hle
    omega
  · intro hapart asm fs' report hm
    have hle := sum_spent_le (merge_eq_ok_iff.1 hm).1 (consumesOnce_of_apart hapart asm)
    rw [lineCycles_merge hm]
    omega

/-- Whether each line of the assembly goes out at most once is a matter of the outline alone: it does
so whatever the assembly, and no merge adds more cycles than the assembly has, exactly if no two
functions that seek one assembly function can reach the same line. Functions that occur twice in an
outline are not apart, and each gets all the costs. -/
theorem merge_consumesOnce_iff_apart (skips : List String) (fs : List Func) :
    (∀ asm fs' report, merge skips asm fs = .ok (fs', report) →
      (∀ (p : Nat) (f : Func), fs[p]? = some f → f.layout = .line → ∃ f', fs'[p]? = some f' ∧
        f'.blocks = (marked skips f).mapIdx fun i b => credit (handedTo skips asm f) i b) ∧
      (ConsumesOnce skips asm fs ↔ fs.Pairwise fun f g => sought f = sought g →
        ∀ h ∈ handedTo skips asm f, ∀ k ∈ handedTo skips asm g, h.line ≠ k.line)) ∧
    ((∀ asm fs' report, merge skips asm fs = .ok (fs', report) → ConsumesOnce skips asm fs) ↔
      Apart skips fs) ∧
    ((∀ asm fs' report, merge skips asm fs = .ok (fs', report) →
      lineCycles fs' ≤ lineCycles fs + asmCycles asm) ↔ Apart skips fs) := by
  refine ⟨?_, forall_consumesOnce_iff_apart skips fs, forall_lineCycles_le_iff_apart skips fs⟩
  intro asm fs' report hm
  refine ⟨?_, consumesOnce_iff_pairwise⟩
  intro p f hf hl
  obtain ⟨_, hfs, _⟩ := merge_eq_ok_iff.1 hm
  refine ⟨(mergeOne skips asm f).1, by rw [hfs, List.getElem?_map, hf, Option.map_some], ?_⟩
  exact mergeOne_credited skips asm hl

/-- A function that occurs twice gets the one cycle of its assembly twice. -/
example :
    let entry : Block := { Block.named "entry" with lines := .ofList [(10, .zero)] }
    let f : Func := ⟨"f", ⟨"a.c", 10⟩, .line, [entry]⟩
    let a : Listing.Func := ⟨"f", ⟨"a.c", 10⟩, [], .ofList [(10, ⟨0, 0, 0, 1, 0, 0, 1⟩)]⟩
    (merge [] [a] [f, f]).toOption.map (fun r => (Outline.total r.1).cycles) = some 2 := by
  decide +kernel

end LineCost.Attribution
