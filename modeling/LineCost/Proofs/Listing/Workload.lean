import LineCost.Proofs.Listing.Balanced
import LineCost.Proofs.Listing.Pass
import Mathlib.Data.List.MinMax

/-!
How much can be counted by a given line of a listing: a line counts at most one instruction, in one
block and on one row at most, at no more cycles than the dearest rule of the catalog has. So however
the instructions are spread over blocks, rows and functions, there are never more of them than lines
have been read, and their cycles are at most as many times those of the dearest rule.
-/

namespace LineCost

namespace Catalog

/-- The most cycles that a rule of the catalog has. -/
def dearest (c : Catalog) : Nat :=
  ((c.tables.flatMap Table.rules).map (·.cost.cycles)).foldr max 0

variable {c : Catalog} {table : Table} {d : Nat}

theorem cycles_le_dearest {r : CompiledRule} (ht : table ∈ c.tables) (hr : r ∈ table.rules) :
    r.cost.cycles ≤ c.dearest :=
  List.le_max_of_le (List.mem_map_of_mem (List.mem_flatMap.2 ⟨table, ht, hr⟩)) (Nat.le_refl _)

theorem dearest_le (h : ∀ table ∈ c.tables, ∀ r ∈ table.rules, r.cost.cycles ≤ d) :
    c.dearest ≤ d := by
  apply List.max_le_of_forall_le
  intro n hn
  obtain ⟨r, hr, rfl⟩ := List.mem_map.1 hn
  obtain ⟨table, ht, hr⟩ := List.mem_flatMap.1 hr
  exact h table ht r hr

theorem cycles_classify_le (ht : table ∈ c.tables) (mnemonic : String) :
    (table.classify mnemonic).cycles ≤ c.dearest := by
  rcases table.classify_eq_none_or mnemonic with hnone | ⟨r, hr, hcost⟩
  · rw [hnone]
    exact Nat.zero_le _
  · rw [hcost]
    exact cycles_le_dearest ht hr

end Catalog

namespace Tally

variable {d k : Nat} {t u : Tally} {ts us : List Tally}

/-- At most `k` instructions, and at most `d` cycles for each of them. -/
structure Within (d k : Nat) (t : Tally) : Prop where
  instructions_le : t.instructions ≤ k
  cycles_le : t.cycles ≤ t.instructions * d

/-- At most `k` instructions in all tallies together, and in each tally at most `d` cycles for each of
its instructions. -/
structure AllWithin (d k : Nat) (ts : List Tally) : Prop where
  instructions_le : (sum ts).instructions ≤ k
  cycles_le : ∀ t ∈ ts, t.cycles ≤ t.instructions * d

/-- One of the tallies, which may be a new one, is raised by `u`. -/
structure Raised (u : Tally) (ts us : List Tally) : Prop where
  sum_eq : sum us = sum ts + u
  of_mem : ∀ t ∈ us, t ∈ ts ∨ ∃ s, (s = zero ∨ s ∈ ts) ∧ t = s + u

theorem cycles_add_le (ht : t.cycles ≤ t.instructions * d) (hu : u.cycles ≤ u.instructions * d) :
    (t + u).cycles ≤ (t + u).instructions * d := by
  rw [cycles_add, instructions_add, Nat.add_mul]
  exact Nat.add_le_add ht hu

theorem within_zero (d k : Nat) : zero.Within d k := ⟨Nat.zero_le _, Nat.zero_le _⟩

theorem within_ofCost {c : Cost} (h : c.cycles ≤ d) : (ofCost c).Within d 1 := by
  cases hc : c.isCounted with
  | false =>
    rw [Listing.ofCost_of_not_counted hc]
    exact within_zero d 1
  | true =>
    refine ⟨Nat.le_of_eq (instructions_ofCost hc), ?_⟩
    rw [Listing.cycles_ofCost hc, instructions_ofCost hc, Nat.one_mul]
    exact h

theorem allWithin_nil (d k : Nat) : AllWithin d k [] := ⟨Nat.zero_le k, by simp⟩

/-- Leaving some of the tallies out leaves the rest within the bounds. -/
theorem AllWithin.sublist (h : AllWithin d k us) (hs : ts.Sublist us) : AllWithin d k ts where
  instructions_le := by
    refine Nat.le_trans ?_ h.instructions_le
    clear h
    induction hs with
    | slnil => exact Nat.le_refl _
    | cons t _ ih =>
      rw [sum_cons, instructions_add]
      omega
    | cons_cons t _ ih =>
      rw [sum_cons, sum_cons, instructions_add, instructions_add]
      omega
  cycles_le := fun t ht => h.cycles_le t (hs.subset ht)

theorem AllWithin.perm (h : AllWithin d k ts) (hp : ts.Perm us) : AllWithin d k us where
  instructions_le := by
    rw [← sum_perm hp]
    exact h.instructions_le
  cycles_le := fun t ht => h.cycles_le t (hp.mem_iff.2 ht)

theorem AllWithin.sum (h : AllWithin d k ts) : (sum ts).Within d k where
  instructions_le := h.instructions_le
  cycles_le := by
    have hcycles := h.cycles_le
    clear h
    induction ts with
    | nil => exact Nat.zero_le _
    | cons t ts ih =>
      obtain ⟨ht, hts⟩ := List.forall_mem_cons.1 hcycles
      exact cycles_add_le ht (ih hts)

theorem AllWithin.of_mem (h : AllWithin d k ts) (ht : t ∈ ts) : t.Within d k := by
  have hsingle := (h.sublist (List.singleton_sublist.2 ht)).sum
  rw [sum_cons, sum_nil, add_zero] at hsingle
  exact hsingle

theorem Raised.refl (ts : List Tally) : Raised zero ts ts :=
  ⟨(add_zero _).symm, fun _ => .inl⟩

theorem raised_cons (u : Tally) (ts : List Tally) : Raised u ts (u :: ts) where
  sum_eq := add_comm u _
  of_mem := by
    intro t ht
    rcases List.mem_cons.1 ht with rfl | ht
    · exact .inr ⟨zero, .inl rfl, (zero_add t).symm⟩
    · exact .inl ht

theorem raised_head (t u : Tally) (ts : List Tally) : Raised u (t :: ts) ((t + u) :: ts) where
  sum_eq := by
    rw [sum_cons, sum_cons, add_assoc, add_assoc, add_comm u]
  of_mem := by
    intro v hv
    rcases List.mem_cons.1 hv with rfl | hv
    · exact .inr ⟨t, .inr List.mem_cons_self, rfl⟩
    · exact .inl (List.mem_cons_of_mem _ hv)

theorem Raised.append (h : Raised u ts us) (rest : List Tally) :
    Raised u (ts ++ rest) (us ++ rest) where
  sum_eq := by
    rw [sum_append, sum_append, h.sum_eq, add_assoc, add_comm u, ← add_assoc]
  of_mem := by
    intro t ht
    rcases List.mem_append.1 ht with ht | ht
    · rcases h.of_mem t ht with ht | ⟨s, hs, rfl⟩
      · exact .inl (List.mem_append_left _ ht)
      · exact .inr ⟨s, hs.imp_right (List.mem_append_left _), rfl⟩
    · exact .inl (List.mem_append_right _ ht)

theorem Raised.reverse (h : Raised u ts us) : Raised u ts.reverse us.reverse where
  sum_eq := by
    rw [sum_perm us.reverse_perm, sum_perm ts.reverse_perm, h.sum_eq]
  of_mem := by
    simpa only [List.mem_reverse] using h.of_mem

/-- Raising a tally by an instruction raises the bound by one. -/
theorem AllWithin.raise (h : AllWithin d k ts) (hr : Raised u ts us) (hu : u.Within d 1) :
    AllWithin d (k + 1) us where
  instructions_le := by
    rw [hr.sum_eq, instructions_add]
    exact Nat.add_le_add h.instructions_le hu.instructions_le
  cycles_le := by
    intro t ht
    rcases hr.of_mem t ht with ht | ⟨s, rfl | hs, rfl⟩
    · exact h.cycles_le t ht
    · exact cycles_add_le (Nat.zero_le _) hu.cycles_le
    · exact cycles_add_le (h.cycles_le s hs) hu.cycles_le

end Tally

open Listing in
theorem LineMap.raised_addAt (m : LineMap) (n : Nat) (u : Tally) :
    Tally.Raised u m.tallies (m.addAt n u).tallies where
  sum_eq := m.total_addAt n u
  of_mem := by
    intro t ht
    obtain ⟨r, hr⟩ := mem_tallies_iff.1 ht
    rw [addAt, get?_alter] at hr
    split at hr
    · obtain rfl := Option.some.inj hr
      refine .inr ⟨(m.get? n).getD .zero, ?_, rfl⟩
      cases hn : m.get? n with
      | none => exact .inl rfl
      | some s => exact .inr (mem_tallies_iff.2 ⟨n, hn⟩)
    · exact .inl (mem_tallies_iff.2 ⟨r, hr⟩)

namespace Listing

variable {catalog : Catalog} {table : Table} {k n : Nat}

theorem within_costs (ht : table ∈ catalog.tables) (line : Line) :
    (costs table [line]).Within catalog.dearest 1 := by
  cases line with
  | instruction mnemonic =>
    rw [costs_singleton_instruction]
    exact Tally.within_ofCost (Catalog.cycles_classify_le ht mnemonic)
  | _ => exact Tally.within_zero _ 1

theorem raised_grow (table : Table) (line : Line) (as : List Account) :
    Tally.Raised (costs table [line]) (as.map fun a => a.2.2)
      ((grow table [line] as).map fun a => a.2.2) := by
  cases as with
  | cons a before => exact Tally.raised_head a.2.2 _ _
  | nil =>
    rw [grow]
    split
    · exact Tally.raised_cons _ []
    · rename_i h
      rw [costs_of_no_instruction table (Bool.eq_false_iff.2 h)]
      exact .refl []

namespace Trace

/-- The tallies of the blocks that stand so far, last first. -/
def blockTallies (t : Trace) : List Tally := t.blocks.map Block.tally

theorem blockTallies_eq (t : Trace) : t.blockTallies = t.accounts.map fun a => a.2.2 := by
  rw [blockTallies, accounts, List.map_map]
  rfl

/-- A line raises the tally of the block that it stands in by what it costs. -/
theorem raised_blockTallies (table : Table) (t : Trace) (line : Line) :
    Tally.Raised (costs table [line]) t.blockTallies (step table t line).blockTallies := by
  rw [blockTallies_eq, blockTallies_eq]
  by_cases hlabel : ∃ id name, line = .label id name
  · obtain ⟨id, name, rfl⟩ := hlabel
    rw [costs_singleton_of_not_instruction table rfl, step, accounts_label, List.map_cons]
    exact Tally.raised_cons .zero _
  · rw [accounts_step table t fun id name he => hlabel ⟨id, name, he⟩]
    exact raised_grow table line t.accounts

/-- A line raises the tally of the current row by what it costs, unless there is no such row. -/
theorem raised_lines (table : Table) (t : Trace) (line : Line) :
    ∃ u, (u = .zero ∨ u = costs table [line]) ∧
      Tally.Raised u t.lines.tallies (step table t line).lines.tallies := by
  cases line with
  | loc file n =>
    rw [step, lines_locate]
    exact ⟨.zero, .inl rfl, .refl _⟩
  | instruction mnemonic =>
    obtain ⟨_, _, hlines⟩ := t.count_fields (table.classify mnemonic)
    rw [step, hlines, costs_singleton_instruction]
    cases t.row with
    | none => exact ⟨.zero, .inl rfl, .refl _⟩
    | some n =>
      cases hc : (table.classify mnemonic).isCounted with
      | false => exact ⟨.zero, .inl rfl, .refl _⟩
      | true => exact ⟨_, .inr rfl, t.lines.raised_addAt n _⟩
  | _ => exact ⟨.zero, .inl rfl, .refl _⟩

theorem tallies_closedBlocks (t : Trace) :
    t.closedBlocks.map Block.tally = t.blockTallies.reverse := by
  have h := congrArg (List.map fun a => a.2.2) t.accounts_closedBlocks
  rw [List.map_map, List.map_reverse, ← blockTallies_eq] at h
  exact h

end Trace

/-- Tallies of functions of which there are none at the beginning, and which a line raises by what
it costs if it raises them at all. -/
structure Booked (tallies : Func → List Tally) : Prop where
  start : ∀ name table, tallies (OpenFunc.start name table).close = []
  step : ∀ (f : OpenFunc) line, ∃ u, (u = .zero ∨ u = costs f.table [line]) ∧
    Tally.Raised u (tallies f.close) (tallies (f.step line).close)

theorem booked_blocks : Booked fun f => f.blocks.map Block.tally where
  start := fun _ _ => rfl
  step := by
    intro f line
    refine ⟨_, .inr rfl, ?_⟩
    simp only [OpenFunc.close, Trace.tallies_closedBlocks]
    exact (f.trace.raised_blockTallies f.table line).reverse

theorem booked_lines : Booked fun f => f.lines.tallies where
  start := fun _ _ => rfl
  step := fun f line => f.trace.raised_lines f.table line

namespace Pass

/-- The functions that a pass has found, the open one as if it ended here. The last stands first. -/
def soFar (p : Pass) : List Func := (p.open?.map OpenFunc.close).toList ++ p.done

/-- The tables that a pass counts with are those of the catalog. -/
structure Listed (catalog : Catalog) (p : Pass) : Prop where
  table_mem : ∀ t, p.table = some t → t ∈ catalog.tables
  open_mem : ∀ f, p.open? = some f → f.table ∈ catalog.tables

variable {p q : Pass} {tallies : Func → List Tally} {line : Line}

theorem Listed.getD_mem (h : p.Listed catalog) (ht : table ∈ catalog.tables) :
    p.table.getD table ∈ catalog.tables := by
  cases hp : p.table with
  | none => exact ht
  | some t => exact h.table_mem t hp

theorem Listed.settle (h : p.Listed catalog) (ht : table ∈ catalog.tables) :
    (p.settle table).Listed catalog where
  table_mem := by
    intro t hset
    exact Option.some.inj hset ▸ h.getD_mem ht
  open_mem := h.open_mem

theorem Listed.begin (h : p.Listed catalog) (name : String) :
    (p.begin catalog name).Listed catalog where
  table_mem := (h.settle catalog.default_mem).table_mem
  open_mem := by
    intro f hf
    exact Option.some.inj hf ▸ h.getD_mem catalog.default_mem

theorem Listed.close (h : p.Listed catalog) : p.close.Listed catalog where
  table_mem := by
    rw [Pass.close]
    split <;> exact h.table_mem
  open_mem := by
    intro f hf
    rw [Pass.close] at hf
    split at hf
    · exact h.open_mem f hf
    · cases hf

theorem Listed.take (h : p.Listed catalog) (line : Line) : (p.take line).Listed catalog where
  table_mem := h.table_mem
  open_mem := by
    intro f hf
    obtain ⟨g, hg, rfl⟩ := Option.map_eq_some_iff.1 hf
    exact h.open_mem g hg

theorem Listed.step (h : p.Listed catalog) (hq : p.step catalog n line = .ok q) :
    q.Listed catalog := by
  cases line with
  | cpu name => exact Except.ok.inj hq ▸ h.settle (select_mem catalog name)
  | opening name =>
    rw [Pass.step] at hq
    split at hq
    · cases hq
    · exact Except.ok.inj hq ▸ h.begin name
  | closing => exact Except.ok.inj hq ▸ h.close
  | _ => exact Except.ok.inj hq ▸ h.take _

theorem listed_start (catalog : Catalog) (cpu : Option String) :
    (start catalog cpu).Listed catalog where
  table_mem := by
    intro t ht
    obtain ⟨name, -, rfl⟩ := Option.map_eq_some_iff.1 ht
    exact select_mem catalog name
  open_mem := by
    intro f hf
    cases hf

theorem soFar_close (p : Pass) : p.close.soFar = p.soFar := by
  rw [close]
  split
  · rfl
  · rename_i f hf
    rw [soFar, soFar, hf]
    rfl

/-- What a pass finds in the end is what it has found so far. -/
theorem soFar_of_finish {fs : List Func} (h : p.finish = .ok fs) : p.soFar = fs.reverse := by
  rw [finish] at h
  rw [soFar]
  cases hf : p.open? with
  | none =>
    rw [hf] at h
    rw [← Except.ok.inj h, List.reverse_reverse]
    rfl
  | some f =>
    rw [hf] at h
    cases h

theorem raised_take (hb : Booked tallies) (hp : p.Listed catalog) (line : Line) :
    ∃ u, u.Within catalog.dearest 1 ∧
      Tally.Raised u (p.soFar.flatMap tallies) ((p.take line).soFar.flatMap tallies) := by
  rw [soFar, soFar, take]
  cases hf : p.open? with
  | none => exact ⟨.zero, Tally.within_zero _ 1, .refl _⟩
  | some f =>
    obtain ⟨u, hu, hraised⟩ := hb.step f line
    have hwithin : u.Within catalog.dearest 1 := by
      rcases hu with rfl | rfl
      · exact Tally.within_zero _ 1
      · exact within_costs (hp.open_mem f hf) line
    refine ⟨u, hwithin, ?_⟩
    simp only [Option.map_some, Option.toList_some, List.cons_append, List.nil_append,
      List.flatMap_cons]
    exact hraised.append _

/-- A line raises what has been counted so far by an instruction at most. -/
theorem raised_step (hb : Booked tallies) (hp : p.Listed catalog)
    (hq : p.step catalog n line = .ok q) :
    ∃ u, u.Within catalog.dearest 1 ∧
      Tally.Raised u (p.soFar.flatMap tallies) (q.soFar.flatMap tallies) := by
  have hidle : ∀ ts, ∃ u, u.Within catalog.dearest 1 ∧ Tally.Raised u ts ts :=
    fun ts => ⟨.zero, Tally.within_zero _ 1, .refl ts⟩
  cases line with
  | cpu name =>
    obtain rfl := Except.ok.inj hq
    exact hidle _
  | opening name =>
    rw [step] at hq
    split at hq
    · cases hq
    · rename_i hnone
      obtain rfl := Except.ok.inj hq
      have hopen : p.open? = none := by simpa using hnone
      have hsame : (p.begin catalog name).soFar.flatMap tallies = p.soFar.flatMap tallies := by
        rw [soFar, soFar, hopen]
        simp only [begin, settle, Option.map_some, Option.toList_some, Option.map_none,
          Option.toList_none, List.cons_append, List.nil_append, List.flatMap_cons, hb.start]
      rw [hsame]
      exact hidle _
  | closing =>
    obtain rfl := Except.ok.inj hq
    rw [soFar_close]
    exact hidle _
  | _ =>
    obtain rfl := Except.ok.inj hq
    exact raised_take hb hp _

/-- What a pass has counted after `k` lines: at most `k` instructions in blocks, and at most `k` on
rows. Its tables are those of the catalog, so that no instruction is dearer than the dearest rule. -/
structure Bounded (catalog : Catalog) (k : Nat) (p : Pass) : Prop where
  listed : p.Listed catalog
  blocks : Tally.AllWithin catalog.dearest k (p.soFar.flatMap fun f => f.blocks.map Block.tally)
  lines : Tally.AllWithin catalog.dearest k (p.soFar.flatMap fun f => f.lines.tallies)

theorem bounded_start (catalog : Catalog) (cpu : Option String) :
    (start catalog cpu).Bounded catalog 0 :=
  ⟨listed_start catalog cpu, Tally.allWithin_nil _ 0, Tally.allWithin_nil _ 0⟩

theorem Bounded.step (h : p.Bounded catalog k) (hq : p.step catalog n line = .ok q) :
    q.Bounded catalog (k + 1) := by
  obtain ⟨u, hu, hblocks⟩ := raised_step booked_blocks h.listed hq
  obtain ⟨v, hv, hlines⟩ := raised_step booked_lines h.listed hq
  exact ⟨h.listed.step hq, h.blocks.raise hblocks hu, h.lines.raise hlines hv⟩

theorem Bounded.run {ls : List (Nat × Line)} (h : p.Bounded catalog k)
    (hq : p.run catalog ls = .ok q) : q.Bounded catalog (k + ls.length) := by
  induction ls generalizing p k with
  | nil => exact Except.ok.inj hq ▸ h
  | cons l ls ih =>
    rw [Pass.run] at hq
    split at hq
    · rename_i hstep
      rw [List.length_cons, Nat.add_comm ls.length, ← Nat.add_assoc]
      exact ih (h.step hstep) hq
    · cases hq

theorem bounded_of_run {cpu : Option String} {ls : List Line}
    (h : (start catalog cpu).run catalog (Text.numbered ls) = .ok p) :
    p.Bounded catalog ls.length := by
  have hrun := (bounded_start catalog cpu).run h
  rwa [Nat.zero_add, Text.length_numbered] at hrun

end Pass

end Listing

end LineCost
