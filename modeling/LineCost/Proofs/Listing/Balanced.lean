import LineCost.Proofs.Listing.Mnemonics
import LineCost.Proofs.Listing.OneTable
import LineCost.Proofs.Listing.Priced

/-!
Tallies that have cycles exactly if they have instructions. Tallies are taken for empty by their
cycles alone, so that those which are not of this kind get lost with all that they count. The
tallies of a listing are of this kind unless all their instructions are free; and a listing with
such tallies can be written exactly if some table of the catalog counts a mnemonic for free.
-/

namespace LineCost

namespace Tally

/-- There are no cycles exactly if there are no instructions of any category. -/
def Balanced (t : Tally) : Prop := t.cycles = 0 ↔ t.instructions = 0

theorem instructions_ofCost {c : Cost} (h : c.isCounted = true) : (ofCost c).instructions = 1 := by
  obtain ⟨category, cycles⟩ := c
  cases category with
  | ignore => cases h
  | _ => rfl

theorem instructions_sum_ofCost {cs : List Cost} (h : ∀ c ∈ cs, c.isCounted = true) :
    (sum (cs.map ofCost)).instructions = cs.length := by
  induction cs with
  | nil => rfl
  | cons c cs ih =>
    obtain ⟨hc, hcs⟩ := List.forall_mem_cons.1 h
    rw [List.map_cons, sum_cons, instructions_add, instructions_ofCost hc, ih hcs, List.length_cons,
      Nat.add_comm]

theorem cycles_sum_ofCost {cs : List Cost} (h : ∀ c ∈ cs, c.isCounted = true) :
    (sum (cs.map ofCost)).cycles = (cs.map Cost.cycles).sum := by
  induction cs with
  | nil => rfl
  | cons c cs ih =>
    obtain ⟨hc, hcs⟩ := List.forall_mem_cons.1 h
    rw [List.map_cons, sum_cons, cycles_add, Listing.cycles_ofCost hc, ih hcs, List.map_cons,
      List.sum_cons]

theorem take?_eq_none_iff {t : Tally} : t.take? = none ↔ t.cycles = 0 := by
  rw [take?, isEmpty]
  split
  · rename_i h
    simpa using h
  · rename_i h
    simpa using h

end Tally

namespace Listing

/-- The tally is what instructions of the listing cost together. -/
structure Gathered (table : Table) (ls : List Line) (cs : List Cost) (t : Tally) : Prop where
  counted : ∀ c ∈ cs, CountedAmong table ls c
  sum : t = Tally.sum (cs.map Tally.ofCost)
  instructions : t.instructions = cs.length
  cycles : t.cycles = (cs.map Cost.cycles).sum
  /-- Instructions have cycles together unless all of them are free. -/
  balanced : t.Balanced ↔ cs = [] ∨ ∃ c ∈ cs, c.cycles ≠ 0
  /-- What is not balanced can not be taken, although there are instructions in it. -/
  lost : ¬ t.Balanced ↔ t.take? = none ∧ t.instructions ≠ 0

theorem gathered {table : Table} {ls : List Line} {cs : List Cost}
    (h : ∀ c ∈ cs, CountedAmong table ls c) :
    Gathered table ls cs (Tally.sum (cs.map Tally.ofCost)) := by
  have hcounted : ∀ c ∈ cs, c.isCounted = true := by
    intro c hc
    obtain ⟨_, _, _, hcounted⟩ := h c hc
    exact hcounted
  have hinstructions := Tally.instructions_sum_ofCost hcounted
  have hcycles := Tally.cycles_sum_ofCost hcounted
  have hfree : (Tally.sum (cs.map Tally.ofCost)).cycles = 0 ↔ ∀ c ∈ cs, c.cycles = 0 := by
    rw [Tally.cycles_sum_eq_zero_iff, List.forall_mem_map]
    exact forall₂_congr fun c hc => by rw [cycles_ofCost (hcounted c hc)]
  have hnone : (Tally.sum (cs.map Tally.ofCost)).instructions = 0 ↔ cs = [] := by
    rw [hinstructions, List.length_eq_zero_iff]
  have hpaid : (∃ c ∈ cs, c.cycles ≠ 0) ↔ ¬ ∀ c ∈ cs, c.cycles = 0 := by simp
  have hnil : cs = [] → ∀ c ∈ cs, c.cycles = 0 := by
    rintro rfl
    simp
  refine ⟨h, rfl, hinstructions, hcycles, ?_, ?_⟩
  · rw [Tally.Balanced, hfree, hnone, hpaid]
    by_cases hempty : cs = []
    · simp [hempty]
    · simp [hempty]
  · rw [Tally.take?_eq_none_iff, Tally.Balanced, ne_eq, hfree, hnone]
    by_cases hempty : cs = []
    · simp [hempty]
    · simp [hempty]

def Func.tallies (f : Func) : List Tally := f.blocks.map Block.tally ++ f.lines.tallies

end Listing

/-- Nothing that a listing can name is counted for free. -/
def Table.ChargesListed (t : Table) : Prop :=
  ∀ mnemonic, Listing.Listable mnemonic → (t.classify mnemonic).isCounted = true →
    (t.classify mnemonic).cycles ≠ 0

theorem Table.Priced.chargesListed {t : Table} (h : t.Priced) : t.ChargesListed :=
  fun _ _ hcounted => Nat.ne_of_gt (h.cycles_classify_pos hcounted)

namespace Listing

variable {catalog : Catalog} {cpu : Option String} {text : String} {fs : List Func} {table : Table}

theorem gathered_costs {ls part : List Line} (h : ∀ l ∈ part, l ∈ ls) :
    Gathered table ls (part.filterMap (countedCost? table)) (costs table part) := by
  refine gathered fun c hc => ?_
  obtain ⟨line, hl, hline⟩ := List.mem_filterMap.1 hc
  exact countedAmong_of_countedCost? (h line hl) hline

theorem mem_tallies_iff {m : LineMap} {t : Tally} : t ∈ m.tallies ↔ ∃ r, m.get? r = some t := by
  simp only [LineMap.tallies, List.mem_map, Prod.exists, LineMap.get?_eq_some_iff]
  constructor
  · intro h
    obtain ⟨r, t, hmem, rfl⟩ := h
    exact ⟨r, hmem⟩
  · intro h
    obtain ⟨r, hmem⟩ := h
    exact ⟨r, t, hmem, rfl⟩

theorem ExactlyCosted.exists_gathered {ls : List Line} {f : Func} (h : ExactlyCosted table ls f)
    {t : Tally} (ht : t ∈ f.tallies) : ∃ cs, Gathered table ls cs t := by
  rcases List.mem_append.1 ht with ht | ht
  · obtain ⟨b, hb, rfl⟩ := List.mem_map.1 ht
    have haccount : b.account ∈ accounts table ls := h.blocks ▸ List.mem_map_of_mem hb
    obtain ⟨part, hpart, hcosts⟩ := exists_of_mem_accounts haccount
    exact ⟨_, hcosts ▸ gathered_costs hpart⟩
  · obtain ⟨r, hr⟩ := mem_tallies_iff.1 ht
    rw [h.lines r] at hr
    split at hr
    · cases hr
    · obtain rfl := Option.some.inj hr
      exact ⟨_, gathered fun c => countedAmong_of_mem_costsAt⟩

theorem Gathered.mono {ls ls' : List Line} {cs : List Cost} {t : Tally}
    (h : Gathered table ls cs t) (hls : ∀ l ∈ ls, l ∈ ls') : Gathered table ls' cs t :=
  { h with counted := fun c hc => (h.counted c hc).mono hls }

theorem exists_gathered_of_read (h : read catalog cpu text = .ok fs) :
    ∀ f ∈ fs, ∀ t ∈ f.tallies,
      ∃ cs, Gathered (tableFor catalog cpu (readLines text)) (readLines text) cs t := by
  obtain ⟨parts, hparts, rfl⟩ := read_eq_ok h
  intro f hf t ht
  obtain ⟨part, hpart, rfl⟩ := List.mem_map.1 hf
  obtain ⟨cs, hcs⟩ := (exactlyCosted_of_bracketed hparts hpart _).exists_gathered ht
  exact ⟨cs, hcs.mono fun l => mem_of_bracketed hparts hpart⟩

/-- With a table that counts nothing for free, what a listing tells is balanced. -/
theorem Gathered.balanced_of_chargesListed {cs : List Cost} {t : Tally}
    (h : Gathered table (readLines text) cs t) (ht : table.ChargesListed) : t.Balanced := by
  rw [h.balanced]
  cases cs with
  | nil => exact .inl rfl
  | cons c cs =>
    obtain ⟨mnemonic, hm, rfl, hcounted⟩ := h.counted c List.mem_cons_self
    exact .inr ⟨_, List.mem_cons_self, ht mnemonic (listable_iff.2 ⟨text, hm⟩) hcounted⟩

/-- The lines of a listing of one function with one instruction. -/
def soleLines (mnemonic : String) : List (List Char) :=
  ["// -- Begin function f".toList, "\t.loc\t1 3 0 // a:3:0".toList, '\t' :: mnemonic.toList,
    "// -- End function".toList]

def soleText (mnemonic : String) : String :=
  String.ofList ((soleLines mnemonic).flatMap fun l => l ++ ['\n'])

def soleSection (mnemonic : String) : Section := ⟨"f", [.loc "a" 3, .instruction mnemonic]⟩

theorem plain_of_mem_soleLines {mnemonic : String} (h : Listable mnemonic) :
    ∀ l ∈ soleLines mnemonic, Text.Plain l := by
  have hopening : Text.Plain "// -- Begin function f".toList := by
    unfold Text.Plain
    decide +kernel
  have hloc : Text.Plain "\t.loc\t1 3 0 // a:3:0".toList := by
    unfold Text.Plain
    decide +kernel
  have hclosing : Text.Plain "// -- End function".toList := by
    unfold Text.Plain
    decide +kernel
  rw [soleLines, List.forall_mem_cons, List.forall_mem_cons, List.forall_mem_cons,
    List.forall_mem_cons]
  exact ⟨hopening, hloc, Line.plain_tabbed h, hclosing, nofun⟩

theorem map_read_soleLines {mnemonic : String} (h : Listable mnemonic) :
    (soleLines mnemonic).map Line.read =
      [.opening "f", .loc "a" 3, .instruction mnemonic, .closing] := by
  have hopening : Line.read "// -- Begin function f".toList = .opening "f" := by decide +kernel
  have hloc : Line.read "\t.loc\t1 3 0 // a:3:0".toList = .loc "a" 3 := by decide +kernel
  have hclosing : Line.read "// -- End function".toList = .closing := by decide +kernel
  rw [soleLines, List.map_cons, List.map_cons, List.map_cons, List.map_cons, hopening, hloc,
    hclosing, Line.read_tabbed h, String.ofList_toList, List.map_nil]

theorem readLines_soleText {mnemonic : String} (h : Listable mnemonic) :
    readLines (soleText mnemonic) =
      [.opening "f", .loc "a" 3, .instruction mnemonic, .closing] := by
  rw [readLines, soleText, String.toList_ofList, Text.lines_flatMap (plain_of_mem_soleLines h),
    map_read_soleLines h]

theorem read_soleText {mnemonic : String} (h : Listable mnemonic) (ht : table ∈ catalog.tables) :
    read catalog (some table.name) (soleText mnemonic) =
      .ok [(soleSection mnemonic).func table] := by
  have hsections : sections (readLines (soleText mnemonic)) = .ok [soleSection mnemonic] := by
    have hinner : ∀ l ∈ [Line.loc "a" 3, .instruction mnemonic], Inner l := by simp [Inner]
    rw [sections_eq_ok_iff, readLines_soleText h]
    exact .func hinner .nil
  have htable : tableFor catalog (some table.name) (readLines (soleText mnemonic)) = table :=
    select_name ht
  rw [read_eq, hsections, htable]
  rfl

/-- The instruction is counted in the block that is made for it, and on the row before it. -/
theorem tallies_sole {mnemonic : String} (h : (table.classify mnemonic).isCounted = true) :
    (∃ b ∈ ((soleSection mnemonic).func table).blocks,
      b.tally = Tally.ofCost (table.classify mnemonic)) ∧
    Tally.ofCost (table.classify mnemonic) ∈ ((soleSection mnemonic).func table).lines.tallies := by
  have hcosted : ExactlyCosted table (soleSection mnemonic).lines
      ((soleSection mnemonic).func table) :=
    Section.exactlyCosted table (by simp [soleSection])
  constructor
  · have haccounts : accounts table (soleSection mnemonic).lines =
        [(none, "entry", Tally.ofCost (table.classify mnemonic))] := by
      have hcosts : costs table (soleSection mnemonic).lines =
          Tally.ofCost (table.classify mnemonic) := by
        rw [soleSection, costs_cons, costs_singleton_of_not_instruction table rfl, Tally.zero_add,
          costs_singleton_instruction]
      rw [← hcosts]
      rfl
    have hmem : ((none, "entry", Tally.ofCost (table.classify mnemonic)) : Account) ∈
        ((soleSection mnemonic).func table).blocks.map Block.account := by
      rw [hcosted.blocks, haccounts]
      exact List.mem_cons_self
    obtain ⟨b, hb, haccount⟩ := List.mem_map.1 hmem
    exact ⟨b, hb, (Prod.mk.inj (Prod.mk.inj haccount).2).2⟩
  · have hcosts : costsAt table (soleSection mnemonic).lines 3 = [table.classify mnemonic] := by
      simp [costsAt, located, rowBefore, ownFile?, firstLocation?, Line.rowIn?, Line.location?,
        countedCost?, soleSection, h]
    refine mem_tallies_iff.2 ⟨3, ?_⟩
    rw [hcosted.lines 3, hcosts]
    simp

/-- A table charges for all that a listing can name if single instructions are balanced. -/
theorem chargesListed_of_balanced
    (h : ∀ mnemonic, Listable mnemonic → (table.classify mnemonic).isCounted = true →
      (Tally.ofCost (table.classify mnemonic)).Balanced) : table.ChargesListed := by
  intro mnemonic hm hcounted hfree
  have hbalanced := h mnemonic hm hcounted
  rw [Tally.Balanced, cycles_ofCost hcounted, Tally.instructions_ofCost hcounted] at hbalanced
  exact Nat.one_ne_zero (hbalanced.1 hfree)

/-- Whatever is read with the catalog, the tallies that `tallies` picks out of it are balanced. -/
def ReadsBalanced (catalog : Catalog) (tallies : Func → List Tally) : Prop :=
  ∀ cpu text fs, read catalog cpu text = .ok fs → ∀ f ∈ fs, ∀ t ∈ tallies f, t.Balanced

theorem readsBalanced_of_chargesListed (h : ∀ table ∈ catalog.tables, table.ChargesListed) :
    ReadsBalanced catalog Func.tallies := by
  intro cpu text fs hread f hf t ht
  obtain ⟨cs, hcs⟩ := exists_gathered_of_read hread f hf t ht
  exact hcs.balanced_of_chargesListed (h _ (tableFor_mem catalog cpu _))

/-- The tallies of blocks and of rows are what instructions of the listing cost together; they have
cycles exactly if they have instructions, unless all of these are free. So the tallies of blocks are
balanced in all listings exactly if no table of the catalog counts for free what a listing can name,
and the same goes for the tallies of rows. The built-in tables count nothing for free. -/
theorem read_balanced (catalog : Catalog) :
    (∀ cpu text fs, read catalog cpu text = .ok fs → ∀ f ∈ fs, ∀ t ∈ f.tallies,
      ∃ cs, Gathered (tableFor catalog cpu (readLines text)) (readLines text) cs t) ∧
    (ReadsBalanced catalog (fun f => f.blocks.map Block.tally) ↔
      ∀ table ∈ catalog.tables, table.ChargesListed) ∧
    (ReadsBalanced catalog (fun f => f.lines.tallies) ↔
      ∀ table ∈ catalog.tables, table.ChargesListed) ∧
    ∀ table ∈ Catalog.builtin.tables, table.ChargesListed := by
  refine ⟨fun _ _ _ => exists_gathered_of_read, ⟨?_, ?_⟩, ⟨?_, ?_⟩, ?_⟩
  · intro h table ht
    refine chargesListed_of_balanced fun mnemonic hm hcounted => ?_
    obtain ⟨b, hb, hbt⟩ := (tallies_sole hcounted).1
    exact hbt ▸ h _ _ _ (read_soleText hm ht) _ List.mem_cons_self _ (List.mem_map_of_mem hb)
  · intro h cpu text fs hread f hf t ht
    exact readsBalanced_of_chargesListed h cpu text fs hread f hf t (List.mem_append_left _ ht)
  · intro h table ht
    refine chargesListed_of_balanced fun mnemonic hm hcounted => ?_
    exact h _ _ _ (read_soleText hm ht) _ List.mem_cons_self _ (tallies_sole hcounted).2
  · intro h cpu text fs hread f hf t ht
    exact readsBalanced_of_chargesListed h cpu text fs hread f hf t (List.mem_append_right _ ht)
  · exact fun table ht => (builtin_priced table ht).chargesListed

/-- The function of a listing with one `nop`, which is counted without cycles. -/
def freeFunc : Func :=
  ⟨"f", ⟨"a", 3⟩, [⟨none, "entry", some (.point 3), ⟨0, 0, 0, 0, 0, 1, 0⟩⟩],
    .ofList [(3, ⟨0, 0, 0, 0, 0, 1, 0⟩)]⟩

theorem read_balanced_free : ∃ table catalog,
    Table.compile "cpu" [⟨"NOP", ⟨.other, 0⟩⟩] = .ok table ∧
    Catalog.ofTables [table] = .ok catalog ∧
    read catalog none (soleText "nop") = .ok [freeFunc] ∧
    ∀ t ∈ freeFunc.tallies, ¬ t.Balanced ∧ t.take? = none ∧ t.instructions = 1 := by
  have hread : (Table.compile "cpu" [⟨"NOP", ⟨.other, 0⟩⟩]).toOption.map (fun t =>
      (Catalog.ofTables [t]).toOption.map fun c =>
        (read c none (soleText "nop")).toOption.map id) = some (some (some [freeFunc])) := by
    decide +kernel
  obtain ⟨table, ht, hread⟩ := toOption_map_eq_some hread
  obtain ⟨catalog, hc, hread⟩ := toOption_map_eq_some hread
  obtain ⟨fs, hread, rfl⟩ := toOption_map_eq_some hread
  refine ⟨table, catalog, ht, hc, hread, fun t htally => ?_⟩
  have hfree : t.cycles = 0 ∧ t.instructions = 1 := by
    have hall : ∀ t ∈ freeFunc.tallies, t.cycles = 0 ∧ t.instructions = 1 := by decide
    exact hall t htally
  have hlost : ¬ t.Balanced := by
    rw [Tally.Balanced, hfree.1, hfree.2]
    decide
  obtain ⟨cs, hcs⟩ := (read_balanced catalog).1 _ _ _ hread freeFunc List.mem_cons_self t htally
  exact ⟨hlost, (hcs.lost.1 hlost).1, hfree.2⟩

end Listing

end LineCost
