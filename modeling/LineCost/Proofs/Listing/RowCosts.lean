import LineCost.Proofs.Cost.Lookup
import LineCost.Proofs.Listing.Exactness
import LineCost.Proofs.Results

/-!
What the instructions on one row of a function cost together. With the built-in tables that is never
without cycles, unless no instruction on the row is counted.
-/

namespace LineCost.Listing

/-- What all instructions on a row cost together. -/
def costOn (table : Table) (ls : List Line) (r : Nat) : Tally :=
  Tally.sum ((costsAt table ls r).map Tally.ofCost)

/-- The cost is that of an instruction among the lines, and counted. -/
def CountedAmong (table : Table) (ls : List Line) (c : Cost) : Prop :=
  ∃ mnemonic, .instruction mnemonic ∈ ls ∧ c = table.classify mnemonic ∧ c.isCounted = true

theorem CountedAmong.mono {table : Table} {ls ls' : List Line} {c : Cost}
    (h : CountedAmong table ls c) (hls : ∀ l ∈ ls, l ∈ ls') : CountedAmong table ls' c := by
  obtain ⟨mnemonic, hm, hc⟩ := h
  exact ⟨mnemonic, hls _ hm, hc⟩

/-- What is counted is an instruction, at its cost in the table. -/
theorem countedAmong_of_countedCost? {table : Table} {ls : List Line} {line : Line} {c : Cost}
    (hl : line ∈ ls) (h : countedCost? table line = some c) : CountedAmong table ls c := by
  cases line with
  | instruction mnemonic =>
    rw [countedCost?] at h
    split at h
    · rename_i hc
      obtain rfl := Option.some.inj h
      exact ⟨mnemonic, hl, rfl, hc⟩
    · cases h
  | _ => cases h

theorem countedAmong_of_mem_costsAt {table : Table} {ls : List Line} {r : Nat} {c : Cost}
    (h : c ∈ costsAt table ls r) : CountedAmong table ls c := by
  obtain ⟨e, he, rfl⟩ := List.mem_map.1 h
  obtain ⟨l, hl, hcost⟩ := List.mem_filterMap.1 (List.mem_filter.1 he).1
  obtain ⟨d, hd, rfl⟩ := Option.map_eq_some_iff.1 hcost
  exact countedAmong_of_countedCost? (List.fst_mem_of_mem_zipIdx hl) hd

theorem cycles_ofCost {c : Cost} (h : c.isCounted = true) : (Tally.ofCost c).cycles = c.cycles := by
  obtain ⟨category, cycles⟩ := c
  cases category with
  | ignore => cases h
  | _ => rfl

/-- A row with instructions that are counted has cycles. -/
theorem cycles_costOn_ne_zero {table : Table} (ht : table ∈ Catalog.builtin.tables) {ls : List Line}
    {r : Nat} (h : costsAt table ls r ≠ []) : (costOn table ls r).cycles ≠ 0 := by
  obtain ⟨c, hc⟩ := List.exists_mem_of_ne_nil _ h
  obtain ⟨mnemonic, -, hm, hcounted⟩ := countedAmong_of_mem_costsAt hc
  have hpos : 0 < c.cycles := by
    rw [hm] at hcounted ⊢
    exact cycles_classify_pos ht hcounted
  obtain ⟨before, after, hcosts⟩ := List.append_of_mem hc
  simp only [costOn, hcosts, List.map_append, List.map_cons, Tally.sum_append, Tally.sum_cons,
    Tally.cycles_add, cycles_ofCost hcounted]
  omega

theorem select_mem (catalog : Catalog) (name : String) : catalog.select name ∈ catalog.tables := by
  rw [Catalog.select]
  cases h : catalog.get? name with
  | none => exact catalog.default_mem
  | some t => exact List.mem_of_find?_eq_some h

theorem tableFor_mem (catalog : Catalog) (cpu : Option String) (lines : List Line) :
    tableFor catalog cpu lines ∈ catalog.tables := by
  rw [tableFor]
  split
  · exact select_mem catalog _
  · exact catalog.default_mem

theorem read_eq_ok {catalog : Catalog} {cpu : Option String} {text : String} {fs : List Func}
    (h : read catalog cpu text = .ok fs) :
    ∃ parts, Bracketed (readLines text) parts ∧
      fs = parts.map (Section.func (tableFor catalog cpu (readLines text))) := by
  obtain ⟨parts, hparts, hfs⟩ := bind_eq_ok h
  exact ⟨parts, sections_eq_ok_iff.1 hparts, (Except.ok.inj hfs).symm⟩

/-- Every location of a listing that is read names a file. -/
theorem files_of_bracketed {text : String} {parts : List Section}
    (h : Bracketed (readLines text) parts) {part : Section} (hp : part ∈ parts) (n : Nat) :
    Line.loc "" n ∉ part.lines := by
  intro hn
  obtain ⟨l, _, hl⟩ := List.mem_map.1 (mem_of_bracketed h hp hn)
  exact Line.file_ne_empty hl rfl

theorem exactlyCosted_of_bracketed {text : String} {parts : List Section}
    (h : Bracketed (readLines text) parts) {part : Section} (hp : part ∈ parts) (table : Table) :
    ExactlyCosted table part.lines (part.func table) :=
  Section.exactlyCosted table (files_of_bracketed h hp)

theorem ExactlyCosted.getD_lines {table : Table} {ls : List Line} {f : Func}
    (h : ExactlyCosted table ls f) (r : Nat) : (f.lines.get? r).getD .zero = costOn table ls r := by
  rw [h.lines r, costOn]
  split
  · rename_i hnil
    rw [hnil]
    rfl
  · rfl

end LineCost.Listing
