import LineCost.Proofs.Cost.Shelf
import LineCost.Proofs.Listing.Pass

/-!
One table serves a whole listing. It is settled by the CPU asked for, else by the first CPU that the
listing chooses before any function, else by default; no other choice of a CPU has any effect.
-/

namespace LineCost.Listing

/-- A line that leaves the table of a listing open. -/
def Line.Waits (line : Line) : Prop := (∀ name, line ≠ .cpu name) ∧ ∀ name, line ≠ .opening name

/-- What settles the table of a listing, given the CPU asked for. -/
inductive Governs (catalog : Catalog) : Option String → List Line → Table → Prop where
  | asked (name : String) (ls : List Line) : Governs catalog (some name) ls (catalog.select name)
  | chosen {before : List Line} (name : String) (after : List Line) (h : ∀ l ∈ before, l.Waits) :
    Governs catalog none (before ++ .cpu name :: after) (catalog.select name)
  | unasked {ls : List Line} (h : ∀ before name after, ls = before ++ .cpu name :: after →
      ∃ f, .opening f ∈ before) : Governs catalog none ls catalog.default

theorem chosenCpu?_cons_of_waits {line : Line} (h : line.Waits) (ls : List Line) :
    chosenCpu? (line :: ls) = chosenCpu? ls := by
  cases line with
  | cpu name => exact absurd rfl (h.1 name)
  | opening name => exact absurd rfl (h.2 name)
  | _ => rfl

theorem waits_or (line : Line) :
    (∃ name, line = .cpu name) ∨ (∃ name, line = .opening name) ∨ line.Waits := by
  cases line with
  | cpu name => exact .inl ⟨name, rfl⟩
  | opening name => exact .inr (.inl ⟨name, rfl⟩)
  | _ => exact .inr (.inr ⟨by simp, by simp⟩)

theorem chosenCpu?_append {before : List Line} (h : ∀ l ∈ before, l.Waits) (ls : List Line) :
    chosenCpu? (before ++ ls) = chosenCpu? ls := by
  induction before with
  | nil => rfl
  | cons l before ih =>
    rw [List.cons_append, chosenCpu?_cons_of_waits (h l List.mem_cons_self),
      ih fun k hk => h k (List.mem_cons_of_mem _ hk)]

/-- A listing chooses a CPU if it names one with no function and no other CPU before. -/
theorem chosenCpu?_eq_some_iff {ls : List Line} {name : String} :
    chosenCpu? ls = some name ↔
      ∃ before after, ls = before ++ .cpu name :: after ∧ ∀ l ∈ before, l.Waits := by
  constructor
  · intro h
    induction ls with
    | nil => cases h
    | cons line ls ih =>
      obtain ⟨c, rfl⟩ | ⟨f, rfl⟩ | hl := waits_or line
      · obtain rfl := Option.some.inj h
        exact ⟨[], ls, rfl, nofun⟩
      · cases h
      · rw [chosenCpu?_cons_of_waits hl] at h
        obtain ⟨before, after, rfl, hbefore⟩ := ih h
        exact ⟨line :: before, after, rfl, List.forall_mem_cons.2 ⟨hl, hbefore⟩⟩
  · rintro ⟨before, after, rfl, h⟩
    rw [chosenCpu?_append h]
    rfl

/-- A listing chooses none if a function begins before every CPU that it names. -/
theorem chosenCpu?_eq_none_iff {ls : List Line} :
    chosenCpu? ls = none ↔
      ∀ before name after, ls = before ++ .cpu name :: after → ∃ f, .opening f ∈ before := by
  constructor
  · rintro h before name after rfl
    induction before with
    | nil => cases h
    | cons line before ih =>
      obtain ⟨c, rfl⟩ | ⟨f, rfl⟩ | hl := waits_or line
      · cases h
      · exact ⟨f, List.mem_cons_self⟩
      · rw [List.cons_append, chosenCpu?_cons_of_waits hl] at h
        obtain ⟨f, hf⟩ := ih h
        exact ⟨f, List.mem_cons_of_mem _ hf⟩
  · intro h
    rw [Option.eq_none_iff_forall_ne_some]
    intro name hname
    obtain ⟨before, after, hls, hbefore⟩ := chosenCpu?_eq_some_iff.1 hname
    obtain ⟨f, hf⟩ := h before name after hls
    exact (hbefore _ hf).2 f rfl

/-- Exactly one table governs a listing: that which reading it takes. -/
theorem governs_iff {catalog : Catalog} {cpu : Option String} {ls : List Line} {table : Table} :
    Governs catalog cpu ls table ↔ table = tableFor catalog cpu ls := by
  constructor
  · intro h
    cases h with
    | asked name => rfl
    | chosen name after h =>
      have hchosen : chosenCpu? _ = some name := chosenCpu?_eq_some_iff.2 ⟨_, after, rfl, h⟩
      rw [tableFor, Option.orElse_none, hchosen]
    | unasked h => rw [tableFor, Option.orElse_none, chosenCpu?_eq_none_iff.2 h]
  · rintro rfl
    cases cpu with
    | some name => exact .asked name ls
    | none =>
      rw [tableFor, Option.orElse_none]
      split
      · rename_i name hname
        obtain ⟨before, after, rfl, hbefore⟩ := chosenCpu?_eq_some_iff.1 hname
        exact .chosen name after hbefore
      · rename_i hnone
        exact .unasked (chosenCpu?_eq_none_iff.1 hnone)

/-- The name of a table of a catalog selects that table, since no other has its name. -/
theorem select_name {catalog : Catalog} {table : Table} (h : table ∈ catalog.tables) :
    catalog.select table.name = table := by
  rw [Catalog.select, Catalog.get?_eq_some_iff.2 ⟨h, rfl⟩, Option.getD_some]

theorem select_cortexA57 : Catalog.builtin.select CortexA57.name = CortexA57.table :=
  have hmem : CortexA57.table ∈ Catalog.builtin.tables :=
    List.mem_cons_of_mem _ List.mem_cons_self
  select_name hmem

theorem tableFor_some_name (catalog : Catalog) (cpu : Option String) (ls ls' : List Line) :
    tableFor catalog (some (tableFor catalog cpu ls).name) ls' = tableFor catalog cpu ls :=
  select_name (tableFor_mem catalog cpu ls)

/-- The line without the choice of a CPU. -/
def Line.muted : Line → Line
  | .cpu _ => .other
  | line => line

/-- The lines without the choices that come after the first or after a function begins. -/
def firstChoice : List Line → List Line
  | [] => []
  | .cpu name :: rest => .cpu name :: rest.map Line.muted
  | .opening name :: rest => .opening name :: rest.map Line.muted
  | line :: rest => line :: firstChoice rest

/-- The lines without any choice of a CPU that is not heeded. -/
def heeded (cpu : Option String) (ls : List Line) : List Line :=
  if cpu.isSome then ls.map Line.muted else firstChoice ls

namespace Pass

variable {catalog : Catalog} {p : Pass} {table : Table}

theorem Settled.step_muted (h : p.Settled table) (n : Nat) (line : Line) :
    p.step catalog n line.muted = p.step catalog n line := by
  cases line with
  | cpu name =>
    have hidle : p.take .other = p := by
      obtain ⟨t, o, done⟩ := p
      cases o <;> rfl
    exact congrArg Except.ok (hidle.trans (h.settle _).symm)
  | _ => rfl

theorem Settled.run_muted (h : p.Settled table) (k : Nat) (ls : List Line) :
    p.run catalog (Text.numberedFrom k (ls.map Line.muted)) =
      p.run catalog (Text.numberedFrom k ls) := by
  induction ls generalizing p k with
  | nil => rfl
  | cons line ls ih =>
    rw [List.map_cons, Text.numberedFrom, Text.numberedFrom, Pass.run, Pass.run, h.step_muted]
    split
    · rename_i hstep
      exact ih (h.step hstep) _
    · rfl

theorem run_firstChoice (k : Nat) (ls : List Line) :
    (⟨none, none, []⟩ : Pass).run catalog (Text.numberedFrom k (firstChoice ls)) =
      (⟨none, none, []⟩ : Pass).run catalog (Text.numberedFrom k ls) := by
  induction ls generalizing k with
  | nil => rfl
  | cons line ls ih =>
    cases line with
    | cpu name => exact (settled_within (catalog.select name) none []).run_muted (k + 1) ls
    | opening name =>
      exact (settled_within catalog.default (some ⟨name, []⟩) []).run_muted (k + 1) ls
    | _ => exact ih (k + 1)

/-- A pass goes the same way without the choices that are not heeded. -/
theorem run_heeded (cpu : Option String) (ls : List Line) :
    (start catalog cpu).run catalog (Text.numbered (heeded cpu ls)) =
      (start catalog cpu).run catalog (Text.numbered ls) := by
  rw [Text.numbered_eq, Text.numbered_eq]
  cases cpu with
  | some name => exact (settled_within (catalog.select name) none []).run_muted 1 ls
  | none => exact run_firstChoice 1 ls

/-- On its way through a listing a pass waits for its table, or has settled that which governs the
listing. -/
theorem waits_or_settled {q : Pass} {cpu : Option String} {k : Nat} {front : List Line}
    (h : (start catalog cpu).run catalog (Text.numberedFrom k front) = .ok q) (rest : List Line) :
    q.open? = none ∨ q.Settled (tableFor catalog cpu (front ++ rest)) := by
  cases cpu with
  | some name => exact .inr ((settled_within (catalog.select name) none []).run h)
  | none =>
    induction front generalizing k with
    | nil =>
      obtain rfl := Except.ok.inj h
      exact .inl rfl
    | cons line front ih =>
      cases line with
      | cpu name => exact .inr ((settled_within (catalog.select name) none []).run h)
      | opening name =>
        exact .inr ((settled_within catalog.default (some ⟨name, []⟩) []).run h)
      | _ => exact ih h

end Pass

/-- The table serves a listing: it governs it, every function is counted with it, and what the
listing says of CPUs beyond that goes unheeded. -/
structure Serves (catalog : Catalog) (cpu : Option String) (text : String) (table : Table) :
    Prop where
  governs : Governs catalog cpu (readLines text) table
  /-- A single pass over the listing finds what reading it does. -/
  pass : read catalog cpu text = Pass.throughout catalog cpu text
  /-- Each function is counted with the table from its beginning, wherever the pass may end. -/
  opened : ∀ front rest p, readLines text = front ++ rest →
    (Pass.start catalog cpu).run catalog (Text.numbered front) = .ok p →
    ∀ f, p.open? = some f → f.table = table
  functions : ∀ fs, read catalog cpu text = .ok fs →
    ∃ parts, Bracketed (readLines text) parts ∧ fs = parts.map (Section.func table)
  /-- Whoever asks for the table by its name gets the same functions or the same fault. -/
  asked : read catalog (some table.name) text = read catalog cpu text
  unheeded : ∀ other, heeded cpu (readLines other) = heeded cpu (readLines text) →
    read catalog cpu other = read catalog cpu text

/-- Exactly one table governs a listing, and it serves the whole of it. -/
theorem read_serves (catalog : Catalog) (cpu : Option String) (text : String) :
    ∃ table, Serves catalog cpu text table ∧
      ∀ t, Governs catalog cpu (readLines text) t → t = table := by
  refine ⟨tableFor catalog cpu (readLines text), ?_, fun t ht => governs_iff.1 ht⟩
  refine ⟨governs_iff.2 rfl, read_eq_throughout catalog cpu text, ?_, ?_, ?_, ?_⟩
  · intro front rest p htext hrun f hf
    rw [Text.numbered_eq] at hrun
    rcases Pass.waits_or_settled hrun rest with hnone | hsettled
    · rw [hnone] at hf
      cases hf
    · rw [htext]
      exact hsettled.open_eq f hf
  · intro fs h
    exact read_eq_ok h
  · rw [read_eq, read_eq, tableFor_some_name]
  · intro other h
    rw [read_eq_throughout, read_eq_throughout, Pass.throughout, Pass.throughout, Pass.result,
      Pass.result, ← Pass.run_heeded, h, Pass.run_heeded]

/-- A CPU is chosen, then others before, in, between and after the functions. -/
def undecided : String :=
  "\t.cpu cortex-a57\n\t.cpu cortex-r52\n// -- Begin function f\n\t.cpu cortex-r52\n" ++
  "\tldr\tx0, [x1]\n// -- End function\n\t.cpu cortex-r52\n// -- Begin function g\n" ++
  "\tldr\tx0, [x1]\n// -- End function\n\t.cpu generic\n"

theorem read_serves_undecided :
    read Catalog.builtin none undecided =
        .ok [⟨"f", ⟨"", 0⟩, [⟨none, "entry", none, ⟨0, 1, 0, 0, 0, 0, 4⟩⟩], .empty⟩,
          ⟨"g", ⟨"", 0⟩, [⟨none, "entry", none, ⟨0, 1, 0, 0, 0, 0, 4⟩⟩], .empty⟩] ∧
      Serves Catalog.builtin none undecided CortexA57.table := by
  have hchosen : chosenCpu? (readLines undecided) = some CortexA57.name := by decide +kernel
  have htable : tableFor Catalog.builtin none (readLines undecided) = CortexA57.table := by
    rw [tableFor, Option.orElse_none, hchosen]
    exact select_cortexA57
  obtain ⟨table, hserves, hunique⟩ := read_serves Catalog.builtin none undecided
  obtain rfl := hunique CortexA57.table (governs_iff.2 htable.symm)
  exact ⟨by decide +kernel, hserves⟩

end LineCost.Listing
