import LineCost.Listing.Pass
import LineCost.Proofs.Listing.RowCosts

/-!
A listing read in one pass, line by line. The pass settles its table at the first of three events:
the CPU asked for at the start, a CPU that the listing chooses, or the first function. What it finds
is what reading the sections one by one finds.
-/

namespace LineCost.Listing

namespace OpenFunc

/-- The function of a section whose lines stand last first. -/
def ofSection (table : Table) (s : Section) : OpenFunc :=
  ⟨s.name, table, s.lines.reverse.foldl (Trace.step table) .start⟩

theorem ofSection_cons (table : Table) (name : String) (line : Line) (lines : List Line) :
    ofSection table ⟨name, line :: lines⟩ = (ofSection table ⟨name, lines⟩).step line := by
  simp [ofSection, step, List.foldl_append]

end OpenFunc

namespace Pass

/-- All functions that are open or begin later are counted with the table. -/
structure Settled (p : Pass) (table : Table) : Prop where
  table_eq : p.table = some table
  open_eq : ∀ f, p.open? = some f → f.table = table

variable {catalog : Catalog} {p q : Pass} {table : Table}

theorem Settled.settle (h : p.Settled table) (t : Table) : p.settle t = p := by
  rw [Pass.settle, h.table_eq, Option.getD_some, ← h.table_eq]

theorem Settled.begin (h : p.Settled table) (name : String) :
    (p.begin catalog name).Settled table where
  table_eq := by
    rw [Pass.begin, h.settle, h.table_eq]
  open_eq := by
    intro f hf
    obtain rfl := Option.some.inj hf
    rw [OpenFunc.start, h.table_eq, Option.getD_some]

theorem Settled.close (h : p.Settled table) : p.close.Settled table := by
  rw [Pass.close]
  split
  · exact h
  · exact ⟨h.table_eq, nofun⟩

theorem Settled.take (h : p.Settled table) (line : Line) : (p.take line).Settled table where
  table_eq := h.table_eq
  open_eq := by
    intro f hf
    obtain ⟨g, hg, rfl⟩ := Option.map_eq_some_iff.1 hf
    exact h.open_eq g hg

/-- No line changes a table that is settled. -/
theorem Settled.step {n : Nat} {line : Line} (h : p.Settled table)
    (hq : p.step catalog n line = .ok q) : q.Settled table := by
  cases line with
  | cpu name =>
    rw [Pass.step, h.settle] at hq
    exact Except.ok.inj hq ▸ h
  | opening name =>
    rw [Pass.step] at hq
    split at hq
    · cases hq
    · exact Except.ok.inj hq ▸ h.begin name
  | closing => exact Except.ok.inj hq ▸ h.close
  | _ => exact Except.ok.inj hq ▸ h.take _

theorem Settled.run {ls : List (Nat × Line)} (h : p.Settled table)
    (hq : p.run catalog ls = .ok q) : q.Settled table := by
  induction ls generalizing p with
  | nil => exact Except.ok.inj hq ▸ h
  | cons l ls ih =>
    rw [Pass.run] at hq
    split at hq
    · rename_i hstep
      exact ih (h.step hstep) hq
    · cases hq

/-- What a pass that goes on with the lines finds. -/
def result (catalog : Catalog) (p : Pass) (ls : List (Nat × Line)) :
    Except ReadError (List Func) := do
  let p ← p.run catalog ls
  p.finish

theorem result_cons_of_ok {n : Nat} {line : Line} {ls : List (Nat × Line)}
    (h : p.step catalog n line = .ok q) :
    p.result catalog ((n, line) :: ls) = q.result catalog ls := by
  rw [result, run, h]
  rfl

theorem result_cons_of_error {n : Nat} {line : Line} {ls : List (Nat × Line)} {e : ReadError}
    (h : p.step catalog n line = .error e) : p.result catalog ((n, line) :: ls) = .error e := by
  rw [result, run, h]
  rfl

/-- A pass over the lines before some place goes on with the lines after it. -/
theorem run_append (p : Pass) (a b : List (Nat × Line)) :
    p.run catalog (a ++ b) = p.run catalog a >>= fun q => q.run catalog b := by
  induction a generalizing p with
  | nil => rfl
  | cons l a ih =>
    rw [List.cons_append, run, run]
    split
    · exact ih _
    · rfl

/-- A pass whose table is settled, in the section that is open, if one is. -/
def within (table : Table) (s : Option Section) (done : List Func) : Pass :=
  ⟨some table, s.map (OpenFunc.ofSection table), done⟩

theorem settled_within (table : Table) (s : Option Section) (done : List Func) :
    (within table s done).Settled table where
  table_eq := rfl
  open_eq := by
    intro f hf
    obtain ⟨part, _, rfl⟩ := Option.map_eq_some_iff.1 hf
    rfl

/-- A line within a section joins its lines. -/
theorem step_within (s : Section) (done : List Func) (n : Nat) {line : Line} (hl : Inner line) :
    (within table (some s) done).step catalog n line =
      .ok (within table (some ⟨s.name, line :: s.lines⟩) done) := by
  have htake : (within table (some s) done).take line =
      within table (some ⟨s.name, line :: s.lines⟩) done := by
    simp [within, take, OpenFunc.ofSection_cons]
  cases line with
  | opening name => exact absurd rfl (hl.2 name)
  | closing => exact absurd rfl hl.1
  | cpu name =>
    -- a function takes no notice of the choice of a CPU
    have hidle : (within table (some s) done).take (.cpu name) = within table (some s) done := rfl
    rw [step, (settled_within table _ done).settle, ← hidle, htake]
  | _ => exact congrArg Except.ok htake

/-- Outside all functions only the choice of a CPU and a beginning matter. -/
theorem step_outside (n : Nat) {line : Line} (ho : p.open? = none) (hc : ∀ name, line ≠ .cpu name)
    (hl : ∀ name, line ≠ .opening name) : p.step catalog n line = .ok p := by
  obtain ⟨t, o, done⟩ := p
  obtain rfl : o = none := ho
  cases line with
  | cpu name => exact absurd rfl (hc name)
  | opening name => exact absurd rfl (hl name)
  | _ => rfl

/-- Once its table is settled, a pass finds the functions of the sections. -/
theorem result_within (s : Option Section) (done : List Func) (ls : List (Nat × Line)) :
    (within table s done).result catalog ls =
      (sectionsFrom s ls).map fun parts => done.reverse ++ parts.map (Section.func table) := by
  fun_induction sectionsFrom s ls generalizing done
  case case1 => exact congrArg Except.ok (List.append_nil _).symm
  case case2 s => rfl
  case case3 n rest name ih =>
    rw [result_cons_of_ok rfl, ← ih]
    rfl
  case case4 n line rest hl ih =>
    have hstep : (within table none done).step catalog n line = .ok (within table none done) := by
      by_cases hc : ∃ name, line = .cpu name
      · obtain ⟨name, rfl⟩ := hc
        rw [step, (settled_within table none done).settle]
      · exact step_outside n rfl (fun name he => hc ⟨name, he⟩) hl
    rw [result_cons_of_ok hstep, ih]
  case case5 n rest s name => rw [result_cons_of_error rfl]; rfl
  case case6 n rest s ih =>
    have hstep : (within table (some s) done).step catalog n .closing =
        .ok (within table none (Section.func table ⟨s.name, s.lines.reverse⟩ :: done)) := rfl
    rw [result_cons_of_ok hstep, ih]
    cases sectionsFrom none rest with
    | error e => rfl
    | ok parts => simp [Except.map]
  case case7 n rest s line hopen hclosing ih =>
    rw [result_cons_of_ok (step_within s done n ⟨hclosing, hopen⟩), ih]

/-- Before its table is settled, a pass takes that of the first choice, and the default at the first
function. -/
theorem result_unsettled (ls : List (Nat × Line)) :
    (⟨none, none, []⟩ : Pass).result catalog ls = (sectionsFrom none ls).map
      (List.map (Section.func (tableFor catalog none (ls.map Prod.snd)))) := by
  induction ls with
  | nil => rfl
  | cons l ls ih =>
    obtain ⟨n, line⟩ := l
    cases line with
    | cpu name =>
      have hstep : (⟨none, none, []⟩ : Pass).step catalog n (.cpu name) =
          .ok (within (catalog.select name) none []) := rfl
      rw [result_cons_of_ok hstep, result_within]
      rfl
    | opening name =>
      have hstep : (⟨none, none, []⟩ : Pass).step catalog n (.opening name) =
          .ok (within catalog.default (some ⟨name, []⟩) []) := rfl
      rw [result_cons_of_ok hstep, result_within]
      rfl
    | _ =>
      rw [result_cons_of_ok (step_outside n rfl (by simp) (by simp)), ih]
      rfl

/-- A pass through a listing. -/
def throughout (catalog : Catalog) (cpu : Option String) (text : String) :
    Except ReadError (List Func) :=
  (start catalog cpu).result catalog (Text.numbered (readLines text))

/-- A listing that is read is read on from every place in it. -/
theorem exists_run_of_throughout {cpu : Option String} {text : String} {fs : List Func}
    {before after : List Line} (h : throughout catalog cpu text = .ok fs)
    (htext : readLines text = before ++ after) :
    ∃ p, (start catalog cpu).run catalog (Text.numbered before) = .ok p ∧
      p.result catalog (Text.numberedFrom (before.length + 1) after) = .ok fs := by
  rw [throughout, htext, Text.numbered_eq, Text.numberedFrom_append, result, run_append] at h
  obtain ⟨q, hq, hfinish⟩ := bind_eq_ok h
  obtain ⟨p, hp, hrest⟩ := bind_eq_ok hq
  refine ⟨p, by rw [Text.numbered_eq, hp], ?_⟩
  rw [result, Nat.add_comm, hrest]
  exact hfinish

end Pass

theorem read_eq (catalog : Catalog) (cpu : Option String) (text : String) :
    read catalog cpu text = (sections (readLines text)).map
      (List.map (Section.func (tableFor catalog cpu (readLines text)))) := rfl

/-- Reading the sections of a listing one by one finds what a single pass finds. -/
theorem read_eq_throughout (catalog : Catalog) (cpu : Option String) (text : String) :
    read catalog cpu text = Pass.throughout catalog cpu text := by
  rw [read_eq, Pass.throughout, sections]
  cases cpu with
  | some name => exact (Pass.result_within none [] _).symm
  | none =>
    have h := @Pass.result_unsettled catalog (Text.numbered (readLines text))
    rw [Text.map_snd_numbered] at h
    exact h.symm

end LineCost.Listing
