import LineCost.Proofs.Results
import LineCost.Proofs.Run.Places
import LineCost.Run.Basic

/-!
The stages of a run, each with its own ways to fail, told from what it is given alone. The failure
that stops a run is that of the first stage that fails.
-/

namespace LineCost.Run

/-- How the stages fail when the reads have come to `outline` and `listing`, whatever becomes of the
other stages. -/
inductive Fails (catalog : Catalog) (o : Options) (paths : Paths) (fs : Files)
    (outline listing : Except ReadFault String) : RunError → Prop
  | outlineUnreadable {fault : ReadFault} (h : outline = .error fault) :
      Fails catalog o paths fs outline listing (.outlineUnreadable paths.outline fault)
  | outline {text : String} {e : Outline.ReadError} (h : outline = .ok text)
      (he : Outline.read text = .error e) : Fails catalog o paths fs outline listing (.outline e)
  | listingUnreadable {fault : ReadFault} (h : listing = .error fault) :
      Fails catalog o paths fs outline listing (.listingUnreadable paths.listing fault)
  | listing {text : String} {e : Listing.ReadError} (h : listing = .ok text)
      (he : Listing.read catalog o.cpu text = .error e) :
      Fails catalog o paths fs outline listing (.listing e)
  | duplicate {text text' : String} {functions : List Outline.Func} {asm : List Listing.Func}
      {d : Attribution.DuplicateFunction} (ho : outline = .ok text)
      (hf : Outline.read text = .ok functions) (hl : listing = .ok text')
      (ha : Listing.read catalog o.cpu text' = .ok asm)
      (hd : Attribution.merge o.skips asm functions = .error d) :
      Fails catalog o paths fs outline listing (.duplicate d)
  /-- The path of the output leads nowhere, or to a directory. -/
  | unwritable (h : ∀ p, fs.LeadsTo paths.output p → fs.lookup? p = some .directory) :
      Fails catalog o paths fs outline listing (.unwritable paths.output)

/-- A failure that is in the first stage that fails. -/
def FailsFirst (catalog : Catalog) (o : Options) (paths : Paths) (fs : Files)
    (outline listing : Except ReadFault String) (e : RunError) : Prop :=
  Fails catalog o paths fs outline listing e ∧
    ∀ e', Fails catalog o paths fs outline listing e' → e.stage.exitCode ≤ e'.stage.exitCode

namespace Stage

variable {a b : Stage}

theorem exitCode_injective (h : a.exitCode = b.exitCode) : a = b := by
  revert h
  cases a <;> cases b <;> decide

theorem load_le : load.exitCode ≤ a.exitCode := by
  cases a <;> decide

theorem parse_le (h : a ≠ .load) : parse.exitCode ≤ a.exitCode := by
  revert h
  cases a <;> decide

theorem merge_le (h : a ≠ .load) (h' : a ≠ .parse) : merge.exitCode ≤ a.exitCode := by
  revert h h'
  cases a <;> decide

end Stage

variable {catalog : Catalog} {o : Options} {paths : Paths} {fs : Files}
  {outline listing : Except ReadFault String} {e e' : RunError} {text text' : String}
  {functions : List Outline.Func} {asm : List Listing.Func}

namespace Fails

/-- A stage fails in one way at most. -/
theorem unique (h : Fails catalog o paths fs outline listing e)
    (h' : Fails catalog o paths fs outline listing e') (hstage : e.stage = e'.stage) : e = e' := by
  cases h <;> cases h' <;> simp_all [RunError.stage]

theorem stage_ne_load (h : Fails catalog o paths fs outline listing e) (ho : outline = .ok text)
    (hf : Outline.read text = .ok functions) : e.stage ≠ .load := by
  cases h with
  | outlineUnreadable h => cases ho.symm.trans h
  | outline h he =>
    cases ho.symm.trans h
    cases hf.symm.trans he
  | _ => nofun

theorem stage_ne_parse (h : Fails catalog o paths fs outline listing e) (hl : listing = .ok text)
    (ha : Listing.read catalog o.cpu text = .ok asm) : e.stage ≠ .parse := by
  cases h with
  | listingUnreadable h => cases hl.symm.trans h
  | listing h he =>
    cases hl.symm.trans h
    cases ha.symm.trans he
  | _ => nofun

theorem stage_ne_merge (h : Fails catalog o paths fs outline listing e) (ho : outline = .ok text)
    (hf : Outline.read text = .ok functions) (hl : listing = .ok text')
    (ha : Listing.read catalog o.cpu text' = .ok asm)
    {merged : List Outline.Func × Attribution.Report}
    (hm : Attribution.merge o.skips asm functions = .ok merged) : e.stage ≠ .merge := by
  cases h with
  | duplicate ho' hf' hl' ha' hd =>
    cases ho.symm.trans ho'
    cases hf.symm.trans hf'
    cases hl.symm.trans hl'
    cases ha.symm.trans ha'
    cases hm.symm.trans hd
  | _ => nofun

/-- The last stage fails where there is no place for the output. -/
theorem of_stage_save (h : Fails catalog o paths fs outline listing e) (hstage : e.stage = .save) :
    e = .unwritable paths.output ∧
      ∀ p, fs.LeadsTo paths.output p → fs.lookup? p = some .directory := by
  cases h with
  | unwritable h => exact ⟨rfl, h⟩
  | _ => cases hstage

end Fails

theorem FailsFirst.unique (h : FailsFirst catalog o paths fs outline listing e)
    (h' : FailsFirst catalog o paths fs outline listing e') : e = e' :=
  h.1.unique h'.1 (Stage.exitCode_injective (Nat.le_antisymm (h.2 e' h'.1) (h'.2 e h.1)))

/-- What the stages before the last come to when none of them fails. -/
theorem prepare_eq_ok_iff {s : Summary} : prepare catalog o paths outline listing = .ok s ↔
    ∃ text text' functions asm, outline = .ok text ∧ Outline.read text = .ok functions ∧
      listing = .ok text' ∧ Listing.read catalog o.cpu text' = .ok asm ∧
      Attribution.merge o.skips asm functions = .ok (s.functions, s.report) ∧
      s.paths = paths ∧ s.total = Outline.total s.functions := by
  constructor
  · intro h
    rw [prepare] at h
    obtain ⟨text, ho, h⟩ := bind_eq_ok h
    obtain ⟨functions, hf, h⟩ := bind_eq_ok h
    obtain ⟨text', hl, h⟩ := bind_eq_ok h
    obtain ⟨asm, ha, h⟩ := bind_eq_ok h
    obtain ⟨⟨functions', report⟩, hm, h⟩ := bind_eq_ok h
    cases h
    exact ⟨text, text', functions, asm, mapError_eq_ok ho, mapError_eq_ok hf, mapError_eq_ok hl,
      mapError_eq_ok ha, mapError_eq_ok hm, rfl, rfl⟩
  · intro h
    obtain ⟨text, text', functions, asm, rfl, hf, rfl, ha, hm, rfl, htotal⟩ := h
    simp only [prepare, Except.mapError, hf, ha, hm, bind, Except.bind, pure, Except.pure,
      ← htotal]

theorem stages_of_prepare {s : Summary} (h : prepare catalog o paths outline listing = .ok s) :
    ∃ text text' functions asm report, outline = .ok text ∧ Outline.read text = .ok functions ∧
      listing = .ok text' ∧ Listing.read catalog o.cpu text' = .ok asm ∧
      Attribution.merge o.skips asm functions = .ok (s.functions, report) := by
  obtain ⟨text, text', functions, asm, ho, hf, hl, ha, hm, -⟩ := prepare_eq_ok_iff.1 h
  exact ⟨text, text', functions, asm, s.report, ho, hf, hl, ha, hm⟩

theorem total_of_prepare {s : Summary} (h : prepare catalog o paths outline listing = .ok s) :
    s.total = Outline.total s.functions := by
  obtain ⟨_, _, _, _, _, _, _, _, _, _, htotal⟩ := prepare_eq_ok_iff.1 h
  exact htotal

/-- When no stage before the last fails, only the last can. -/
theorem Fails.stage_of_prepare {s : Summary} (h : Fails catalog o paths fs outline listing e)
    (hs : prepare catalog o paths outline listing = .ok s) : e.stage = .save := by
  obtain ⟨text, text', functions, asm, report, ho, hf, hl, ha, hm⟩ := stages_of_prepare hs
  have hload := h.stage_ne_load ho hf
  have hparse := h.stage_ne_parse hl ha
  have hmerge := h.stage_ne_merge ho hf hl ha hm
  cases hstage : e.stage with
  | load => exact absurd hstage hload
  | parse => exact absurd hstage hparse
  | merge => exact absurd hstage hmerge
  | save => rfl

/-- When one of them fails, that is the first failure of the run. -/
theorem failsFirst_of_prepare (h : prepare catalog o paths outline listing = .error e) :
    FailsFirst catalog o paths fs outline listing e := by
  rw [prepare] at h
  rcases bind_eq_error h with h | ⟨text, ho, h⟩
  · obtain ⟨fault, hfault, rfl⟩ := mapError_eq_error h
    exact ⟨.outlineUnreadable hfault, fun _ _ => Stage.load_le⟩
  replace ho := mapError_eq_ok ho
  rcases bind_eq_error h with h | ⟨functions, hf, h⟩
  · obtain ⟨fault, hfault, rfl⟩ := mapError_eq_error h
    exact ⟨.outline ho hfault, fun _ _ => Stage.load_le⟩
  replace hf := mapError_eq_ok hf
  rcases bind_eq_error h with h | ⟨text', hl, h⟩
  · obtain ⟨fault, hfault, rfl⟩ := mapError_eq_error h
    exact ⟨.listingUnreadable hfault, fun _ h => Stage.parse_le (h.stage_ne_load ho hf)⟩
  replace hl := mapError_eq_ok hl
  rcases bind_eq_error h with h | ⟨asm, ha, h⟩
  · obtain ⟨fault, hfault, rfl⟩ := mapError_eq_error h
    exact ⟨.listing hl hfault, fun _ h => Stage.parse_le (h.stage_ne_load ho hf)⟩
  replace ha := mapError_eq_ok ha
  rcases bind_eq_error h with h | ⟨merged, _, h⟩
  · obtain ⟨d, hd, rfl⟩ := mapError_eq_error h
    exact ⟨.duplicate ho hf hl ha hd, fun _ h =>
      Stage.merge_le (h.stage_ne_load ho hf) (h.stage_ne_parse hl ha)⟩
  cases h

section Run

variable {module : String} {m : Metrics} {s : Summary}

theorem run_of_target?_eq_some {p : Place}
    (h : prepare catalog o (.ofModule module o) (fs.readText (Paths.ofModule module o).outline)
      (fs.readText (Paths.ofModule module o).listing) = .ok s)
    (hp : fs.target? (Paths.ofModule module o).output = some p) :
    run catalog o module fs m = ⟨.ok s, fs.set p (.file (Outline.write s.functions).toUTF8),
      m.addRun module s.report s.total⟩ := by
  rw [run]
  simp only [h, Files.replace?, hp, bind, Option.bind_some, pure]

theorem run_of_target?_eq_none
    (h : prepare catalog o (.ofModule module o) (fs.readText (Paths.ofModule module o).outline)
      (fs.readText (Paths.ofModule module o).listing) = .ok s)
    (hp : fs.target? (Paths.ofModule module o).output = none) :
    run catalog o module fs m = ⟨.error (.unwritable (Paths.ofModule module o).output), fs,
      m.addRun module s.report s.total⟩ := by
  rw [run]
  simp only [h, Files.replace?, hp, bind, Option.bind_none]

/-- A run ends before the last stage, or has no place for its output, or saves it. -/
theorem run_cases (catalog : Catalog) (o : Options) (module : String) (fs : Files) (m : Metrics) :
    (∃ e, prepare catalog o (.ofModule module o) (fs.readText (Paths.ofModule module o).outline)
        (fs.readText (Paths.ofModule module o).listing) = .error e ∧
      run catalog o module fs m = ⟨.error e, fs, m⟩) ∨
    ∃ s, prepare catalog o (.ofModule module o) (fs.readText (Paths.ofModule module o).outline)
        (fs.readText (Paths.ofModule module o).listing) = .ok s ∧
      (fs.target? (Paths.ofModule module o).output = none ∧
        run catalog o module fs m = ⟨.error (.unwritable (Paths.ofModule module o).output), fs,
          m.addRun module s.report s.total⟩ ∨
      ∃ p, fs.target? (Paths.ofModule module o).output = some p ∧
        run catalog o module fs m = ⟨.ok s, fs.set p (.file (Outline.write s.functions).toUTF8),
          m.addRun module s.report s.total⟩) := by
  cases hs : prepare catalog o (.ofModule module o)
      (fs.readText (Paths.ofModule module o).outline)
      (fs.readText (Paths.ofModule module o).listing) with
  | error e =>
    refine .inl ⟨e, rfl, ?_⟩
    rw [run]
    simp only [hs]
  | ok s =>
    refine .inr ⟨s, rfl, ?_⟩
    cases hp : fs.target? (Paths.ofModule module o).output with
    | none => exact .inl ⟨rfl, run_of_target?_eq_none hs hp⟩
    | some p => exact .inr ⟨p, rfl, run_of_target?_eq_some hs hp⟩

/-- A run succeeds only when the stages before the last do and there is a place for the output. -/
theorem run_eq_ok (h : (run catalog o module fs m).result = .ok s) :
    prepare catalog o (.ofModule module o) (fs.readText (Paths.ofModule module o).outline)
        (fs.readText (Paths.ofModule module o).listing) = .ok s ∧
      ∃ p, fs.target? (Paths.ofModule module o).output = some p := by
  obtain ⟨e, _, hrun⟩ | ⟨s', hs, ⟨_, hrun⟩ | ⟨p, hp, hrun⟩⟩ := run_cases catalog o module fs m
  · rw [hrun] at h
    cases h
  · rw [hrun] at h
    cases h
  · rw [hrun] at h
    cases h
    exact ⟨hs, p, hp⟩

end Run

end LineCost.Run
