import LineCost.Proofs.Attribution.Partition
import LineCost.Proofs.Run.Accounts
import LineCost.Proofs.Run.Again

/-!
When a run records. The counters are added to once the stages before the last are done, and nothing
takes that back. So a run that one of these stages ends leaves them as they were, but a run whose
save fails leaves them as a run does that succeeds, with instructions and cycles that are written
nowhere.
-/

namespace LineCost.Run

/-- The counter that a value of a run belongs to. -/
def counterText (module : String) (v : String × Nat) : String :=
  (CounterKey.ofRun module v.1).text

/-- Each value of a run over a module that has come to `s` is added to the counter that it belongs
to, and all other counters are what they were. -/
structure Recorded (module : String) (s : Summary) (m m' : Metrics) : Prop where
  own : ∀ v ∈ Metrics.runValues s.report s.total,
    m'.get? (counterText module v) = some ((m.get? (counterText module v)).getD 0 + v.2)
  others : ∀ key, (∀ v ∈ Metrics.runValues s.report s.total, key ≠ counterText module v) →
    m'.get? key = m.get? key

variable (catalog : Catalog) (o : Options) (module : String) (fs : Files) (m : Metrics)
  (outline listing : Except ReadFault String)

/-- How the counters after a run with the given reads stand to its result. -/
structure Recording (out : Outcome) : Prop where
  /-- A failure before the last stage leaves them as they were. -/
  stopped : ∀ e, out.result = .error e → e.stage ≠ .save →
    prepare catalog o (.ofModule module o) outline listing = .error e ∧ out.metrics = m
  /-- A failure of the last stage leaves the values of the run in them, though it leaves nothing in
  the tree of files. -/
  unsaved : ∀ e, out.result = .error e → e.stage = .save → out.files = fs ∧
    ∃ s, prepare catalog o (.ofModule module o) outline listing = .ok s ∧
      Recorded module s m out.metrics
  /-- This goes unnoticed only for an outline without functions, and counters that are there. -/
  unnoticed : ∀ e, out.result = .error e → ((∀ key, out.metrics.get? key = m.get? key) ↔
    (e.stage = .save → ∃ s, prepare catalog o (.ofModule module o) outline listing = .ok s ∧
      s.functions = [] ∧
        ∀ v ∈ Metrics.runValues s.report s.total, (m.get? (counterText module v)).isSome))
  saved : ∀ s, out.result = .ok s →
    prepare catalog o (.ofModule module o) outline listing = .ok s ∧
      Recorded module s m out.metrics
  /-- The cycles that a run records are those that it writes. So are the instructions, if all that
  counts has cycles. -/
  written : ∀ s, out.result = .ok s →
    out.files.readText (Paths.ofModule module o).output =
        .ok (Outline.write (s.functions.map Outline.Func.emitted)) ∧
      s.total.cycles = (Outline.total (s.functions.map Outline.Func.emitted)).cycles ∧
      (s.total.instructions =
        (Outline.total (s.functions.map Outline.Func.emitted)).instructions ↔
          Outline.Priced s.functions)

variable {catalog o module fs m outline listing} {paths : Paths} {s : Summary} {e : RunError}
  {m' : Metrics}

theorem recorded_addRun (module : String) (s : Summary) (m : Metrics) :
    Recorded module s m (m.addRun module s.report s.total) :=
  ⟨fun _ hv => Metrics.get?_addRun m module hv, fun _ h => Metrics.get?_addRun_of_ne m module h⟩

/-- The counters are what they were exactly if they were there and nothing is added. -/
theorem Recorded.unchanged_iff (h : Recorded module s m m') :
    (∀ key, m'.get? key = m.get? key) ↔ ∀ v ∈ Metrics.runValues s.report s.total,
      v.2 = 0 ∧ (m.get? (counterText module v)).isSome := by
  constructor
  · intro hsame v hv
    have hown := h.own v hv
    rw [hsame] at hown
    cases hold : m.get? (counterText module v) with
    | none =>
      rw [hold] at hown
      cases hown
    | some n =>
      rw [hold, Option.getD_some, Option.some.injEq] at hown
      exact ⟨by omega, rfl⟩
  · intro hzero key
    by_cases hkey : ∀ v ∈ Metrics.runValues s.report s.total, key ≠ counterText module v
    · exact h.others key hkey
    · push Not at hkey
      obtain ⟨v, hv, rfl⟩ := hkey
      obtain ⟨hv0, hsome⟩ := hzero v hv
      obtain ⟨n, hn⟩ := Option.isSome_iff_exists.1 hsome
      rw [h.own v hv, hn, hv0, Option.getD_some, Nat.add_zero]

/-- A computation fails in its first part, in the words of the whole, or in the rest. -/
theorem bind_mapError_eq_error {ε ε' α β : Type} {x : Except ε α} {f : ε → ε'}
    {g : α → Except ε' β} {e : ε'} (h : x.mapError f >>= g = .error e) :
    (∃ e', f e' = e) ∨ ∃ a, g a = .error e := by
  rcases bind_eq_error h with h | ⟨a, _, h⟩
  · obtain ⟨e', _, he⟩ := mapError_eq_error h
    exact .inl ⟨e', he⟩
  · exact .inr ⟨a, h⟩

/-- The stages before the last do not report a failure of the last. -/
theorem stage_ne_save_of_prepare (h : prepare catalog o paths outline listing = .error e) :
    e.stage ≠ .save := by
  rw [prepare] at h
  intro hsave
  -- the reads, what is read of them, and the merge, each with errors of its own
  rcases bind_mapError_eq_error h with ⟨_, rfl⟩ | ⟨_, h⟩
  · cases hsave
  rcases bind_mapError_eq_error h with ⟨_, rfl⟩ | ⟨_, h⟩
  · cases hsave
  rcases bind_mapError_eq_error h with ⟨_, rfl⟩ | ⟨_, h⟩
  · cases hsave
  rcases bind_mapError_eq_error h with ⟨_, rfl⟩ | ⟨_, h⟩
  · cases hsave
  rcases bind_mapError_eq_error h with ⟨_, rfl⟩ | ⟨_, h⟩
  · cases hsave
  cases h

/-- The values of a run are all zero if the outline has no function, since each counts as matched or
as unmatched. -/
theorem runValues_eq_zero_iff (h : prepare catalog o paths outline listing = .ok s) :
    (∀ v ∈ Metrics.runValues s.report s.total, v.2 = 0) ↔ s.functions = [] := by
  obtain ⟨_, _, fs, asm, _, _, _, _, hmerge, _, htotal⟩ := prepare_eq_ok_iff.1 h
  obtain ⟨_, hfunctions, hreport⟩ := Attribution.merge_eq_ok_iff.1 hmerge
  constructor
  · intro hzero
    have hmatched := hzero ("inststat_functions_matched_total", s.report.functionsMatched)
      (by simp [Metrics.runValues])
    have hunmatched := hzero ("inststat_functions_unmatched_total", s.report.functionsUnmatched)
      (by simp [Metrics.runValues])
    have hlength : s.report.functionsMatched + s.report.functionsUnmatched = fs.length := by
      rw [hreport]
      exact Attribution.functions_eq o.skips asm fs
    have hfs : fs = [] := List.length_eq_zero_iff.1 (by omega)
    rw [hfunctions, hfs, List.map_nil]
  · intro hnil
    have hfs : fs = [] := List.map_eq_nil_iff.1 (hfunctions.symm.trans hnil)
    have hreport : s.report = .zero := by
      rw [hreport, hfs]
      rfl
    have htotal : s.total = .zero := by
      rw [htotal, hnil]
      rfl
    rw [hreport, htotal]
    decide

theorem Recorded.unnoticed_iff (h : Recorded module s m m')
    (hs : prepare catalog o paths outline listing = .ok s) :
    (∀ key, m'.get? key = m.get? key) ↔ s.functions = [] ∧
      ∀ v ∈ Metrics.runValues s.report s.total, (m.get? (counterText module v)).isSome := by
  rw [h.unchanged_iff, ← runValues_eq_zero_iff hs]
  exact forall₂_and

/-- What a run that succeeds has put into its output, and what of it is in its total. -/
theorem written_of_prepare (hs : prepare catalog o paths outline listing = .ok s) :
    Outline.write (s.functions.map Outline.Func.emitted) = Outline.write s.functions ∧
      s.total.cycles = (Outline.total (s.functions.map Outline.Func.emitted)).cycles ∧
      (s.total.instructions =
        (Outline.total (s.functions.map Outline.Func.emitted)).instructions ↔
          Outline.Priced s.functions) := by
  obtain ⟨_, _, _, _, _, hfs, _, _, hmerge, _, htotal⟩ := prepare_eq_ok_iff.1 hs
  have hwritable := Outline.writable_of_merge hmerge (Outline.writable_of_read hfs)
  rw [htotal]
  exact ⟨Outline.write_emitted hwritable, Outline.cycles_total_emitted s.functions,
    Outline.instructions_total_emitted_eq_iff⟩

theorem recording_of_stopped
    (h : prepare catalog o (.ofModule module o) outline listing = .error e) :
    Recording catalog o module fs m outline listing ⟨.error e, fs, m⟩ := by
  have hstage := stage_ne_save_of_prepare h
  refine ⟨?_, ?_, ?_, nofun, nofun⟩
  · rintro e ⟨⟩ _
    exact ⟨h, rfl⟩
  · rintro e ⟨⟩ hsave
    exact absurd hsave hstage
  · rintro e ⟨⟩
    exact ⟨fun _ hsave => absurd hsave hstage, fun _ _ => rfl⟩

theorem recording_of_unsaved (h : prepare catalog o (.ofModule module o) outline listing = .ok s) :
    Recording catalog o module fs m outline listing
      ⟨.error (.unwritable (Paths.ofModule module o).output), fs,
        m.addRun module s.report s.total⟩ := by
  have hrecorded := recorded_addRun module s m
  refine ⟨?_, ?_, ?_, nofun, nofun⟩
  · rintro e ⟨⟩ hstage
    exact absurd rfl hstage
  · rintro e ⟨⟩ _
    exact ⟨rfl, s, h, hrecorded⟩
  · rintro e ⟨⟩
    rw [hrecorded.unnoticed_iff h]
    constructor
    · intro hsame _
      exact ⟨s, h, hsame⟩
    · intro hsame
      obtain ⟨s', h', hsame⟩ := hsame rfl
      obtain rfl := Except.ok.inj (h'.symm.trans h)
      exact hsame

theorem recording_of_saved {files : Files}
    (h : prepare catalog o (.ofModule module o) outline listing = .ok s)
    (hread : files.readText (Paths.ofModule module o).output =
      .ok (Outline.write s.functions)) :
    Recording catalog o module fs m outline listing
      ⟨.ok s, files, m.addRun module s.report s.total⟩ := by
  refine ⟨nofun, nofun, nofun, ?_, ?_⟩
  · rintro s ⟨⟩
    exact ⟨h, recorded_addRun module s m⟩
  · rintro s ⟨⟩
    obtain ⟨hwrite, htotal⟩ := written_of_prepare h
    rw [hwrite]
    exact ⟨hread, htotal⟩

/-- A run records what it has found before it saves. If one of the stages before the save fails, in
whatever way, all counters are what they were. If the save fails, the counters of the module have
grown by the values of the run all the same, which shows unless there are no functions at all. If it
succeeds, they have grown by these values, of which the cycles are those that have been written. -/
theorem run_recording (catalog : Catalog) (o : Options) (module : String) (fs : Files)
    (m : Metrics) :
    Goes catalog o module fs m (fs.readText (Paths.ofModule module o).outline)
      (fs.readText (Paths.ofModule module o).listing) (run catalog o module fs m) ∧
    ∀ outline listing out, Goes catalog o module fs m outline listing out →
      Recording catalog o module fs m outline listing out := by
  refine ⟨goes_run, fun outline listing out hgoes => ?_⟩
  have hall := hgoes.allOrNothing
  cases hgoes with
  | stopped h => exact recording_of_stopped h
  | unsaved h _ =>
    obtain rfl := hall.nothing _ rfl
    exact recording_of_unsaved h
  | saved h _ => exact recording_of_saved h (hall.all _ rfl).2.read

/-- An output that goes to a directory of its own. -/
def apartOptions : Options := { Options.default with outputDir := some "out" }

def apartSummary : Summary where
  paths := ⟨"m.bbinfo.txt", "m.s", "out/m.inststat.txt"⟩
  report := ⟨1, 0, 1, 0, 0, 0⟩
  functions := [⟨"f", ⟨"a", 3⟩, .line,
    [{ Outline.Block.named "entry" with lines := .ofList [(3, ⟨0, 1, 0, 0, 0, 0, 2⟩)] }]⟩]
  total := ⟨0, 1, 0, 0, 0, 0, 2⟩

/-- There is no such directory: two cycles are recorded, and nothing is written. -/
theorem run_recording_apart :
    (run .builtin apartOptions "m" (oneLoadFiles "m.s") .empty).result =
        .error (.unwritable "out/m.inststat.txt") ∧
      (run .builtin apartOptions "m" (oneLoadFiles "m.s") .empty).files = oneLoadFiles "m.s" ∧
      (run .builtin apartOptions "m" (oneLoadFiles "m.s") .empty).metrics.get?
        "inststat_cycles_total\x7bmodule=m\x7d" = some 2 ∧
      ¬ ∀ key, (run .builtin apartOptions "m" (oneLoadFiles "m.s") .empty).metrics.get? key =
        Metrics.empty.get? key := by
  have hprepare : prepare .builtin apartOptions (.ofModule "m" apartOptions)
      ((oneLoadFiles "m.s").readText (Paths.ofModule "m" apartOptions).outline)
      ((oneLoadFiles "m.s").readText (Paths.ofModule "m" apartOptions).listing) =
        .ok apartSummary := by
    decide +kernel
  have htarget : (oneLoadFiles "m.s").target? (Paths.ofModule "m" apartOptions).output = none := by
    decide +kernel
  have hresult : (run .builtin apartOptions "m" (oneLoadFiles "m.s") .empty).result =
      .error (.unwritable "out/m.inststat.txt") := by
    rw [run_of_target?_eq_none hprepare htarget]
    decide +kernel
  obtain ⟨hgoes, hall⟩ := run_recording .builtin apartOptions "m" (oneLoadFiles "m.s") .empty
  have hrecording := hall _ _ _ hgoes
  obtain ⟨hfiles, s, hs, hrecorded⟩ := hrecording.unsaved _ hresult rfl
  obtain rfl := Except.ok.inj (hprepare.symm.trans hs)
  have hcycles := hrecorded.own ("inststat_cycles_total", 2) (by decide)
  have hkey : counterText "m" ("inststat_cycles_total", 2) =
      "inststat_cycles_total\x7bmodule=m\x7d" := by
    decide
  rw [hkey] at hcycles
  refine ⟨hresult, hfiles, hcycles, fun hsame => ?_⟩
  obtain ⟨s, hs, hnone, _⟩ := (hrecording.unnoticed _ hresult).1 hsame rfl
  obtain rfl := Except.ok.inj (hprepare.symm.trans hs)
  cases hnone

end LineCost.Run
