import LineCost.Cost.Builtin
import LineCost.Proofs.Run.Drafts
import LineCost.Proofs.Run.Stages

/-!
A run is all or nothing. One that fails has left the tree of files as it was; one that succeeds has
put what it has computed, as a whole, where the path of its output leads, and has changed nothing
else.
-/

namespace LineCost.Run

open LineCost.Run.Path (Names)
open Relation (ReflTransGen)

/-- A tree has become another by a text put where a path leads. -/
structure Replaced (fs fs' : Files) (path text : String) : Prop where
  /-- That is the one change: any other place holds what it did. -/
  place : ∃ p, fs.LeadsTo path p ∧ fs.lookup? p ≠ some .directory ∧
    ∀ q, fs'.lookup? q = if q = p then some (.file text.toUTF8) else fs.lookup? q
  working : fs'.working = fs.working
  read : fs'.readText path = .ok text
  /-- A path that leads elsewhere reads what it did. -/
  others : ∀ p path' bytes, fs.LeadsTo path p → ¬ fs.LeadsTo path' p →
    (fs'.readBytes path' = .ok bytes ↔ fs.readBytes path' = .ok bytes)

theorem replaced_set {fs : Files} {path name text : String} {p : Place} (h : Names path name)
    (hp : fs.target? path = some p) : Replaced fs (fs.set p (.file text.toUTF8)) path text := by
  obtain ⟨hleads, hd⟩ := (Files.target?_eq_some_iff h).1 hp
  refine ⟨⟨p, hleads, hd, fun q => Files.lookup?_set fs p q _ (Files.ne_nil_of_not_directory hd)⟩,
    rfl, Files.readText_set_of_leadsTo h.isEmpty h.asksDirectory hleads hd, ?_⟩
  intro p' path' bytes hleads' hother
  obtain rfl := hleads.unique hleads'
  exact Files.readBytes_set_of_not_leadsTo hd hother

variable (catalog : Catalog) (o : Options) (module : String) (fs : Files) (m : Metrics)
  (outline listing : Except ReadFault String)

/-- The ways that a run can go once the reads have come to `outline` and `listing`, where anything
may end the work on the draft of the output. -/
inductive Goes : Outcome → Prop
  | stopped {e : RunError}
      (h : prepare catalog o (.ofModule module o) outline listing = .error e) :
      Goes ⟨.error e, fs, m⟩
  | unsaved {s : Summary} {files : Files}
      (h : prepare catalog o (.ofModule module o) outline listing = .ok s)
      (hsteps : ReflTransGen
        (Saving.Step (Paths.ofModule module o).output (Outline.write s.functions).toUTF8)
        ⟨.begun, fs⟩ ⟨.abandoned, files⟩) :
      Goes ⟨.error (.unwritable (Paths.ofModule module o).output), files,
        m.addRun module s.report s.total⟩
  | saved {s : Summary} {files : Files}
      (h : prepare catalog o (.ofModule module o) outline listing = .ok s)
      (hsteps : ReflTransGen
        (Saving.Step (Paths.ofModule module o).output (Outline.write s.functions).toUTF8)
        ⟨.begun, fs⟩ ⟨.saved, files⟩) :
      Goes ⟨.ok s, files, m.addRun module s.report s.total⟩

/-- What is left of a run with the given reads is all that it makes, or nothing. -/
structure AllOrNothing (out : Outcome) : Prop where
  /-- No stage before the reported one fails, and that one does, or the system has failed the
  last. -/
  first : ∀ e, out.result = .error e →
    (Fails catalog o (.ofModule module o) fs outline listing e ∨
      e = .unwritable (Paths.ofModule module o).output) ∧
      ∀ e', Fails catalog o (.ofModule module o) fs outline listing e' →
        e.stage.exitCode ≤ e'.stage.exitCode
  nothing : ∀ e, out.result = .error e → out.files = fs
  all : ∀ s, out.result = .ok s →
    (∀ e, ¬ Fails catalog o (.ofModule module o) fs outline listing e) ∧
      Replaced fs out.files (Paths.ofModule module o).output (Outline.write s.functions)

variable {catalog o module fs m outline listing} {out : Outcome}

/-- No stage fails if the ones before the last have not and there is a place for the output. -/
theorem not_fails_of_target? {s : Summary} {p : Place} {e : RunError}
    (h : prepare catalog o (.ofModule module o) outline listing = .ok s)
    (hp : fs.target? (Paths.ofModule module o).output = some p) :
    ¬ Fails catalog o (.ofModule module o) fs outline listing e := by
  intro he
  obtain ⟨name, hname⟩ := Paths.names_output module o
  obtain ⟨hleads, hd⟩ := (Files.target?_eq_some_iff hname).1 hp
  exact hd ((he.of_stage_save (he.stage_of_prepare h)).2 p hleads)

theorem Goes.allOrNothing (h : Goes catalog o module fs m outline listing out) :
    AllOrNothing catalog o module fs outline listing out := by
  obtain ⟨name, hname⟩ := Paths.names_output module o
  cases h with
  | stopped h =>
    refine ⟨?_, fun _ _ => rfl, nofun⟩
    rintro e ⟨⟩
    exact ⟨.inl (failsFirst_of_prepare h).1, (failsFirst_of_prepare h).2⟩
  | unsaved h hsteps =>
    refine ⟨?_, fun _ _ => Saving.Sound.run hname hsteps, nofun⟩
    rintro e ⟨⟩
    refine ⟨.inr rfl, fun e' he' => ?_⟩
    rw [he'.stage_of_prepare h]
    exact Nat.le_refl _
  | saved h hsteps =>
    obtain ⟨p, hp, rfl⟩ := Saving.Sound.run hname hsteps
    refine ⟨nofun, nofun, ?_⟩
    rintro s ⟨⟩
    exact ⟨fun e => not_fails_of_target? h hp, replaced_set hname hp⟩

/-- A run that the system does not fail goes one of the ways. -/
theorem goes_run : Goes catalog o module fs m (fs.readText (Paths.ofModule module o).outline)
    (fs.readText (Paths.ofModule module o).listing) (run catalog o module fs m) := by
  obtain ⟨name, hname⟩ := Paths.names_output module o
  obtain ⟨e, he, hrun⟩ | ⟨s, hs, ⟨hp, hrun⟩ | ⟨p, hp, hrun⟩⟩ := run_cases catalog o module fs m
  · rw [hrun]
    exact .stopped he
  · rw [hrun]
    exact .unsaved hs (.single .refuse)
  · rw [hrun]
    exact .saved hs (Saving.saved_of_target? hname hp)

/-- Without the system's doing, the last stage fails only where there is no place for the output. -/
theorem failsFirst_of_run {e : RunError} (h : (run catalog o module fs m).result = .error e) :
    FailsFirst catalog o (.ofModule module o) fs
      (fs.readText (Paths.ofModule module o).outline)
      (fs.readText (Paths.ofModule module o).listing) e := by
  obtain ⟨name, hname⟩ := Paths.names_output module o
  have hfirst := (goes_run.allOrNothing.first e h).2
  obtain ⟨e', he, hrun⟩ | ⟨s, hs, ⟨hp, hrun⟩ | ⟨p, hp, hrun⟩⟩ := run_cases catalog o module fs m
  · rw [hrun] at h
    cases h
    exact failsFirst_of_prepare he
  · rw [hrun] at h
    cases h
    refine ⟨.unwritable fun p hleads => ?_, hfirst⟩
    by_contra hd
    cases hp.symm.trans ((Files.target?_eq_some_iff hname).2 ⟨hleads, hd⟩)
  · rw [hrun] at h
    cases h

/-- A run fails exactly as the first stage that fails does. However it goes, even if the system fails
it in a read or in the work on the draft, it reports a failure of that stage and leaves the tree as
it was; or no stage fails, and it leaves its output at the one place where that belongs and all else
as it was. -/
theorem run_allOrNothing (catalog : Catalog) (o : Options) (module : String) (fs : Files)
    (m : Metrics) :
    (∀ e, (run catalog o module fs m).result = .error e ↔
      FailsFirst catalog o (.ofModule module o) fs
        (fs.readText (Paths.ofModule module o).outline)
        (fs.readText (Paths.ofModule module o).listing) e) ∧
    Goes catalog o module fs m (fs.readText (Paths.ofModule module o).outline)
      (fs.readText (Paths.ofModule module o).listing) (run catalog o module fs m) ∧
    ∀ outline listing out, Goes catalog o module fs m outline listing out →
      AllOrNothing catalog o module fs outline listing out := by
  refine ⟨fun e => ⟨failsFirst_of_run, fun he => ?_⟩, goes_run, fun _ _ _ => Goes.allOrNothing⟩
  cases hrun : (run catalog o module fs m).result with
  | error e' => rw [(failsFirst_of_run hrun).unique he]
  | ok s => exact absurd he.1 ((goes_run.allOrNothing.all s hrun).1 e)

/-- The files of a module whose listing leaves a function open, with an output of an earlier run. -/
def openListing : Files where
  working := ["w"]
  entries := [(["w"], .directory),
    (["w", "m.bbinfo.txt"], .file "func: f\n at: f.c:10\n block: entry\n  10:\n".toUTF8),
    (["w", "m.s"], .file "// -- Begin function f\n\tnop\n".toUTF8),
    (["w", "m.inststat.txt"], .file "previous\n".toUTF8)]

theorem run_allOrNothing_openListing :
    (run .builtin .default "m" openListing .empty).result =
        .error (.listing (.unterminated "f")) ∧
      (run .builtin .default "m" openListing .empty).files = openListing ∧
      FailsFirst .builtin .default ⟨"m.bbinfo.txt", "m.s", "m.inststat.txt"⟩ openListing
        (openListing.readText "m.bbinfo.txt") (openListing.readText "m.s")
        (.listing (.unterminated "f")) := by
  have hpaths : Paths.ofModule "m" .default = ⟨"m.bbinfo.txt", "m.s", "m.inststat.txt"⟩ := by
    decide
  have hresult : (run .builtin .default "m" openListing .empty).result =
      .error (.listing (.unterminated "f")) := by
    decide +kernel
  obtain ⟨hfirst, hgoes, hall⟩ := run_allOrNothing .builtin .default "m" openListing .empty
  refine ⟨hresult, (hall _ _ _ hgoes).nothing _ hresult, ?_⟩
  rw [hpaths] at hfirst
  exact (hfirst _).1 hresult

end LineCost.Run
