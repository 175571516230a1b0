import LineCost.Proofs.Attribution.Priced
import LineCost.Proofs.Listing.Priced
import LineCost.Proofs.Run.AllOrNothing
import LineCost.Proofs.Run.Counters

/-!
The totals of a run against the outline that it has written. All blocks that are not skipped count
towards the totals with all their tallies, but a tally without cycles is not written. So what is
written falls short by the instructions on such tallies. These come from the outline that was read or
from tables in which an instruction is free, and from nowhere else.
-/

namespace LineCost.Run

open Attribution (markSkipped)

/-- How the totals of a run that has come to `s` stand to what is found after it. -/
structure Accounts (catalog : Catalog) (o : Options) (module : String) (fs : Files) (m : Metrics)
    (s : Summary) (out : Outcome) : Prop where
  written : out.files.readText (Paths.ofModule module o).output = .ok (Outline.write s.functions)
  /-- The counters of the module take in the total, whether or not all of it is written. -/
  counted : ∀ v ∈ Metrics.runValues s.report s.total,
    out.metrics.get? (CounterKey.ofRun module v.1).text =
      some ((m.get? (CounterKey.ofRun module v.1).text).getD 0 + v.2)
  readable : (∃ gs, Outline.read (Outline.write s.functions) = .ok gs) ↔
    ∀ f ∈ s.functions, f.emitted.Fits
  /-- What is read back falls short of the total by what has not been written, in which there are no
  cycles. -/
  short : ∀ gs, Outline.read (Outline.write s.functions) = .ok gs →
    s.total = Outline.total gs + Outline.unwritten s.functions ∧
      s.total.cycles = (Outline.total gs).cycles
  equal : ∀ gs, Outline.read (Outline.write s.functions) = .ok gs →
    (s.total = Outline.total gs ↔ Outline.Priced s.functions)
  /-- If no instruction is free, then for no listing anything is left out of an outline in which all
  that counts has cycles, and for some listing something is left out of any other. -/
  safe : (∀ t ∈ catalog.tables, t.Priced) → ∀ text functions,
    fs.readText (Paths.ofModule module o).outline = .ok text →
    Outline.read text = .ok functions →
    ((∀ listing s', prepare catalog o (.ofModule module o) (.ok text) (.ok listing) = .ok s' →
      Outline.unwritten s'.functions = .zero) ↔
      Outline.Priced (functions.map (markSkipped o.skips)))

variable {catalog : Catalog} {o : Options} {paths : Paths} {module : String} {fs : Files}
  {m : Metrics} {s : Summary} {outline listing : Except ReadFault String} {text : String}
  {functions : List Outline.Func}

/-- An empty listing leaves an outline as it is but for the blocks that are left out. -/
theorem prepare_empty (catalog : Catalog) (o : Options) (paths : Paths)
    (hread : Outline.read text = .ok functions) :
    ∃ s, prepare catalog o paths (.ok text) (.ok "") = .ok s ∧
      s.functions = functions.map (markSkipped o.skips) := by
  obtain ⟨report, hmerge⟩ : ∃ report, Attribution.merge o.skips [] functions =
      .ok (functions.map (markSkipped o.skips), report) :=
    ⟨_, Attribution.merge_eq_ok_iff.2 ⟨List.nodup_nil, rfl, rfl⟩⟩
  refine ⟨⟨paths, report, _, Outline.total (functions.map (markSkipped o.skips))⟩, ?_, rfl⟩
  exact prepare_eq_ok_iff.2 ⟨text, "", functions, [], rfl, hread, rfl, rfl, hmerge, rfl, rfl⟩

/-- With tables in which nothing is free, a run makes no tally that is not written. -/
theorem priced_of_prepare {listing : String} (hc : ∀ t ∈ catalog.tables, t.Priced)
    (hread : Outline.read text = .ok functions)
    (h : prepare catalog o paths (.ok text) (.ok listing) = .ok s)
    (hp : Outline.Priced (functions.map (markSkipped o.skips))) : Outline.Priced s.functions := by
  obtain ⟨_, _, fs, asm, report, htext, hfs, hlisting, hasm, hmerge⟩ := stages_of_prepare h
  cases htext
  obtain rfl := Except.ok.inj (hfs.symm.trans hread)
  exact Attribution.priced_of_merge hmerge (Listing.priced_of_read hc hasm) hp

theorem run_accounts (h : (run catalog o module fs m).result = .ok s) :
    Accounts catalog o module fs m s (run catalog o module fs m) := by
  obtain ⟨hs, p, hp⟩ := run_eq_ok h
  have htotal := total_of_prepare hs
  obtain ⟨_, _, _, _, _, _, hfs, _, _, hmerge⟩ := stages_of_prepare hs
  have hwritable := Outline.writable_of_merge hmerge (Outline.writable_of_read hfs)
  have hback : ∀ gs, Outline.read (Outline.write s.functions) = .ok gs →
      gs = s.functions.map Outline.Func.emitted := by
    intro gs hgs
    have hfits := Outline.fits_of_read_write hwritable hgs
    exact Except.ok.inj (hgs.symm.trans (Outline.read_write hwritable hfits))
  refine ⟨?_, ?_, ?_, ?_, ?_, ?_⟩
  · exact (goes_run.allOrNothing.all s h).2.read
  · intro v hv
    rw [run_of_target?_eq_some hs hp]
    exact Metrics.get?_addRun m module hv
  · constructor
    · rintro ⟨gs, hgs⟩
      exact Outline.fits_of_read_write hwritable hgs
    · intro hfits
      exact ⟨_, Outline.read_write hwritable hfits⟩
  · intro gs hgs
    obtain rfl := hback gs hgs
    have hshort := Outline.total_eq_add_unwritten s.functions
    rw [htotal]
    refine ⟨hshort, ?_⟩
    rw [congrArg Tally.cycles hshort, Tally.cycles_add, Outline.cycles_unwritten, Nat.add_zero]
  · intro gs hgs
    obtain rfl := hback gs hgs
    rw [htotal]
    exact Outline.total_emitted_eq_iff
  · intro hc text functions _ hread
    constructor
    · intro hsafe
      obtain ⟨s', hs', hfunctions⟩ := prepare_empty catalog o (.ofModule module o) hread
      rw [← hfunctions]
      exact Outline.unwritten_eq_zero_iff.1 (hsafe "" s' hs')
    · intro hp listing s' hs'
      exact Outline.unwritten_eq_zero_iff.2 (priced_of_prepare hc hread hs' hp)

/-- A module with a line that is said to have a branch without cycles, and one that gets a load. -/
def unpricedFiles : Files where
  working := ["w"]
  entries := [(["w"], .directory),
    (["w", "m.bbinfo.txt"],
      .file "func: f\n at: a:3\n block: entry\n  3: 1, 0, 0, 0, 0, 0, 0\n  4:\n".toUTF8),
    (["w", "m.s"], .file ("// -- Begin function f\n\t.loc\t1 3 0 // a:3:0\n" ++
      "\t.loc\t1 4 0 // a:4:0\n\tldr\tx0, [x1]\n// -- End function\n").toUTF8)]

def unpricedSummary : Summary where
  paths := ⟨"m.bbinfo.txt", "m.s", "m.inststat.txt"⟩
  report := ⟨1, 0, 1, 0, 0, 0⟩
  functions := [⟨"f", ⟨"a", 3⟩, .line, [{ Outline.Block.named "entry" with
    lines := .ofList [(3, ⟨1, 0, 0, 0, 0, 0, 0⟩), (4, ⟨0, 1, 0, 0, 0, 0, 2⟩)] }]⟩]
  total := ⟨1, 1, 0, 0, 0, 0, 2⟩

/-- The branch is in the total and in the counter of instructions, but not in the output. -/
theorem run_accounts_unpriced :
    (run .builtin .default "m" unpricedFiles .empty).result = .ok unpricedSummary ∧
      (run .builtin .default "m" unpricedFiles .empty).files.readText "m.inststat.txt" =
        .ok "func: f\n at: a:3\n block: entry\n  4: 0, 1, 0, 0, 0, 0, 2\n" ∧
      (run .builtin .default "m" unpricedFiles .empty).metrics.get?
        "inststat_instructions_total\x7bmodule=m\x7d" = some 2 ∧
      ∃ gs, Outline.read (Outline.write unpricedSummary.functions) = .ok gs ∧
        Outline.total gs = ⟨0, 1, 0, 0, 0, 0, 2⟩ ∧
        unpricedSummary.total = Outline.total gs + ⟨1, 0, 0, 0, 0, 0, 0⟩ := by
  have hresult : (run .builtin .default "m" unpricedFiles .empty).result =
      .ok unpricedSummary := by
    decide +kernel
  obtain ⟨hwritten, hcounted, _, hshort, _, _⟩ := run_accounts hresult
  have hpaths : Paths.ofModule "m" .default = ⟨"m.bbinfo.txt", "m.s", "m.inststat.txt"⟩ := by
    decide
  have htext : Outline.write unpricedSummary.functions =
      "func: f\n at: a:3\n block: entry\n  4: 0, 1, 0, 0, 0, 0, 2\n" := by
    decide +kernel
  rw [hpaths, htext] at hwritten
  have hkey : (CounterKey.ofRun "m" "inststat_instructions_total").text =
      "inststat_instructions_total\x7bmodule=m\x7d" := by
    decide
  have hinstructions := hcounted ("inststat_instructions_total", 2) (by decide)
  rw [hkey] at hinstructions
  have hread : Outline.read (Outline.write unpricedSummary.functions) =
      .ok (unpricedSummary.functions.map Outline.Func.emitted) := by
    decide +kernel
  have hunwritten : Outline.unwritten unpricedSummary.functions = ⟨1, 0, 0, 0, 0, 0, 0⟩ := by
    decide +kernel
  have htotal := (hshort _ hread).1
  rw [hunwritten] at htotal
  exact ⟨hresult, hwritten, hinstructions, _, hread, by decide +kernel, htotal⟩

end LineCost.Run
