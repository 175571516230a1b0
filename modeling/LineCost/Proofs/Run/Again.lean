import LineCost.Cost.Builtin
import LineCost.Proofs.Run.Drafts
import LineCost.Proofs.Run.Stages

/-!
Running again. A run leaves the outline that it has read alone, and the listing too, unless the path
of the listing leads where the output goes; only an unusual ending of the listing's name can bring
that about. Else a second run gives what the first has given, and changes no file.
-/

namespace LineCost.Run

/-- Both paths lead to one place. -/
def Files.Meet (fs : Files) (path path' : String) : Prop :=
  ∃ p, fs.LeadsTo path p ∧ fs.LeadsTo path' p

variable (catalog : Catalog) (o : Options) (module : String) (fs fs' : Files) (s : Summary)

/-- What is found and done in the tree `fs'` after a run in `fs` that has come to `s`. -/
structure Repeats : Prop where
  /-- The outline is what it was, whatever the options. -/
  outline : fs'.readText (Paths.ofModule module o).outline =
    fs.readText (Paths.ofModule module o).outline
  /-- So is the listing, and a second run gives the same. -/
  again : ¬ fs.Meet (Paths.ofModule module o).output (Paths.ofModule module o).listing →
    fs'.readText (Paths.ofModule module o).listing =
        fs.readText (Paths.ofModule module o).listing ∧
      ∀ m, run catalog o module fs' m = ⟨.ok s, fs', m.addRun module s.report s.total⟩
  /-- Where the output goes to the place of the listing, it is the listing from then on. -/
  overwritten : fs.Meet (Paths.ofModule module o).output (Paths.ofModule module o).listing →
    fs'.readText (Paths.ofModule module o).listing = .ok (Outline.write s.functions)
  /-- An ordinary ending of the listing's name keeps it from that place. -/
  apart : '/' ∉ o.listingSuffix.toList → (∃ c ∈ o.listingSuffix.toList, c ≠ '.') →
    ¬ outputSuffix.toList <:+ o.listingSuffix.toList →
    ¬ fs.Meet (Paths.ofModule module o).output (Paths.ofModule module o).listing

variable {catalog o module fs s} {m : Metrics}

theorem run_repeats (h : (run catalog o module fs m).result = .ok s) :
    Repeats catalog o module fs (run catalog o module fs m).files s := by
  obtain ⟨name, hname⟩ := Paths.names_output module o
  obtain ⟨hs, p, hp⟩ := run_eq_ok h
  obtain ⟨text, text', _, _, _, houtline, _, hlisting, _⟩ := stages_of_prepare hs
  obtain ⟨hleads, hd⟩ := (Files.target?_eq_some_iff hname).1 hp
  rw [run_of_target?_eq_some hs hp]
  have hoffOutline : ¬ fs.LeadsTo (Paths.ofModule module o).outline p :=
    Paths.not_leadsTo_append (by decide) ⟨'b', by decide, by decide⟩ (by decide) hleads
  have hkept : ∀ path text, ¬ fs.LeadsTo path p → fs.readText path = .ok text →
      (fs.set p (.file (Outline.write s.functions).toUTF8)).readText path = .ok text :=
    fun path text hoff => (Files.readText_set_of_not_leadsTo hd hoff).2
  refine ⟨?_, ?_, ?_, ?_⟩
  · rw [hkept _ _ hoffOutline houtline, houtline]
  · intro hmeet
    have hoff : ¬ fs.LeadsTo (Paths.ofModule module o).listing p :=
      fun hlisting => hmeet ⟨p, hleads, hlisting⟩
    refine ⟨by rw [hkept _ _ hoff hlisting, hlisting], fun m => ?_⟩
    have hs' := hs
    rw [houtline, hlisting, ← hkept _ _ hoffOutline houtline, ← hkept _ _ hoff hlisting] at hs'
    rw [run_of_target?_eq_some hs' ((Files.target?_set_eq_some_iff hname hd).2 hp), Files.set_set]
  · rintro ⟨q, hq, hq'⟩
    obtain rfl := hleads.unique hq
    obtain ⟨bytes, hbytes, _⟩ := Files.readText_eq_ok_iff.1 hlisting
    obtain ⟨hempty, hform, _⟩ := Files.readBytes_eq_ok_iff.1 hbytes
    exact Files.readText_set_of_leadsTo hempty hform hq' hd
  · rintro hslash hdots hends ⟨q, hq, hq'⟩
    exact Paths.not_leadsTo_append hslash hdots hends hq hq'

def oneLoadListing : String :=
  "// -- Begin function f\n\t.loc\t1 3 0 // a:3:0\n\tldr\tx0, [x1]\n// -- End function\n"

/-- The files of a module `m` with a listing under a name. -/
def oneLoadFiles (listing : String) : Files where
  working := ["w"]
  entries := [(["w"], .directory),
    (["w", "m.bbinfo.txt"], .file "func: f\n at: a:3\n block: entry\n  3:\n".toUTF8),
    (["w", listing], .file oneLoadListing.toUTF8)]

/-- A run over them for a Cortex-A57. -/
def oneLoadRun (suffix : String) (fs : Files) : Outcome :=
  run .builtin ⟨suffix, some CortexA57.name, Attribution.defaultSkips, none⟩ "m" fs .empty

def oneLoadSummary (suffix : String) : Summary where
  paths := ⟨"m.bbinfo.txt", "m" ++ suffix, "m.inststat.txt"⟩
  report := ⟨1, 0, 1, 0, 0, 0⟩
  functions := [⟨"f", ⟨"a", 3⟩, .line,
    [{ Outline.Block.named "entry" with lines := .ofList [(3, ⟨0, 1, 0, 0, 0, 0, 4⟩)] }]⟩]
  total := ⟨0, 1, 0, 0, 0, 0, 4⟩

theorem run_repeats_oneLoad :
    (oneLoadRun ".s" (oneLoadFiles "m.s")).result = .ok (oneLoadSummary ".s") ∧
      (oneLoadRun ".s" (oneLoadRun ".s" (oneLoadFiles "m.s")).files).result =
        .ok (oneLoadSummary ".s") ∧
      (oneLoadRun ".s" (oneLoadRun ".s" (oneLoadFiles "m.s")).files).files =
        (oneLoadRun ".s" (oneLoadFiles "m.s")).files := by
  have hresult : (oneLoadRun ".s" (oneLoadFiles "m.s")).result =
      .ok (oneLoadSummary ".s") := by
    decide +kernel
  have hrepeats := run_repeats hresult
  have hagain : oneLoadRun ".s" (oneLoadRun ".s" (oneLoadFiles "m.s")).files =
      ⟨.ok (oneLoadSummary ".s"), (oneLoadRun ".s" (oneLoadFiles "m.s")).files, _⟩ :=
    (hrepeats.again (hrepeats.apart (by decide) ⟨'s', by decide, by decide⟩ (by decide))).2 .empty
  refine ⟨hresult, ?_, ?_⟩ <;> rw [hagain]

/-- A listing whose name ends as that of the output does is overwritten, and a second run finds no
function in what it is then. -/
theorem run_overwrites_listing :
    (oneLoadFiles "m.inststat.txt").readText "m.inststat.txt" = .ok oneLoadListing ∧
      (oneLoadRun ".inststat.txt" (oneLoadFiles "m.inststat.txt")).result =
        .ok (oneLoadSummary ".inststat.txt") ∧
      (oneLoadRun ".inststat.txt" (oneLoadFiles "m.inststat.txt")).files.readText
        "m.inststat.txt" =
        .ok "func: f\n at: a:3\n block: entry\n  3: 0, 1, 0, 0, 0, 0, 4\n" ∧
      (oneLoadRun ".inststat.txt"
        (oneLoadRun ".inststat.txt" (oneLoadFiles "m.inststat.txt")).files).result ≠
        .ok (oneLoadSummary ".inststat.txt") ∧
      (oneLoadRun ".inststat.txt"
        (oneLoadRun ".inststat.txt" (oneLoadFiles "m.inststat.txt")).files).files.readText
        "m.inststat.txt" = .ok "func: f\n at: a:3\n block: entry\n" := by
  decide +kernel

end LineCost.Run
