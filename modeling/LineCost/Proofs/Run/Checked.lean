import LineCost.Proofs.Attribution.Checked
import LineCost.Proofs.Listing.Checked
import LineCost.Proofs.Run.Accumulation
import LineCost.Run.Basic

/-!
A run whose counters have a limit. As long as no addition goes beyond it, stage by stage the run
does what it would do without: it fails with the same error or comes to the same summary, and leaves
the same files and the same counters.
-/

namespace LineCost

namespace Outline

theorem Block.total_of_checkedTotal {b : Block} {t : Tally} (h : b.checkedTotal = .ok t) :
    b.total = t :=
  (Tally.foldlM_checkedAdd_eq_ok h).1

theorem Func.total_of_checkedTotal {f : Func} {t : Tally} (h : f.checkedTotal = .ok t) :
    f.total = t :=
  Tally.sum_of_checkedSumOf (fun _ _ => Block.total_of_checkedTotal) h

theorem total_of_checkedTotal {fs : List Func} {t : Tally} (h : checkedTotal fs = .ok t) :
    total fs = t :=
  Tally.sum_of_checkedSumOf (fun _ _ => Func.total_of_checkedTotal) h

end Outline

namespace Run

variable {catalog : Catalog} {o : Options} {paths : Paths}
  {outline listing : Except ReadFault String}

theorem prepare_of_checkedPrepare {r : Except RunError Summary}
    (h : checkedPrepare catalog o paths outline listing = .ok r) :
    prepare catalog o paths outline listing = r := by
  cases outline with
  | error fault => exact Except.ok.inj h
  | ok outline =>
    obtain ⟨functions, hfunctions, h⟩ := bind_eq_ok h
    have hfunctions := Outline.read_of_checkedRead hfunctions
    cases functions with
    | error e =>
      simp only [prepare, Except.mapError, ok_bind, hfunctions]
      exact Except.ok.inj h
    | ok functions =>
      cases listing with
      | error fault =>
        simp only [prepare, Except.mapError, ok_bind, hfunctions]
        exact Except.ok.inj h
      | ok listing =>
        obtain ⟨asm, hasm, h⟩ := bind_eq_ok h
        have hasm := Listing.read_of_checkedRead hasm
        cases asm with
        | error e =>
          simp only [prepare, Except.mapError, ok_bind, hfunctions, hasm]
          exact Except.ok.inj h
        | ok asm =>
          obtain ⟨merged, hmerged, h⟩ := bind_eq_ok h
          have hmerged := Attribution.merge_of_checkedMerge hmerged
          cases merged with
          | error d =>
            simp only [prepare, Except.mapError, ok_bind, hfunctions, hasm, hmerged]
            exact Except.ok.inj h
          | ok merged =>
            obtain ⟨functions, report⟩ := merged
            obtain ⟨total, htotal, h⟩ := bind_eq_ok h
            obtain rfl := Outline.total_of_checkedTotal htotal
            simp only [prepare, Except.mapError, ok_bind, hfunctions, hasm, hmerged]
            exact Except.ok.inj h

/-- A run with checked additions that comes to an end does what the run without does. -/
theorem run_of_checkedRun {module : String} {fs : Files} {m : Metrics} {out : Outcome}
    (h : checkedRun catalog o module fs m = .ok out) : run catalog o module fs m = out := by
  obtain ⟨summary, hsummary, h⟩ := bind_eq_ok h
  rw [run, prepare_of_checkedPrepare hsummary]
  cases summary with
  | error e => exact Except.ok.inj h
  | ok s =>
    obtain ⟨m', hm', h⟩ := bind_eq_ok h
    simp only [Metrics.addRun_of_checkedAddRun hm']
    cases hfiles : fs.replace? (Paths.ofModule module o).output (Outline.write s.functions) with
    | none =>
      simp only [hfiles] at h
      exact Except.ok.inj h
    | some fs' =>
      simp only [hfiles] at h
      exact Except.ok.inj h

end Run

end LineCost
