import LineCost.Proofs.Checked
import LineCost.Proofs.Listing.Pass

/-!
Reading a listing with counters that have a limit. As long as the reader gets on, it finds what it
would find without the limit.
-/

namespace LineCost.Listing

namespace Trace

variable {t u : Trace} {c : Cost} {table : Table} {line : Line}

theorem onCurrent_of_checkedOnCurrent (h : t.checkedOnCurrent c = .ok u) :
    t.onCurrent (·.record c) = u := by
  rw [checkedOnCurrent] at h
  rw [onCurrent]
  cases hb : t.blocks with
  | nil =>
    rw [hb] at h
    exact Except.ok.inj h
  | cons b before =>
    rw [hb] at h
    obtain ⟨tally, htally, h⟩ := bind_eq_ok h
    rw [← Except.ok.inj h, ← Tally.record_of_checkedRecord htally]
    rfl

theorem count_of_checkedCount (h : t.checkedCount c = .ok u) : t.count c = u := by
  obtain ⟨v, hv, h⟩ := bind_eq_ok h
  rw [count_eq, onCurrent_of_checkedOnCurrent hv]
  cases hrow : v.row with
  | none =>
    rw [hrow] at h
    exact Except.ok.inj h
  | some n =>
    cases hc : c.isCounted with
    | false =>
      simp only [hrow, hc] at h
      exact Except.ok.inj h
    | true =>
      simp only [hrow, hc, if_true] at h
      obtain ⟨tally, htally, h⟩ := bind_eq_ok h
      rw [← Except.ok.inj h, ← Tally.record_of_checkedRecord htally]
      simp only [if_true, Tally.record, LineMap.insert_eq_addAt, hrow]

theorem step_of_checkedStep (h : t.checkedStep table line = .ok u) : t.step table line = u := by
  cases line with
  | instruction mnemonic => exact count_of_checkedCount h
  | _ => exact Except.ok.inj h

end Trace

theorem OpenFunc.step_of_checkedStep {f g : OpenFunc} {line : Line}
    (h : f.checkedStep line = .ok g) : f.step line = g := by
  obtain ⟨trace, htrace, h⟩ := bind_eq_ok h
  rw [← Except.ok.inj h, ← Trace.step_of_checkedStep htrace]
  rfl

theorem OpenFunc.close_of_checkedClose {f : OpenFunc} {g : Func} (h : f.checkedClose = .ok g) :
    f.close = g := by
  obtain ⟨_, _, h⟩ := bind_eq_ok h
  exact Except.ok.inj h

namespace Pass

variable {catalog : Catalog} {p q : Pass} {n : Nat} {line : Line}

theorem take_of_checkedTake (h : p.checkedTake line = .ok q) : p.take line = q := by
  rw [checkedTake] at h
  cases hf : p.open? with
  | none =>
    rw [hf] at h
    obtain rfl := Except.ok.inj h
    rw [take, hf, Option.map_none, ← hf]
  | some f =>
    rw [hf] at h
    obtain ⟨g, hg, h⟩ := bind_eq_ok h
    rw [take, hf, Option.map_some, OpenFunc.step_of_checkedStep hg]
    exact Except.ok.inj h

theorem close_of_checkedClose (h : p.checkedClose = .ok q) : p.close = q := by
  rw [checkedClose] at h
  rw [close]
  cases hf : p.open? with
  | none =>
    rw [hf] at h
    exact Except.ok.inj h
  | some f =>
    rw [hf] at h
    obtain ⟨g, hg, h⟩ := bind_eq_ok h
    rw [← Except.ok.inj h, ← OpenFunc.close_of_checkedClose hg]

theorem step_of_checkedStep {r : Except ReadError Pass}
    (h : p.checkedStep catalog n line = .ok r) : p.step catalog n line = r := by
  cases line with
  | closing =>
    obtain ⟨q, hq, h⟩ := bind_eq_ok h
    obtain rfl := close_of_checkedClose hq
    exact Except.ok.inj h
  | instruction mnemonic =>
    obtain ⟨q, hq, h⟩ := bind_eq_ok h
    obtain rfl := take_of_checkedTake hq
    exact Except.ok.inj h
  | _ => exact Except.ok.inj h

theorem run_of_checkedRun {ls : List (Nat × Line)} {r : Except ReadError Pass}
    (h : p.checkedRun catalog ls = .ok r) : p.run catalog ls = r := by
  induction ls generalizing p with
  | nil => exact Except.ok.inj h
  | cons l ls ih =>
    obtain ⟨n, line⟩ := l
    rw [checkedRun] at h
    obtain ⟨next, hnext, h⟩ := bind_eq_ok h
    rw [run, step_of_checkedStep hnext]
    cases next with
    | error e => exact Except.ok.inj h
    | ok q => exact ih h

end Pass

theorem read_of_checkedRead {catalog : Catalog} {cpu : Option String} {text : String}
    {r : Except ReadError (List Func)} (h : checkedRead catalog cpu text = .ok r) :
    read catalog cpu text = r := by
  obtain ⟨p, hp, h⟩ := bind_eq_ok h
  rw [read_eq_throughout, Pass.throughout, Pass.result, Pass.run_of_checkedRun hp]
  exact Except.ok.inj h

end LineCost.Listing
