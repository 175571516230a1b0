import LineCost.Proofs.Checked
import LineCost.Proofs.Outline.Steps
import LineCost.Proofs.Text.Spelling

/-!
Reading an outline with counters that have a limit. What is read is what would be read without, and
the limit stands in the way only where the tallies given for one source line of a block come to
more. A line of the text adds to the tallies and takes nothing away, so that an outline that fits at
the end has fitted all along.
-/

namespace LineCost

theorem Tally.fits_of_read? {s : List Char} {t : Tally} (h : read? s = some t) : t.Fits := by
  obtain ⟨_, _, _, hfits⟩ := read?_eq_some_iff.1 h
  exact hfits

namespace Outline

/-- All counters of a block are within the limit of what can be read. -/
def Block.Fits (b : Block) : Prop := b.tally.Fits ∧ ∀ e ∈ b.lines.entries, e.2.Fits

def Func.Fits (f : Func) : Prop := ∀ b ∈ f.blocks, b.Fits

instance (b : Block) : Decidable b.Fits :=
  inferInstanceAs (Decidable (b.tally.Fits ∧ ∀ e ∈ b.lines.entries, e.2.Fits))

instance (f : Func) : Decidable f.Fits := inferInstanceAs (Decidable (∀ b ∈ f.blocks, b.Fits))

def OpenFunc.Fits (f : OpenFunc) : Prop := ∀ b ∈ f.blocks, b.Fits

/-- All counters of the item that is open, and of the function around it, are within the limit. -/
def Position.Fits : Position → Prop
  | .outside => True
  | .func _ => True
  | .body f => f.Fits
  | .block f _ => f.Fits
  | .size f _ _ => f.Fits
  | .start f _ _ _ => f.Fits
  | .span f _ _ => f.Fits
  | .tally f _ _ t => f.Fits ∧ t.Fits
  | .lines f _ m => f.Fits ∧ m.Fits

structure Progress.Fits (p : Progress) : Prop where
  done : ∀ f ∈ p.done, f.Fits
  position : p.position.Fits

/-- The counters that are given on a line are within the limit. -/
def Line.Fits : Line → Prop
  | .tally t => t.Fits
  | .entry _ t => (t.getD .zero).Fits
  | _ => True

namespace Line

variable {s : List Char} {line : Line}

theorem fits_of_readEntry (h : readEntry s = .ok line) : line.Fits := by
  rw [readEntry] at h
  split at h
  · exact Except.ok.inj h ▸ trivial
  · split at h
    · exact Except.ok.inj h ▸ trivial
    · obtain ⟨n, _, h⟩ := bind_eq_ok h
      simp only at h
      split at h
      · exact Except.ok.inj h ▸ Tally.fits_zero
      · obtain ⟨t, ht, h⟩ := bind_eq_ok h
        exact Except.ok.inj h ▸ Tally.fits_of_read? (orMalformed_eq_ok ht)

theorem fits_of_readField (h : readField s = .ok line) : line.Fits := by
  rw [readField] at h
  split at h
  · obtain ⟨_, _, hl⟩ := map_eq_ok h
    exact hl ▸ trivial
  · split at h
    · obtain ⟨_, _, hl⟩ := map_eq_ok h
      exact hl ▸ trivial
    · split at h
      · obtain ⟨_, _, hl⟩ := map_eq_ok h
        exact hl ▸ trivial
      · split at h
        · obtain ⟨t, ht, hl⟩ := map_eq_ok h
          exact hl ▸ Tally.fits_of_read? (orMalformed_eq_ok ht)
        · exact fits_of_readEntry h

/-- No counter can be read that is too large. -/
theorem fits_of_read (h : read s = .ok line) : line.Fits := by
  rw [read] at h
  split at h
  · exact Except.ok.inj h ▸ trivial
  · split at h
    · obtain ⟨_, _, hl⟩ := map_eq_ok h
      exact hl ▸ trivial
    · split at h
      · obtain ⟨_, _, hl⟩ := map_eq_ok h
        exact hl ▸ trivial
      · split at h
        · obtain ⟨_, _, hl⟩ := map_eq_ok h
          exact hl ▸ trivial
        · split at h
          · exact fits_of_readField h
          · exact Except.ok.inj h ▸ trivial

end Line

theorem Block.fits_named (name : String) : (named name).Fits :=
  ⟨Tally.fits_zero, List.forall_mem_nil _⟩

theorem OpenFunc.fits_push_iff {f : OpenFunc} {b : Block} : (f.push b).Fits ↔ b.Fits ∧ f.Fits :=
  List.forall_mem_cons

theorem OpenFunc.fits_close_iff {f : OpenFunc} : f.close.Fits ↔ f.Fits := by
  simp only [Func.Fits, close, List.mem_reverse, Fits]

/-- Where a function may go on or end, the item that is open is one of its blocks. -/
theorem Position.fits_settled_iff {position : Position} {f : OpenFunc}
    (hs : position.settled? = some f) : position.Fits ↔ f.Fits := by
  cases position with
  | body g =>
    cases hs
    exact Iff.rfl
  | block g name =>
    cases hs
    rw [OpenFunc.fits_push_iff]
    exact (and_iff_right (Block.fits_named name)).symm
  | span g name s =>
    cases hs
    rw [OpenFunc.fits_push_iff]
    exact (and_iff_right (Block.fits_named name)).symm
  | tally g name s t =>
    cases hs
    have hblock : { Block.named name with span := some s, tally := t }.Fits ↔ t.Fits :=
      and_iff_left (Block.fits_named name).2
    rw [OpenFunc.fits_push_iff, hblock]
    exact And.comm
  | lines g name m =>
    cases hs
    have hblock : { Block.named name with lines := m }.Fits ↔ m.Fits :=
      and_iff_right Tally.fits_zero
    rw [OpenFunc.fits_push_iff, hblock]
    exact And.comm
  | _ => cases hs

namespace Progress

variable {p q : Progress} {n : Nat} {text : List Char} {line : Line} {done : List Func}
  {ls : List (Nat × List Char)}

theorem fits_settled_iff (hs : p.settled? = some done) : p.Fits ↔ ∀ f ∈ done, f.Fits := by
  obtain ⟨fs, position⟩ := p
  rcases settled?_eq_some hs with ⟨hp, rfl⟩ | ⟨f, hf, rfl⟩
  · obtain rfl : position = .outside := hp
    exact ⟨Fits.done, fun h => ⟨h, trivial⟩⟩
  · rw [List.forall_mem_cons, OpenFunc.fits_close_iff, ← Position.fits_settled_iff hf]
    exact ⟨fun h => ⟨h.position, h.done⟩, fun h => ⟨h.2, h.1⟩⟩

/-- What fits after a line has fitted before it. -/
theorem Advances.fits_before (h : Advances p line q) (hq : q.Fits) : p.Fits := by
  cases h with
  | func hs => exact (fits_settled_iff hs).2 hq.done
  | block hs => exact ⟨hq.done, (Position.fits_settled_iff hs).2 hq.position⟩
  | decl => exact ⟨hq.done, trivial⟩
  | tally => exact ⟨hq.done, hq.position.1⟩
  | firstEntry hl => exact ⟨hq.done, hq.position.1⟩
  | nextEntry => exact ⟨hq.done, hq.position.1, (LineMap.fits_addAt_iff.1 hq.position.2).1⟩
  | _ => exact ⟨hq.done, hq.position⟩

/-- A line that can be read leads from what fits to what fits, unless it is an entry of a block. -/
theorem Advances.fits_after (h : Advances p line q) (hline : ∀ k t, line ≠ .entry k t)
    (hl : line.Fits) (hp : p.Fits) : q.Fits := by
  cases h with
  | func hs => exact ⟨(fits_settled_iff hs).1 hp, trivial⟩
  | block hs => exact ⟨hp.done, (Position.fits_settled_iff hs).1 hp.position⟩
  | decl => exact ⟨hp.done, List.forall_mem_nil _⟩
  | tally => exact ⟨hp.done, hp.position, hl⟩
  | firstEntry => exact absurd rfl (hline _ _)
  | nextEntry => exact absurd rfl (hline _ _)
  | _ => exact ⟨hp.done, hp.position⟩

/-- A step that is checked differs from one that is not at an entry of a block only, where the sum
must fit. -/
theorem checkedStep_cases (p : Progress) (n : Nat) (text : List Char) (line : Line) :
    p.checkedStep n text line = .ok (p.step n text line) ∧
        (∀ q, p.step n text line = .ok q → ∀ k t, line ≠ .entry k t) ∨
      ∃ (f : OpenFunc) (name : String) (m : LineMap) (k : Nat) (t : Option Tally),
        line = .entry k t ∧ (p.Fits → f.Fits ∧ m.Fits) ∧
        p.step n text line = .ok ⟨p.done, .lines f name (m.addAt k (t.getD .zero))⟩ ∧
        p.checkedStep n text line = (do
          let m ← m.checkedAddAt k (t.getD .zero)
          return .ok ⟨p.done, .lines f name m⟩) := by
  obtain ⟨done, position⟩ := p
  cases line with
  | entry k t =>
    cases position with
    | block f name =>
      have hstep : Progress.step ⟨done, .block f name⟩ n text (.entry k t) =
          (f.withLayout .line n name >>= fun f =>
            .ok ⟨done, .lines f name (LineMap.empty.addAt k (t.getD .zero))⟩) := rfl
      cases hf : f.withLayout .line n name with
      | error e =>
        rw [hf] at hstep
        simp only [checkedStep, hf, hstep]
        exact .inl ⟨rfl, by intro q hq; cases hq⟩
      | ok g =>
        obtain ⟨_, rfl⟩ := withLayout_eq_ok hf
        rw [hf] at hstep
        simp only [checkedStep, hf, hstep]
        refine .inr ⟨_, name, .empty, k, t, rfl, ?_, rfl, rfl⟩
        exact fun hp => ⟨hp.position, List.forall_mem_nil _⟩
    | lines f name m => exact .inr ⟨f, name, m, k, t, rfl, Fits.position, rfl, rfl⟩
    | _ => exact .inl ⟨rfl, by intro q hq; cases hq⟩
  | _ => exact .inl ⟨rfl, by intro q _ k t h; cases h⟩

theorem step_of_checkedStep {r : Except ReadError Progress}
    (h : p.checkedStep n text line = .ok r) :
    p.step n text line = r ∧ ∀ q, r = .ok q → line.Fits → p.Fits → q.Fits := by
  rcases checkedStep_cases p n text line with
    ⟨hcheck, hother⟩ | ⟨f, name, m, k, t, rfl, hfits, hstep, hcheck⟩
  · obtain rfl := Except.ok.inj (hcheck.symm.trans h)
    exact ⟨rfl, fun q hq => (advances_of_step hq).fits_after (hother q hq)⟩
  · rw [hcheck] at h
    obtain ⟨m', hm, h⟩ := bind_eq_ok h
    obtain rfl := Except.ok.inj h
    obtain ⟨rfl, hafter⟩ := LineMap.addAt_of_checkedAddAt hm
    refine ⟨hstep, ?_⟩
    intro q hq _ hp
    obtain rfl := Except.ok.inj hq
    exact ⟨hp.done, (hfits hp).1, hafter (hfits hp).2⟩

theorem checkedStep_of_fits (h : p.step n text line = .ok q) (hq : q.Fits) :
    p.checkedStep n text line = .ok (.ok q) := by
  rcases checkedStep_cases p n text line with
    ⟨hcheck, -⟩ | ⟨f, name, m, k, t, -, -, hstep, hcheck⟩
  · rw [hcheck, h]
  · obtain rfl := Except.ok.inj (hstep.symm.trans h)
    rw [hcheck, LineMap.checkedAddAt_of_fits hq.position.2]
    rfl

theorem fits_of_run (h : p.run ls = .ok q) (hq : q.Fits) : p.Fits := by
  induction ls generalizing p with
  | nil => exact Except.ok.inj h ▸ hq
  | cons l ls ih =>
    obtain ⟨n, text⟩ := l
    by_cases hb : Line.read text = .ok .blank
    · rw [run_cons_of_blank p hb] at h
      exact Except.ok.inj h ▸ hq
    · obtain ⟨line, r, _, ha, hrun⟩ := (run_cons_eq_ok_iff hb).1 h
      exact ha.fits_before (ih hrun)

theorem run_of_checkedRun {r : Except ReadError Progress} (h : p.checkedRun ls = .ok r) :
    p.run ls = r ∧ ∀ q, r = .ok q → p.Fits → q.Fits := by
  induction ls generalizing p with
  | nil =>
    obtain rfl := Except.ok.inj h
    exact ⟨rfl, fun q hq hp => Except.ok.inj hq ▸ hp⟩
  | cons l ls ih =>
    obtain ⟨n, text⟩ := l
    rw [checkedRun] at h
    rw [run]
    split at h
    · obtain rfl := Except.ok.inj h
      exact ⟨rfl, by intro q hq; cases hq⟩
    · obtain rfl := Except.ok.inj h
      exact ⟨rfl, fun q hq hp => Except.ok.inj hq ▸ hp⟩
    · rename_i line hne hline
      obtain ⟨next, hstep, h⟩ := bind_eq_ok h
      obtain ⟨heq, hfits⟩ := step_of_checkedStep hstep
      simp only [heq]
      cases next with
      | error e =>
        obtain rfl := Except.ok.inj h
        exact ⟨rfl, by intro q hq; cases hq⟩
      | ok p' =>
        obtain ⟨hrun, hafter⟩ := ih h
        exact ⟨hrun, fun q hq hp => hafter q hq (hfits p' rfl (Line.fits_of_read hline) hp)⟩

theorem checkedRun_of_fits (h : p.run ls = .ok q) (hq : q.Fits) :
    p.checkedRun ls = .ok (.ok q) := by
  induction ls generalizing p with
  | nil => exact congrArg Except.ok h
  | cons l ls ih =>
    obtain ⟨n, text⟩ := l
    rw [run] at h
    rw [checkedRun]
    split at h
    · cases h
    · exact congrArg Except.ok h
    · split at h
      · rename_i p' hstep
        simp only [checkedStep_of_fits hstep (fits_of_run h hq), ok_bind]
        exact ih h
      · cases h

end Progress

variable {text : String} {fs : List Func}

/-- What is read with a limit is read without. -/
theorem read_of_checkedRead {r : Except ReadError (List Func)} (h : checkedRead text = .ok r) :
    read text = r := by
  obtain ⟨p, hp, h⟩ := bind_eq_ok h
  obtain rfl := Except.ok.inj h
  rw [read, (Progress.run_of_checkedRun hp).1]

/-- An outline is read if it is one without a limit, and all that it comes to is within the limit. -/
theorem checkedRead_eq_ok_iff :
    checkedRead text = .ok (.ok fs) ↔ read text = .ok fs ∧ ∀ f ∈ fs, f.Fits := by
  have hfs : ∀ q : Progress, q.settled? = some fs.reverse → (q.Fits ↔ ∀ f ∈ fs, f.Fits) := by
    intro q hq
    simp only [Progress.fits_settled_iff hq, List.mem_reverse]
  constructor
  · intro h
    refine ⟨read_of_checkedRead h, ?_⟩
    obtain ⟨p, hp, h⟩ := bind_eq_ok h
    obtain ⟨q, rfl, hq⟩ := bind_eq_ok (Except.ok.inj h)
    have hstart : Progress.start.Fits := ⟨List.forall_mem_nil _, trivial⟩
    exact (hfs q (finish_eq_ok_iff.1 hq)).1 ((Progress.run_of_checkedRun hp).2 q rfl hstart)
  · intro h
    obtain ⟨hread, hfits⟩ := h
    obtain ⟨q, hq, hs⟩ := read_eq_ok_iff_run.1 hread
    rw [checkedRead, Progress.checkedRun_of_fits hq ((hfs q hs).2 hfits), ok_bind]
    exact congrArg Except.ok (finish_eq_ok_iff.2 hs)

end Outline

end LineCost
