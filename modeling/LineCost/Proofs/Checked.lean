import LineCost.Proofs.Results
import LineCost.Proofs.Text.Codec
import LineCost.Proofs.Totals

/-!
Additions that are checked. Tallies are added up, and instructions are recorded and counted, as they
are without a limit if what comes of it is within the limit, and otherwise not at all.
-/

namespace LineCost

theorem checkedAdd_of_le {a b : Nat} (h : a + b ≤ Text.counterLimit) :
    checkedAdd a b = .ok (a + b) :=
  if_pos h

theorem checkedAdd_eq_ok_iff {a b c : Nat} :
    checkedAdd a b = .ok c ↔ a + b ≤ Text.counterLimit ∧ a + b = c := by
  rw [checkedAdd]
  split <;> simp [*]

namespace Tally

variable {t u : Tally} {c : Cost}

theorem fits_iff : t.Fits ↔ t.branch ≤ Text.counterLimit ∧ t.load ≤ Text.counterLimit ∧
    t.store ≤ Text.counterLimit ∧ t.arithmetic ≤ Text.counterLimit ∧
    t.floatingPoint ≤ Text.counterLimit ∧ t.other ≤ Text.counterLimit ∧
    t.cycles ≤ Text.counterLimit := by
  simp [Fits, fields]

theorem checkedAdd_of_fits (h : (t + u).Fits) : t.checkedAdd u = .ok (t + u) := by
  obtain ⟨hb, hl, hs, ha, hf, ho, hc⟩ := fits_iff.1 h
  simp only [checkedAdd, checkedAdd_of_le hb, checkedAdd_of_le hl, checkedAdd_of_le hs,
    checkedAdd_of_le ha, checkedAdd_of_le hf, checkedAdd_of_le ho, checkedAdd_of_le hc, ok_bind]
  rfl

theorem checkedAdd_eq_ok_iff {v : Tally} :
    t.checkedAdd u = .ok v ↔ (t + u).Fits ∧ t + u = v := by
  constructor
  · intro h
    obtain ⟨branch, hbranch, h⟩ := bind_eq_ok h
    obtain ⟨load, hload, h⟩ := bind_eq_ok h
    obtain ⟨store, hstore, h⟩ := bind_eq_ok h
    obtain ⟨arithmetic, harithmetic, h⟩ := bind_eq_ok h
    obtain ⟨floatingPoint, hfloatingPoint, h⟩ := bind_eq_ok h
    obtain ⟨other, hother, h⟩ := bind_eq_ok h
    obtain ⟨cycles, hcycles, h⟩ := bind_eq_ok h
    rw [LineCost.checkedAdd_eq_ok_iff] at hbranch hload hstore harithmetic
    rw [LineCost.checkedAdd_eq_ok_iff] at hfloatingPoint hother hcycles
    have hsum : t + u = v := by
      rw [← Except.ok.inj h, ← hbranch.2, ← hload.2, ← hstore.2, ← harithmetic.2,
        ← hfloatingPoint.2, ← hother.2, ← hcycles.2]
      rfl
    exact ⟨fits_iff.2 ⟨hbranch.1, hload.1, hstore.1, harithmetic.1, hfloatingPoint.1, hother.1,
      hcycles.1⟩, hsum⟩
  · intro h
    obtain ⟨hfits, rfl⟩ := h
    exact checkedAdd_of_fits hfits

theorem fits_left_of_add (h : (t + u).Fits) : t.Fits := by
  obtain ⟨hb, hl, hs, ha, hf, ho, hc⟩ := fits_iff.1 h
  exact fits_iff.2 ⟨Nat.le_trans (Nat.le_add_right _ _) hb, Nat.le_trans (Nat.le_add_right _ _) hl,
    Nat.le_trans (Nat.le_add_right _ _) hs, Nat.le_trans (Nat.le_add_right _ _) ha,
    Nat.le_trans (Nat.le_add_right _ _) hf, Nat.le_trans (Nat.le_add_right _ _) ho,
    Nat.le_trans (Nat.le_add_right _ _) hc⟩

theorem fits_right_of_add (h : (t + u).Fits) : u.Fits :=
  fits_left_of_add (add_comm t u ▸ h)

theorem Fits.count?_le (h : t.Fits) {category : Category} {n : Nat}
    (hn : t.count? category = some n) : n ≤ Text.counterLimit := by
  apply h
  cases category with
  | ignore => cases hn
  | _ =>
    obtain rfl := Option.some.inj hn
    simp [fields]

/-- To record an instruction adds one to the counter of its category. -/
theorem record_eq (t : Tally) (c : Cost) : t.record c = match t.count? c.category with
    | none => t
    | some n => { t.setCount (n + 1) c.category with cycles := t.cycles + c.cycles } := by
  obtain ⟨category, cycles⟩ := c
  cases category <;> rfl

theorem count?_setCount {category : Category} {m : Nat} (hm : t.count? category = some m)
    (n : Nat) : (t.setCount n category).count? category = some n := by
  cases category with
  | ignore => cases hm
  | _ => rfl

theorem count?_with_cycles (t : Tally) (n : Nat) (category : Category) :
    { t with cycles := n }.count? category = t.count? category := by
  cases category <;> rfl

theorem checkedRecord_of_fits (h : (t.record c).Fits) :
    t.checkedRecord c = .ok (t.record c) := by
  rw [record_eq] at h ⊢
  rw [checkedRecord]
  cases hn : t.count? c.category with
  | none => rfl
  | some n =>
    rw [hn] at h
    have hcount : n + 1 ≤ Text.counterLimit :=
      h.count?_le ((count?_with_cycles _ _ _).trans (count?_setCount hn _))
    have hcycles : t.cycles + c.cycles ≤ Text.counterLimit := (fits_iff.1 h).2.2.2.2.2.2
    simp only [checkedAdd_of_le hcount, checkedAdd_of_le hcycles, ok_bind]
    rfl

theorem record_of_checkedRecord {u : Tally} (h : t.checkedRecord c = .ok u) : t.record c = u := by
  rw [record_eq]
  rw [checkedRecord] at h
  cases hn : t.count? c.category with
  | none =>
    rw [hn] at h
    exact Except.ok.inj h
  | some n =>
    rw [hn] at h
    obtain ⟨m, hm, h⟩ := bind_eq_ok h
    obtain ⟨cycles, hcycles, h⟩ := bind_eq_ok h
    rw [← Except.ok.inj h, ← (LineCost.checkedAdd_eq_ok_iff.1 hm).2,
      ← (LineCost.checkedAdd_eq_ok_iff.1 hcycles).2]

theorem checkedInstructions_of_le (h : t.instructions ≤ Text.counterLimit) :
    t.checkedInstructions = .ok t.instructions := by
  -- every sum on the way is at most the last one
  rw [instructions] at h ⊢
  have hload : t.branch + t.load ≤ Text.counterLimit := by omega
  have hstore : t.branch + t.load + t.store ≤ Text.counterLimit := by omega
  have harithmetic : t.branch + t.load + t.store + t.arithmetic ≤ Text.counterLimit := by omega
  have hfloatingPoint : t.branch + t.load + t.store + t.arithmetic + t.floatingPoint ≤
      Text.counterLimit := by omega
  simp only [checkedInstructions, checkedAdd_of_le hload, checkedAdd_of_le hstore,
    checkedAdd_of_le harithmetic, checkedAdd_of_le hfloatingPoint, checkedAdd_of_le h, ok_bind]

theorem checkedInstructions_eq_ok_iff {n : Nat} :
    t.checkedInstructions = .ok n ↔ t.instructions ≤ Text.counterLimit ∧ t.instructions = n := by
  constructor
  · intro h
    obtain ⟨a, ha, h⟩ := bind_eq_ok h
    obtain ⟨b, hb, h⟩ := bind_eq_ok h
    obtain ⟨c, hc, h⟩ := bind_eq_ok h
    obtain ⟨d, hd, h⟩ := bind_eq_ok h
    rw [LineCost.checkedAdd_eq_ok_iff] at ha hb hc hd h
    rw [instructions]
    omega
  · intro h
    obtain ⟨hle, rfl⟩ := h
    exact checkedInstructions_of_le hle

theorem foldlM_checkedAdd_of_fits {ts : List Tally} (h : (t + sum ts).Fits) :
    ts.foldlM checkedAdd t = .ok (t + sum ts) := by
  induction ts generalizing t with
  | nil => exact congrArg Except.ok (add_zero t).symm
  | cons u ts ih =>
    rw [sum_cons, ← add_assoc] at h ⊢
    rw [List.foldlM_cons, checkedAdd_of_fits (fits_left_of_add h), ok_bind]
    exact ih h

/-- A sum that fits is reached through sums that fit. -/
theorem checkedSum_of_fits {ts : List Tally} (h : (sum ts).Fits) :
    checkedSum ts = .ok (sum ts) := by
  rw [← zero_add (sum ts)] at h ⊢
  exact foldlM_checkedAdd_of_fits h

theorem foldlM_checkedAdd_eq_ok {ts : List Tally} (h : ts.foldlM checkedAdd t = .ok u) :
    t + sum ts = u ∧ (t.Fits → u.Fits) := by
  induction ts generalizing t with
  | nil =>
    obtain rfl := Except.ok.inj h
    exact ⟨add_zero t, id⟩
  | cons v ts ih =>
    rw [List.foldlM_cons] at h
    obtain ⟨w, hw, h⟩ := bind_eq_ok h
    obtain ⟨hfits, rfl⟩ := checkedAdd_eq_ok_iff.1 hw
    obtain ⟨hsum, hu⟩ := ih h
    rw [sum_cons, ← add_assoc]
    exact ⟨hsum, fun _ => hu hfits⟩

theorem checkedSum_eq_ok_iff {ts : List Tally} :
    checkedSum ts = .ok t ↔ (sum ts).Fits ∧ sum ts = t := by
  constructor
  · intro h
    obtain ⟨hsum, hfits⟩ := foldlM_checkedAdd_eq_ok h
    rw [zero_add] at hsum
    exact ⟨hsum ▸ hfits fits_zero, hsum⟩
  · intro h
    obtain ⟨hfits, rfl⟩ := h
    exact checkedSum_of_fits hfits

/-- Where each member is computed right, so is the sum. -/
theorem sum_of_checkedSumOf {α : Type} {f : α → Except Overflow Tally} {g : α → Tally}
    (hf : ∀ a t, f a = .ok t → g a = t) {as : List α} (h : checkedSumOf f as = .ok t) :
    sum (as.map g) = t := by
  have hfold : ∀ s, as.foldlM (fun sum a => do sum.checkedAdd (← f a)) s = .ok t →
      s + sum (as.map g) = t := by
    clear h
    induction as with
    | nil =>
      intro s h
      rw [List.map_nil, sum_nil, add_zero]
      exact Except.ok.inj h
    | cons a as ih =>
      intro s h
      rw [List.foldlM_cons] at h
      obtain ⟨next, hnext, h⟩ := bind_eq_ok h
      obtain ⟨v, hv, hnext⟩ := bind_eq_ok hnext
      obtain ⟨-, rfl⟩ := checkedAdd_eq_ok_iff.1 hnext
      rw [List.map_cons, sum_cons, hf a v hv, ← add_assoc]
      exact ih _ h
  rw [← zero_add (sum (as.map g))]
  exact hfold zero h

end Tally

namespace LineMap

/-- Every tally of the map fits. -/
def Fits (m : LineMap) : Prop := ∀ e ∈ m.entries, e.2.Fits

/-- Adds one entry after the other. -/
def addAll (m : LineMap) (entries : List (Nat × Tally)) : LineMap :=
  entries.foldl (fun m e => m.addAt e.1 e.2) m

variable {m k : LineMap} {n : Nat} {t : Tally} {entries : List (Nat × Tally)}

theorem fits_iff_get? : m.Fits ↔ ∀ n t, m.get? n = some t → t.Fits := by
  simp only [Fits, get?_eq_some_iff, Prod.forall]

theorem fits_addAt_iff :
    (m.addAt n t).Fits ↔ m.Fits ∧ ((m.get? n).getD .zero + t).Fits := by
  simp only [fits_iff_get?, addAt, get?_alter]
  constructor
  · intro h
    have hn : ((m.get? n).getD .zero + t).Fits := h n _ (if_pos rfl)
    refine ⟨?_, hn⟩
    intro l u hu
    by_cases hl : l = n
    · rw [← hl, hu] at hn
      exact Tally.fits_left_of_add hn
    · exact h l u (by rw [if_neg hl, hu])
  · intro h
    obtain ⟨hm, hn⟩ := h
    intro l u hu
    split at hu
    · exact Option.some.inj hu ▸ hn
    · exact hm l u hu

theorem checkedAddAt_eq_ok_iff :
    m.checkedAddAt n t = .ok k ↔ ((m.get? n).getD .zero + t).Fits ∧ m.addAt n t = k := by
  rw [← insert_eq_addAt, checkedAddAt]
  constructor
  · intro h
    obtain ⟨sum, hsum, h⟩ := bind_eq_ok h
    obtain ⟨hfits, rfl⟩ := Tally.checkedAdd_eq_ok_iff.1 hsum
    exact ⟨hfits, Except.ok.inj h⟩
  · intro h
    obtain ⟨hfits, rfl⟩ := h
    rw [Tally.checkedAdd_of_fits hfits, ok_bind]
    rfl

theorem addAt_of_checkedAddAt (h : m.checkedAddAt n t = .ok k) :
    m.addAt n t = k ∧ (m.Fits → k.Fits) := by
  obtain ⟨hfits, rfl⟩ := checkedAddAt_eq_ok_iff.1 h
  exact ⟨rfl, fun hm => fits_addAt_iff.2 ⟨hm, hfits⟩⟩

theorem checkedAddAt_of_fits (h : (m.addAt n t).Fits) :
    m.checkedAddAt n t = .ok (m.addAt n t) :=
  checkedAddAt_eq_ok_iff.2 ⟨(fits_addAt_iff.1 h).2, rfl⟩

theorem fits_of_fits_addAll (h : (m.addAll entries).Fits) : m.Fits := by
  induction entries generalizing m with
  | nil => exact h
  | cons e entries ih => exact (fits_addAt_iff.1 (ih h)).1

theorem addAll_of_checkedAddAll (h : m.checkedAddAll entries = .ok k) :
    m.addAll entries = k ∧ (m.Fits → k.Fits) := by
  induction entries generalizing m with
  | nil =>
    obtain rfl := Except.ok.inj h
    exact ⟨rfl, id⟩
  | cons e entries ih =>
    rw [checkedAddAll, List.foldlM_cons] at h
    obtain ⟨next, hnext, h⟩ := bind_eq_ok h
    obtain ⟨rfl, hfits⟩ := addAt_of_checkedAddAt hnext
    obtain ⟨hall, hk⟩ := ih h
    exact ⟨hall, fun hm => hk (hfits hm)⟩

theorem checkedAddAll_of_fits (h : (m.addAll entries).Fits) :
    m.checkedAddAll entries = .ok (m.addAll entries) := by
  induction entries generalizing m with
  | nil => rfl
  | cons e entries ih =>
    have hnext : (m.addAt e.1 e.2).Fits := fits_of_fits_addAll h
    rw [checkedAddAll, List.foldlM_cons, checkedAddAt_of_fits hnext, ok_bind]
    exact ih h

theorem get?_addAll {l : List (Nat × Tally)} (hl : l.Pairwise (·.1 < ·.1)) (m : LineMap) (n : Nat) :
    (m.addAll l).get? n =
      (l.lookup n).elim (m.get? n) fun t => some ((m.get? n).getD .zero + t) := by
  induction l generalizing m with
  | nil => rfl
  | cons e l ih =>
    obtain ⟨he, hl⟩ := List.pairwise_cons.1 hl
    have hstep : m.addAll (e :: l) = (m.addAt e.1 e.2).addAll l := rfl
    rw [hstep, ih hl, addAt, get?_alter, lookup_cons_ite]
    by_cases hn : n = e.1
    · subst hn
      have hnone : l.lookup e.1 = none := by
        cases h : l.lookup e.1 with
        | none => rfl
        | some u =>
          have hlt := he _ (mem_of_lookup h)
          exact absurd hlt (Nat.lt_irrefl _)
      simp [hnone]
    · simp [hn]

/-- To add to lines that are there leaves the lines as they are. -/
theorem addAll_eq_map (h : ∀ n ∈ k.lines, n ∈ m.lines) :
    m.addAll k.entries = m.map fun n t => (k.get? n).elim t (t + ·) := by
  apply ext_get?
  intro n
  rw [get?_addAll k.ascending, get?_map]
  show (k.get? n).elim _ _ = _
  cases hk : k.get? n with
  | none => simp
  | some u =>
    obtain ⟨t, ht⟩ := mem_lines_iff.1 (h n (mem_lines_iff.2 ⟨u, hk⟩))
    simp [ht]

end LineMap

end LineCost
