import LineCost.Proofs.Outline.RoundTrip

/-!
What is not written of an outline. A tally without cycles is left out, whatever its other counters
hold, and so the totals of what has been written fall short by just that.
-/

namespace LineCost

namespace Tally

/-- What takes no cycles has no instructions. -/
def Priced (t : Tally) : Prop := t.cycles = 0 → t = zero

instance (t : Tally) : Decidable t.Priced := inferInstanceAs (Decidable (t.cycles = 0 → t = zero))

theorem priced_of_cycles {t : Tally} (h : t.cycles ≠ 0) : t.Priced := fun h' => absurd h' h

theorem priced_zero : zero.Priced := fun _ => rfl

theorem add_eq_left_iff {t u : Tally} : t + u = t ↔ u = zero := by
  cases t
  cases u
  simp [add_def, add, zero]

theorem add_eq_zero_iff {t u : Tally} : t + u = zero ↔ t = zero ∧ u = zero := by
  cases t
  cases u
  simp only [add_def, add, zero, mk.injEq]
  omega

theorem eq_zero_iff {t : Tally} : t = zero ↔ t.instructions = 0 ∧ t.cycles = 0 := by
  cases t
  simp only [zero, instructions, mk.injEq]
  omega

theorem sum_eq_zero_iff {ts : List Tally} : sum ts = zero ↔ ∀ t ∈ ts, t = zero := by
  induction ts with
  | nil => simp
  | cons t ts ih => rw [sum_cons, add_eq_zero_iff, List.forall_mem_cons, ih]

theorem Priced.add {t u : Tally} (ht : t.Priced) (hu : u.Priced) : (t + u).Priced := by
  intro h
  rw [cycles_add] at h
  rw [ht (by omega), hu (by omega), zero_add]

theorem Priced.sum {ts : List Tally} (h : ∀ t ∈ ts, t.Priced) : (Tally.sum ts).Priced := by
  intro hc
  exact sum_eq_zero_iff.2 fun t ht => h t ht (cycles_sum_eq_zero_iff.1 hc t ht)

theorem sum_filter_add (p : Tally → Bool) (ts : List Tally) :
    sum (ts.filter (!p ·)) + sum (ts.filter p) = sum ts := by
  induction ts with
  | nil => rfl
  | cons t ts ih =>
    rw [sum_cons, ← ih]
    cases h : p t with
    | true => simp [h, ← add_assoc, add_comm t]
    | false => simp [h, add_assoc]

end Tally

namespace Outline

/-- All tallies of a block. -/
def Block.tallies (b : Block) : List Tally := b.tally :: b.lines.tallies

/-- What is left out of a block when it is written. -/
def Block.unwritten (b : Block) : Tally := Tally.sum (b.tallies.filter Tally.isEmpty)

/-- What is left out of the blocks of an outline that are not skipped. -/
def unwritten (fs : List Func) : Tally := Tally.sum ((fs.flatMap Func.kept).map Block.unwritten)

/-- Every tally that counts towards the total has cycles if it has anything. -/
def Priced (fs : List Func) : Prop := ∀ f ∈ fs, ∀ b ∈ f.kept, ∀ t ∈ b.tallies, t.Priced

variable {fs : List Func}

theorem total_eq (fs : List Func) :
    total fs = Tally.sum ((fs.flatMap Func.kept).map Block.total) := by
  rw [List.map_flatMap, Tally.sum_flatMap]
  rfl

theorem Block.tallies_emitted (b : Block) :
    Tally.sum b.emitted.tallies = Tally.sum (b.tallies.filter (!Tally.isEmpty ·)) := by
  have hlines : b.emitted.lines.tallies = b.lines.tallies.filter (!Tally.isEmpty ·) := by
    simp only [emitted, LineMap.tallies, LineMap.filter, List.filter_map]
    rfl
  rw [tallies, tallies, hlines, List.filter_cons, Tally.sum_cons, emitted]
  cases b.tally.isEmpty <;> simp

theorem Block.total_eq_add (b : Block) : b.total = b.emitted.total + b.unwritten := by
  have hwritten : b.emitted.total = Tally.sum (b.tallies.filter (!Tally.isEmpty ·)) :=
    b.tallies_emitted
  rw [hwritten, unwritten, Tally.sum_filter_add]
  rfl

/-- The total of an outline is that of what is written and what is left out. -/
theorem total_eq_add_unwritten (fs : List Func) :
    total fs = total (fs.map Func.emitted) + unwritten fs := by
  have hkept : (fs.map Func.emitted).flatMap Func.kept =
      (fs.flatMap Func.kept).map Block.emitted := by
    simp only [List.flatMap_map, List.map_flatMap, kept_emitted]
  rw [total_eq, total_eq, hkept, List.map_map, unwritten, ← Tally.sum_map_add]
  exact congrArg Tally.sum (List.map_congr_left fun b _ => b.total_eq_add)

theorem cycles_unwritten (fs : List Func) : (unwritten fs).cycles = 0 := by
  rw [unwritten, Tally.cycles_sum_eq_zero_iff, List.forall_mem_map]
  intro b _
  rw [Block.unwritten, Tally.cycles_sum_eq_zero_iff]
  intro t ht
  exact beq_iff_eq.1 (List.mem_filter.1 ht).2

theorem unwritten_eq_zero_iff : unwritten fs = .zero ↔ Priced fs := by
  have hblock : ∀ b : Block, b.unwritten = .zero ↔ ∀ t ∈ b.tallies, t.Priced := by
    intro b
    simp only [Block.unwritten, Tally.sum_eq_zero_iff, List.mem_filter, Tally.isEmpty, beq_iff_eq,
      and_imp, Tally.Priced]
  simp only [unwritten, Tally.sum_eq_zero_iff, List.forall_mem_map, hblock, List.mem_flatMap,
    Priced]
  constructor
  · intro h f hf b hb
    exact h b ⟨f, hf, hb⟩
  · rintro h b ⟨f, hf, hb⟩
    exact h f hf b hb

/-- What is written has the total of the outline if everything that counts has cycles. -/
theorem total_emitted_eq_iff : total fs = total (fs.map Func.emitted) ↔ Priced fs := by
  rw [total_eq_add_unwritten, Tally.add_eq_left_iff, unwritten_eq_zero_iff]

theorem cycles_total_emitted (fs : List Func) :
    (total fs).cycles = (total (fs.map Func.emitted)).cycles := by
  rw [total_eq_add_unwritten, Tally.cycles_add, cycles_unwritten, Nat.add_zero]

/-- Instructions are all that can be missing. -/
theorem instructions_total_emitted_eq_iff :
    (total fs).instructions = (total (fs.map Func.emitted)).instructions ↔ Priced fs := by
  rw [total_eq_add_unwritten, Tally.instructions_add, Nat.add_eq_left, ← unwritten_eq_zero_iff,
    Tally.eq_zero_iff, and_iff_left (cycles_unwritten fs)]

end Outline

end LineCost
