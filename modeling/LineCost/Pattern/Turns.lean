import LineCost.Pattern.Spans

/-!
The turns of a repetition. The turns that can be told apart are numbered from `0` on; where there is
no limit, the last of them stands for all later ones too. A repetition that spans a character begins
with idle turns, if any, and then comes a turn that spans the character (`spans_repeated_cons_iff`).
-/

namespace LineCost.Pattern

/-- How many turns of a repetition have to be told apart. -/
def slotCount (least : Nat) : (extra : Option Nat) → Nat
  | some n => least + n
  | none => max 1 least

/-- What is left of a repetition after the turn number `t`. -/
def afterTurn (p : Pattern) (least : Nat) (extra : Option Nat) (isLazy : Bool) (t : Nat) :
    Pattern :=
  .repeated p (least - (t + 1)) (extra.map (· - (t + 1 - least))) isLazy

/-- The statement `TurnThen p q s c v e` says that a turn of `p` spans the character `c` and what
follows it, and `q` the rest of the piece. -/
def TurnThen (p q : Pattern) (s : Bool) (c : Char) (v : List Char) (e : Bool) : Prop :=
  ∃ v₁ v₂, v = v₁ ++ v₂ ∧ Spans p s (c :: v₁) (e && v₂.isEmpty) ∧ Spans q false v₂ e

variable {p q : Pattern} {s e l : Bool} {c : Char} {v : List Char} {n t u : Nat} {x : Option Nat}

/-- A piece with a character is taken apart in front of the character or behind it. -/
theorem exists_append_eq_cons_iff {r : List Char → List Char → Prop} :
    (∃ w₁ w₂, c :: v = w₁ ++ w₂ ∧ r w₁ w₂) ↔
      r [] (c :: v) ∨ ∃ v₁ v₂, v = v₁ ++ v₂ ∧ r (c :: v₁) v₂ := by
  constructor
  · intro h
    obtain ⟨w₁, w₂, h, hr⟩ := h
    cases w₁ with
    | nil =>
      obtain rfl : c :: v = w₂ := h
      exact .inl hr
    | cons d w₁ =>
      obtain ⟨rfl, rfl⟩ := List.cons.inj h
      exact .inr ⟨w₁, w₂, rfl, hr⟩
  · intro h
    rcases h with hr | ⟨v₁, v₂, rfl, hr⟩
    · exact ⟨[], _, rfl, hr⟩
    · exact ⟨c :: v₁, v₂, rfl, hr⟩

/-- A row spans a character with its first part, or skips that and spans it with the second one. -/
theorem spans_seq_cons_iff :
    Spans (.seq p q) s (c :: v) e ↔
      Spans p s [] false ∧ Spans q s (c :: v) e ∨ TurnThen p q s c v e := by
  rw [spans_seq_iff, exists_append_eq_cons_iff]
  simp [TurnThen]

/-- A repetition that spans a character begins with a turn, if it may. -/
theorem spans_repeated_cons_iff_seq :
    Spans (.repeated p n x l) s (c :: v) e ↔
      slotCount n x ≠ 0 ∧ Spans (.seq p (afterTurn p n x l 0)) s (c :: v) e := by
  cases n with
  | zero =>
    rw [spans_repeated_zero_iff]
    cases x <;> simp [slotCount, afterTurn]
  | succ n =>
    rw [spans_repeated_succ_iff]
    cases x <;> simp [slotCount, afterTurn]

theorem afterTurn_afterTurn :
    afterTurn p (n - (t + 1)) (x.map (· - (t + 1 - n))) l u = afterTurn p n x l (t + 1 + u) := by
  have hn : n - (t + 1) - (u + 1) = n - (t + 1 + u + 1) := by omega
  rw [afterTurn, afterTurn, hn, Option.map_map]
  congr 2
  funext m
  simp only [Function.comp_apply]
  omega

/-- The turns of what is left after a turn are the later ones. After the last turn of a repetition
without a limit, that turn is left again. -/
theorem lt_slotCount_iff (ht : t < slotCount n x) :
    u < slotCount (n - (t + 1)) (x.map (· - (t + 1 - n))) ↔
      t + 1 + u < slotCount n x ∨ x = none ∧ t + 1 = slotCount n x ∧ u = 0 := by
  cases x with
  | none =>
    simp only [slotCount, Option.map_none, true_and] at ht ⊢
    omega
  | some m =>
    simp only [slotCount, Option.map_some, reduceCtorEq, false_and, or_false] at ht ⊢
    omega

/-- The last turn of a repetition without a limit leaves as much as any later one. -/
theorem afterTurn_succ (ht : t + 1 = slotCount n none) :
    afterTurn p n none l (t + 1) = afterTurn p n none l t := by
  have : n - (t + 1 + 1) = n - (t + 1) := by
    rw [slotCount] at ht
    omega
  rw [afterTurn, afterTurn, this, Option.map_none, Option.map_none]

/-- The statement `Begins p n x l s c v e` says that idle turns, if any, and then a turn that spans
the character `c` lead to what the repetition spans. -/
def Begins (p : Pattern) (n : Nat) (x : Option Nat) (l s : Bool) (c : Char) (v : List Char)
    (e : Bool) : Prop :=
  ∃ t < slotCount n x, (t = 0 ∨ Spans p s [] false) ∧ TurnThen p (afterTurn p n x l t) s c v e

/-- A turn is put in front of the turns with which the rest begins. -/
theorem begins_of_spans {v' w : List Char} (hn : slotCount n x ≠ 0)
    (hp : Spans p s v' (e && w.isEmpty)) (hq : Spans (afterTurn p n x l 0) (s && v'.isEmpty) w e)
    (h : w = c :: v →
      Begins p (n - (0 + 1)) (x.map (· - (0 + 1 - n))) l (s && v'.isEmpty) c v e)
    (hw : v' ++ w = c :: v) : Begins p n x l s c v e := by
  cases v' with
  | nil =>
    obtain rfl : w = c :: v := hw
    obtain ⟨u, hu, _, h⟩ := h rfl
    rw [List.isEmpty_nil, Bool.and_true, afterTurn_afterTurn] at h
    rw [List.isEmpty_cons, Bool.and_false] at hp
    rcases (lt_slotCount_iff (Nat.pos_of_ne_zero hn)).1 hu with hu | ⟨rfl, ht, rfl⟩
    · exact ⟨_, hu, .inr hp, h⟩
    · exact ⟨0, ht ▸ Nat.one_pos, .inr hp, afterTurn_succ ht ▸ h⟩
  | cons d v' =>
    obtain ⟨rfl, rfl⟩ := List.cons.inj hw
    rw [List.isEmpty_cons, Bool.and_false] at hq
    exact ⟨0, Nat.pos_of_ne_zero hn, .inl rfl, v', w, rfl, hp, hq⟩

theorem begins_of_spans_repeated {r : Pattern} {w : List Char} (h : Spans r s w e)
    (hr : r = .repeated p n x l) (hw : w = c :: v) : Begins p n x l s c v e := by
  induction h generalizing n x with
  | stop => cases hw
  | @owed _ _ x _ _ _ _ _ hp hq _ ih =>
    injection hr with hr hn hx hl
    subst hr hn hx hl
    refine begins_of_spans ?_ hp (by simpa [afterTurn] using hq) (ih (by simp)) hw
    cases x <;> simp only [slotCount] <;> omega
  | @more _ x _ _ _ _ _ hne hp hq _ ih =>
    injection hr with hr hn hx hl
    subst hr hn hx hl
    refine begins_of_spans ?_ hp (by simpa [afterTurn] using hq) (ih (by simp)) hw
    cases x with
    | none => exact Nat.one_ne_zero
    | some m => simpa [slotCount] using hne
  | _ => cases hr

/-- A repetition that spans a character begins with idle turns, if any, and then comes a turn that
spans the character. -/
theorem spans_repeated_cons_iff :
    Spans (.repeated p n x l) s (c :: v) e ↔ Begins p n x l s c v e := by
  refine ⟨fun h => begins_of_spans_repeated h rfl rfl, ?_⟩
  intro h
  obtain ⟨t, ht, hi, h⟩ := h
  induction t generalizing n x with
  | zero => exact spans_repeated_cons_iff_seq.2 ⟨by omega, spans_seq_cons_iff.2 (.inr h)⟩
  | succ t ih =>
    have hi := hi.resolve_left (Nat.succ_ne_zero t)
    refine spans_repeated_cons_iff_seq.2 ⟨by omega, spans_seq_cons_iff.2 (.inl ⟨hi, ?_⟩)⟩
    refine ih ?_ (.inr hi) ?_
    · rw [lt_slotCount_iff (by omega)]
      exact .inl (by omega)
    · rw [afterTurn_afterTurn]
      rwa [Nat.zero_add, Nat.add_comm 1]

/-- What is left after a turn begins with a later turn. After the last turn of a repetition without
a limit, it begins with that turn again. -/
theorem spans_afterTurn_cons_iff (ht : t < slotCount n x) :
    Spans (afterTurn p n x l t) s (c :: v) e ↔
      ∃ u < slotCount n x,
        (∃ j ≤ u, (j = u ∨ Spans p s [] false) ∧
          (j = t + 1 ∨ x = none ∧ j = t ∧ t + 1 = slotCount n x)) ∧
        TurnThen p (afterTurn p n x l u) s c v e := by
  rw [afterTurn, spans_repeated_cons_iff, Begins]
  simp only [lt_slotCount_iff ht, afterTurn_afterTurn]
  constructor
  · intro h
    obtain ⟨u, hu | ⟨rfl, ht, rfl⟩, hi, h⟩ := h
    · exact ⟨_, hu, ⟨t + 1, by omega, hi.imp_left (by omega), .inl rfl⟩, h⟩
    · exact ⟨t, by omega, ⟨t, Nat.le_refl t, .inl rfl, .inr ⟨rfl, rfl, ht⟩⟩, afterTurn_succ ht ▸ h⟩
  · intro h
    obtain ⟨u, hu, ⟨j, hj, hi, rfl | ⟨rfl, rfl, ht⟩⟩, h⟩ := h
    · refine ⟨u - (t + 1), .inl (by omega), hi.imp_left (by omega), ?_⟩
      rwa [Nat.add_sub_cancel' hj]
    · obtain rfl : j = u := by omega
      exact ⟨0, .inr ⟨rfl, ht, rfl⟩, .inl rfl, (afterTurn_succ ht).symm ▸ h⟩

end LineCost.Pattern
