import LineCost.Pattern.Basic

/-!
What each pattern spans, in terms of its parts.
-/

namespace LineCost.Pattern

variable {p q : Pattern} {s e : Bool} {v w t : List Char}

theorem isEmpty_append : (v ++ w).isEmpty = (v.isEmpty && w.isEmpty) := by
  cases v <;> rfl

theorem spans_empty_iff : Spans .empty s t e ↔ t = [] :=
  ⟨fun h => by cases h; rfl, fun h => h ▸ .empty⟩

theorem spans_one_iff {a : CharSet} :
    Spans (.one a) s t e ↔ ∃ c, t = [c] ∧ a.contains c = true := by
  constructor
  · intro h
    cases h with
    | one h => exact ⟨_, rfl, h⟩
  · intro h
    obtain ⟨c, rfl, h⟩ := h
    exact .one h

theorem spans_textStart_iff : Spans .textStart s t e ↔ t = [] ∧ s = true := by
  constructor
  · intro h
    cases h
    exact ⟨rfl, rfl⟩
  · intro h
    obtain ⟨rfl, rfl⟩ := h
    exact .textStart

theorem spans_textEnd_iff : Spans .textEnd s t e ↔ t = [] ∧ e = true := by
  constructor
  · intro h
    cases h
    exact ⟨rfl, rfl⟩
  · intro h
    obtain ⟨rfl, rfl⟩ := h
    exact .textEnd

theorem spans_seq_iff :
    Spans (.seq p q) s t e ↔
      ∃ v w, t = v ++ w ∧ Spans p s v (e && w.isEmpty) ∧ Spans q (s && v.isEmpty) w e := by
  constructor
  · intro h
    cases h with
    | seq hp hq => exact ⟨_, _, rfl, hp, hq⟩
  · intro h
    obtain ⟨v, w, rfl, hp, hq⟩ := h
    exact .seq hp hq

theorem spans_alt_iff : Spans (.alt p q) s t e ↔ Spans p s t e ∨ Spans q s t e := by
  constructor
  · intro h
    cases h with
    | left h => exact .inl h
    | right h => exact .inr h
  · intro h
    rcases h with h | h
    · exact .left h
    · exact .right h

theorem spans_group_iff {n : Option Nat} : Spans (.group n p) s t e ↔ Spans p s t e := by
  constructor
  · intro h
    cases h with
    | group h => exact h
  · exact .group

/-- A repetition that owes a piece is that piece and then the rest of the repetition. -/
theorem spans_repeated_succ_iff {n : Nat} {x : Option Nat} {l : Bool} :
    Spans (.repeated p (n + 1) x l) s t e ↔ Spans (.seq p (.repeated p n x l)) s t e := by
  rw [spans_seq_iff]
  constructor
  · intro h
    cases h with
    | owed hp hr => exact ⟨_, _, rfl, hp, hr⟩
  · intro h
    obtain ⟨v, w, rfl, hp, hr⟩ := h
    exact .owed hp hr

/-- A repetition that owes no piece stops, or begins another one if it may. -/
theorem spans_repeated_zero_iff {x : Option Nat} {l : Bool} :
    Spans (.repeated p 0 x l) s t e ↔
      t = [] ∨ x ≠ some 0 ∧ Spans (.seq p (.repeated p 0 (x.map (· - 1)) l)) s t e := by
  rw [spans_seq_iff]
  constructor
  · intro h
    cases h with
    | stop => exact .inl rfl
    | more hx hp hr => exact .inr ⟨hx, _, _, rfl, hp, hr⟩
  · intro h
    rcases h with rfl | ⟨hx, v, w, rfl, hp, hr⟩
    · exact .stop
    · exact .more hx hp hr

/-- A row spans the empty piece if both parts do. -/
theorem spans_seq_nil_iff : Spans (.seq p q) s [] e ↔ Spans p s [] e ∧ Spans q s [] e := by
  rw [spans_seq_iff]
  constructor
  · intro h
    obtain ⟨v, w, h, hp, hq⟩ := h
    obtain ⟨rfl, rfl⟩ := List.append_eq_nil_iff.1 h.symm
    simpa using And.intro hp hq
  · intro h
    obtain ⟨hp, hq⟩ := h
    exact ⟨[], [], rfl, by simpa using hp, by simpa using hq⟩

/-- A repetition spans the empty piece if it owes no piece or may be idle. -/
theorem spans_repeated_nil_iff {n : Nat} {x : Option Nat} {l : Bool} :
    Spans (.repeated p n x l) s [] e ↔ n = 0 ∨ Spans p s [] e := by
  induction n with
  | zero => simp [spans_repeated_zero_iff]
  | succ n ih =>
    rw [spans_repeated_succ_iff, spans_seq_nil_iff, ih]
    simp only [Nat.add_one_ne_zero, false_or]
    exact ⟨And.left, fun h => ⟨h, .inr h⟩⟩

/-- Repetitions of what spans the same span the same. -/
theorem spans_repeated_congr (h : ∀ {s t e}, Spans p s t e ↔ Spans q s t e) {n : Nat}
    {x : Option Nat} {l : Bool} :
    Spans (.repeated p n x l) s t e ↔ Spans (.repeated q n x l) s t e := by
  have himp {p q : Pattern} (h : ∀ {s t e}, Spans p s t e → Spans q s t e) {r : Pattern}
      (hr : Spans r s t e) {n : Nat} {x : Option Nat} (he : r = .repeated p n x l) :
      Spans (.repeated q n x l) s t e := by
    induction hr generalizing n x with
    | stop =>
      injection he with _ hn
      subst hn
      exact .stop
    | owed hp _ _ ih =>
      injection he with hp' hn hx hl
      subst hp' hn hx hl
      exact .owed (h hp) (ih rfl)
    | more hne hp _ _ ih =>
      injection he with hp' hn hx hl
      subst hp' hn hx hl
      exact .more hne (h hp) (ih rfl)
    | _ => cases he
  exact ⟨fun hr => himp h.1 hr rfl, fun hr => himp h.2 hr rfl⟩

end LineCost.Pattern
