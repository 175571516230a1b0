import Mathlib.Data.List.Nodup

/-!
Lists in which something occurs twice.
-/

namespace LineCost

variable {α β : Type}

/-- The earliest element of the list that has occurred before. -/
def EarliestRepeat (l : List α) (a : α) : Prop :=
  ∃ before after, l = before ++ a :: after ∧ before.Nodup ∧ a ∈ before

/-- The images of a list are distinct unless one of them stands in two places. -/
theorem not_nodup_map_iff {f : α → β} {l : List α} : ¬ (l.map f).Nodup ↔
    ∃ (i j : Nat) (a b : α), i < j ∧ l[i]? = some a ∧ l[j]? = some b ∧ f a = f b := by
  rw [List.nodup_iff_getElem?_ne_getElem?]
  simp only [not_forall, not_not, List.getElem?_map, List.length_map]
  constructor
  · rintro ⟨i, j, hij, hj, h⟩
    have hi : i < l.length := Nat.lt_trans hij hj
    rw [List.getElem?_eq_getElem hi, List.getElem?_eq_getElem hj] at h
    exact ⟨i, j, _, _, hij, List.getElem?_eq_getElem hi, List.getElem?_eq_getElem hj,
      Option.some.inj h⟩
  · rintro ⟨i, j, a, b, hij, hi, hj, h⟩
    obtain ⟨hlt, -⟩ := List.getElem?_eq_some_iff.1 hj
    refine ⟨i, j, hij, hlt, ?_⟩
    rw [hi, hj, Option.map_some, Option.map_some, h]

end LineCost
