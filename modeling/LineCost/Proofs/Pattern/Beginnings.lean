import LineCost.Pattern.Track

/-!
The ways in which a pattern can begin: a set for the first character of a piece, and a pattern for
the rest of it. A pattern spans a piece that has a first character exactly if one of its beginnings
does (`spans_cons_iff`). So what a pattern spans can be followed character by character.
-/

namespace LineCost.Pattern

structure Beginning where
  set : CharSet
  rest : Pattern

namespace Beginning

/-- The beginning of a row, with another part behind what is left. -/
def before (b : Beginning) (q : Pattern) : Beginning := { b with rest := .seq b.rest q }

/-- The beginning spans the character and what follows it. -/
def Spans (b : Beginning) (c : Char) (v : List Char) (e : Bool) : Prop :=
  b.set.contains c = true ∧ b.rest.Spans false v e

end Beginning

/-- All ways in which the pattern can begin, where nothing stands before the piece if `atStart`. A
row also begins like its second part, if the first one can be skipped, and a repetition like any of
its turns, if the turns before it can be idle. -/
def beginnings : Pattern → (atStart : Bool) → List Beginning
  | .one a, _ => [⟨a, .empty⟩]
  | .seq p q, s =>
    (p.beginnings s).map (·.before q) ++ if p.skips.allow s false then q.beginnings s else []
  | .alt p q, s => p.beginnings s ++ q.beginnings s
  | .repeated p least extra isLazy, s =>
    ((List.range (slotCount least extra)).filter fun t => t = 0 || p.skips.allow s false).flatMap
      fun t => (p.beginnings s).map (·.before (afterTurn p least extra isLazy t))
  | .group _ p, s => p.beginnings s
  | _, _ => []

variable {p q : Pattern} {s e : Bool} {c : Char} {v : List Char}

theorem Beginning.spans_before_iff {b : Beginning} :
    (b.before q).Spans c v e ↔
      ∃ v₁ v₂, v = v₁ ++ v₂ ∧ b.Spans c v₁ (e && v₂.isEmpty) ∧ q.Spans false v₂ e := by
  simp only [Beginning.Spans, before, spans_seq_iff, Bool.false_and]
  constructor
  · intro h
    obtain ⟨hc, v₁, v₂, hv, hrest, hq⟩ := h
    exact ⟨v₁, v₂, hv, ⟨hc, hrest⟩, hq⟩
  · intro h
    obtain ⟨v₁, v₂, hv, ⟨hc, hrest⟩, hq⟩ := h
    exact ⟨hc, v₁, v₂, hv, hrest, hq⟩

/-- A turn takes the first character as one of the beginnings does, and leaves the rest behind it.
-/
theorem turnThen_iff
    (hp : ∀ {v e}, p.Spans s (c :: v) e ↔ ∃ b ∈ p.beginnings s, b.Spans c v e) :
    TurnThen p q s c v e ↔ ∃ b ∈ (p.beginnings s).map (·.before q), b.Spans c v e := by
  constructor
  · intro h
    obtain ⟨v₁, v₂, hv, hturn, hq⟩ := h
    obtain ⟨b, hb, hspans⟩ := hp.1 hturn
    exact ⟨_, List.mem_map_of_mem hb, Beginning.spans_before_iff.2 ⟨v₁, v₂, hv, hspans, hq⟩⟩
  · intro h
    obtain ⟨_, hmem, hspans⟩ := h
    obtain ⟨b, hb, rfl⟩ := List.mem_map.1 hmem
    obtain ⟨v₁, v₂, hv, hspans, hq⟩ := Beginning.spans_before_iff.1 hspans
    exact ⟨v₁, v₂, hv, hp.2 ⟨b, hb, hspans⟩, hq⟩

/-- A pattern spans a piece with a first character exactly if one of its beginnings does. -/
theorem spans_cons_iff : p.Spans s (c :: v) e ↔ ∃ b ∈ p.beginnings s, b.Spans c v e := by
  induction p generalizing v e with
  | empty => simp [beginnings, spans_empty_iff]
  | textStart => simp [beginnings, spans_textStart_iff]
  | textEnd => simp [beginnings, spans_textEnd_iff]
  | one a =>
    simp only [beginnings, Beginning.Spans, List.mem_singleton, exists_eq_left, spans_empty_iff,
      spans_one_iff, List.cons.injEq]
    constructor
    · intro h
      obtain ⟨d, ⟨rfl, rfl⟩, hd⟩ := h
      exact ⟨hd, rfl⟩
    · intro h
      exact ⟨c, ⟨rfl, h.2⟩, h.1⟩
  | seq p q ihp ihq =>
    rw [spans_seq_cons_iff, turnThen_iff ihp, ihq, beginnings]
    simp only [List.mem_append, or_and_right, exists_or]
    rw [or_comm]
    refine or_congr_right ?_
    rw [← allow_skips_iff]
    split <;> simp [*]
  | alt p q ihp ihq =>
    rw [spans_alt_iff, ihp, ihq, beginnings]
    simp only [List.mem_append, or_and_right, exists_or]
  | repeated p least extra isLazy ih =>
    rw [spans_repeated_cons_iff, Begins, beginnings]
    simp only [turnThen_iff ih, List.mem_flatMap, List.mem_filter,
      List.mem_range, Bool.or_eq_true, decide_eq_true_eq, allow_skips_iff]
    constructor
    · intro h
      obtain ⟨t, ht, hidle, b, hb, hspans⟩ := h
      exact ⟨b, ⟨t, ⟨ht, hidle⟩, hb⟩, hspans⟩
    · intro h
      obtain ⟨b, ⟨t, ⟨ht, hidle⟩, hb⟩, hspans⟩ := h
      exact ⟨t, ht, hidle, b, hb, hspans⟩
  | group n p ih => rw [spans_group_iff, ih, beginnings]

end LineCost.Pattern
