import LineCost.Proofs.Attribution.Exactness

/-!
What single entries gain. The first block that records a line gets it on its entry for that line,
and nothing else; every other entry gets whole lines that are its own, or that no block records.
-/

namespace LineCost.Attribution

open Outline

/-- The lines that go to an entry. -/
def linesFor (hs : List Handout) (j k : Nat) : List Nat :=
  (hs.filter fun h => h.block = j ∧ h.entry = k).map Handout.line

section Exact

variable {lines : LineMap} {before after : List Block} {hs : List Handout} {h : Handout}
  {n i j k : Nat} {t : Tally}

theorem mem_linesFor_iff {m : Nat} :
    m ∈ linesFor hs j k ↔ ∃ h ∈ hs, h.block = j ∧ h.entry = k ∧ h.line = m := by
  simp [linesFor, and_assoc]

/-- No line has two first recorders. -/
theorem FirstRecorder.unique (hi : FirstRecorder before n i) (hj : FirstRecorder before n j) :
    i = j := by
  obtain ⟨⟨b, hb, hbn⟩, hbefore⟩ := hi
  obtain ⟨⟨c, hc, hcn⟩, hbefore'⟩ := hj
  rcases Nat.lt_trichotomy i j with hlt | heq | hgt
  · rw [hbefore' i hlt b hb] at hbn
    cases hbn
  · exact heq
  · rw [hbefore j hgt c hc] at hcn
    cases hcn

namespace ExactlyAttributed

theorem eq_of_line (he : ExactlyAttributed lines before after hs) {h' : Handout} (hh : h ∈ hs)
    (hh' : h' ∈ hs) (hl : h.line = h'.line) : h = h' :=
  List.inj_on_of_nodup_map he.once hh hh' hl

/-- A line either is handed out to the entry for it in the first block that records it, or no block
records it. -/
theorem recorded_or_free (he : ExactlyAttributed lines before after hs) (hh : h ∈ hs) :
    h.entry = h.line ∧ FirstRecorder before h.line h.block ∨
      ∀ b ∈ before, claims b h.line = false := by
  by_cases hc : ∃ b ∈ before, claims b h.line = true
  · obtain ⟨k, hk⟩ := exists_firstRecorder_iff.2 hc
    obtain ⟨_, hget, ht⟩ := he.whole h hh
    have hsame := he.eq_of_line hh (he.direct h.line h.tally k hget ht hk) rfl
    left
    constructor
    · exact congrArg Handout.entry hsame
    · rwa [congrArg Handout.block hsame]
  · right
    intro b hb
    rw [← Bool.not_eq_true]
    exact fun hbn => hc ⟨b, hb, hbn⟩

/-- What an entry gains are the tallies of the lines that go to it. -/
theorem booked_eq (he : ExactlyAttributed lines before after hs) :
    booked hs j k = Tally.sum ((linesFor hs j k).map fun m => (lines.get? m).getD .zero) := by
  rw [booked, linesFor, List.map_map]
  congr 1
  apply List.map_congr_left
  intro h hh
  rw [Function.comp_apply, (he.whole h (List.mem_filter.1 hh).1).2.1]
  rfl

theorem nodup_linesFor (he : ExactlyAttributed lines before after hs) :
    (linesFor hs j k).Nodup :=
  he.once.sublist (List.filter_sublist.map _)

/-- The first block that records a line gets it, and nothing else, on its entry for the line. -/
theorem linesFor_firstRecorder (he : ExactlyAttributed lines before after hs)
    (hn : lines.get? n = some t) (ht : t.cycles ≠ 0) (hi : FirstRecorder before n i) :
    linesFor hs i n = [n] := by
  have hmem : n ∈ linesFor hs i n :=
    mem_linesFor_iff.2 ⟨_, he.direct n t i hn ht hi, rfl, rfl, rfl⟩
  have hall : ∀ m ∈ linesFor hs i n, m = n := by
    intro m hm
    obtain ⟨h, hh, rfl, rfl, rfl⟩ := mem_linesFor_iff.1 hm
    rcases he.recorded_or_free hh with ⟨hentry, _⟩ | hfree
    · exact hentry.symm
    · -- a block that gets a line which nobody records is starved, so it is not the first recorder
      exact absurd hi ((he.ranged h hh hfree).1.2 h.entry t hn ht)
  exact List.perm_singleton.1
    ((List.perm_ext_iff_of_nodup he.nodup_linesFor (List.nodup_singleton n)).2 fun m =>
      ⟨fun hm => List.mem_singleton.2 (hall m hm), fun hm => List.mem_singleton.1 hm ▸ hmem⟩)

/-- Nothing of a line that has a first recorder goes to other entries. -/
theorem not_mem_linesFor (he : ExactlyAttributed lines before after hs)
    (hi : FirstRecorder before n i) (hne : (j, k) ≠ (i, n)) : n ∉ linesFor hs j k := by
  intro hm
  obtain ⟨h, hh, rfl, rfl, rfl⟩ := mem_linesFor_iff.1 hm
  rcases he.recorded_or_free hh with ⟨hentry, hrec⟩ | hfree
  · exact hne (by rw [hrec.unique hi, hentry])
  · obtain ⟨b, hb, hbn⟩ := exists_firstRecorder_iff.1 ⟨i, hi⟩
    rw [hfree b hb] at hbn
    cases hbn

theorem get?_after (he : ExactlyAttributed lines before after hs) {b : Block}
    (hb : before[j]? = some b) (hk : b.lines.get? k = some t) :
    ∃ b', after[j]? = some b' ∧ b'.name = b.name ∧ b'.skip = b.skip ∧ b'.lines.get? k =
      some (t + Tally.sum ((linesFor hs j k).map fun m => (lines.get? m).getD .zero)) := by
  refine ⟨credit hs j b, ?_, rfl, rfl, ?_⟩
  · rw [he.credited, List.getElem?_mapIdx, hb]
    rfl
  · rw [credit, LineMap.get?_map, hk, Option.map_some, he.booked_eq]

end ExactlyAttributed

end Exact

end LineCost.Attribution
