import LineCost.Proofs.Outline.Steps

/-!
The lines of a text before the first blank one, which are all that is read of an outline.
-/

namespace LineCost.Outline

open Progress

namespace Line

theorem withoutReturn_blank_iff {text : List Char} :
    (∀ c ∈ withoutReturn text, Text.isBlank c = true) ↔ ∀ c ∈ text, Text.isBlank c = true := by
  rw [withoutReturn]
  split
  · rename_i hlast
    have htext := List.dropLast_append_getLast? '\r' hlast
    constructor
    · intro h c hc
      rw [← htext] at hc
      rcases List.mem_append.1 hc with hc | hc
      · exact h c hc
      · exact List.mem_singleton.1 hc ▸ by decide
    · intro h c hc
      exact h c ((List.dropLast_sublist text).subset hc)
  · rfl

theorem readEntry_ne_blank (s : List Char) : readEntry s ≠ .ok .blank := by
  intro h
  rw [readEntry] at h
  split at h
  · cases h
  · split at h
    · cases h
    · obtain ⟨n, _, h⟩ := bind_eq_ok h
      simp only at h
      split at h
      · cases h
      · obtain ⟨t, _, h⟩ := bind_eq_ok h
        cases h

theorem readField_ne_blank (s : List Char) : readField s ≠ .ok .blank := by
  intro h
  rw [readField] at h
  split at h
  · obtain ⟨_, _, hl⟩ := map_eq_ok h
    cases hl
  · split at h
    · obtain ⟨_, _, hl⟩ := map_eq_ok h
      cases hl
    · split at h
      · obtain ⟨_, _, hl⟩ := map_eq_ok h
        cases hl
      · split at h
        · obtain ⟨_, _, hl⟩ := map_eq_ok h
          cases hl
        · exact readEntry_ne_blank s h

/-- A line is blank if nothing but blanks is on it. -/
theorem blank_iff {text : List Char} :
    read text = .ok .blank ↔ text.all Text.isBlank = true := by
  rw [List.all_eq_true, ← withoutReturn_blank_iff, ← Text.trim_eq_nil_iff, ← List.isEmpty_iff]
  constructor
  · intro h
    rw [read] at h
    split at h
    · assumption
    · split at h
      · obtain ⟨_, _, hl⟩ := map_eq_ok h
        cases hl
      · split at h
        · obtain ⟨_, _, hl⟩ := map_eq_ok h
          cases hl
        · split at h
          · obtain ⟨_, _, hl⟩ := map_eq_ok h
            cases hl
          · split at h
            · exact absurd h (readField_ne_blank _)
            · cases h
  · intro h
    rw [read]
    exact if_pos h

end Line

/-- The lines of a text before the first blank one. -/
def front (text : String) : List (List Char) :=
  (Text.lines text.toList).takeWhile fun l => !l.all Text.isBlank

theorem not_blank_of_mem_front {text : String} {l : List Char} (h : l ∈ front text) :
    Line.read l ≠ .ok .blank := by
  have hl := List.mem_takeWhile_imp h
  rw [Bool.not_eq_true'] at hl
  rw [ne_eq, Line.blank_iff, hl]
  exact Bool.false_ne_true

/-- A reader does not look beyond the first blank line. -/
theorem run_takeWhile (p : Progress) (ls : List (Nat × List Char)) :
    p.run (ls.takeWhile fun l => !l.2.all Text.isBlank) = p.run ls := by
  induction ls generalizing p with
  | nil => rfl
  | cons l ls ih =>
    obtain ⟨n, text⟩ := l
    by_cases hb : text.all Text.isBlank = true
    · rw [List.takeWhile_cons_of_neg (by simp [hb]), run_cons_of_blank p (Line.blank_iff.2 hb)]
      rfl
    · rw [List.takeWhile_cons_of_pos (by simp [hb])]
      simp only [run, ih]

theorem takeWhile_numbered {α : Type} (ls : List α) (keep : α → Bool) :
    (Text.numbered ls).takeWhile (fun l => keep l.2) = Text.numbered (ls.takeWhile keep) := by
  have hfrom : ∀ n, ((ls.zipIdx n).map fun p => (p.2, p.1)).takeWhile (fun l => keep l.2) =
      ((ls.takeWhile keep).zipIdx n).map fun p => (p.2, p.1) := by
    induction ls with
    | nil => exact fun _ => rfl
    | cons a ls ih =>
      intro n
      rw [List.zipIdx_cons, List.map_cons, List.takeWhile_cons, List.takeWhile_cons, ih]
      split <;> rfl
  exact hfrom 1

theorem run_front (text : String) : Progress.start.run (Text.numbered (front text)) =
    Progress.start.run (Text.numbered (Text.lines text.toList)) := by
  rw [front, ← takeWhile_numbered, run_takeWhile]

theorem run_front_eq_ok_iff {text : String} {q : Progress} :
    Progress.start.run (Text.numbered (front text)) = .ok q ↔ Leads .start (front text) q := by
  rw [run_eq_ok_iff, Text.map_snd_numbered]
  constructor
  · intro h
    obtain ⟨ls, rest, hls, hleads, hrest⟩ := h
    have hnil : rest = [] := by
      cases rest with
      | nil => rfl
      | cons l rest =>
        have hl : l ∈ front text := hls ▸ List.mem_append_right _ List.mem_cons_self
        exact absurd (hrest l rfl) (not_blank_of_mem_front hl)
    rwa [hls, hnil, List.append_nil]
  · intro h
    exact ⟨front text, [], (List.append_nil _).symm, h, by simp⟩

end LineCost.Outline
