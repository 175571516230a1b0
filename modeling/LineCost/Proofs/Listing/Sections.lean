import LineCost.Listing.Section
import LineCost.Proofs.Text.Lines

/-!
The sections of a listing are what stands between its marks, wherever each opening mark has a
closing one before the next opens.
-/

namespace LineCost.Listing

/-- A line that may stand between the marks of a function. -/
def Inner (line : Line) : Prop := line ≠ .closing ∧ ∀ name, line ≠ .opening name

/-- Lines with marks in order, and the sections between them. -/
inductive Bracketed : List Line → List Section → Prop where
  | nil : Bracketed [] []
  | outer {line : Line} {rest : List Line} {parts : List Section}
    (hl : ∀ name, line ≠ .opening name) (h : Bracketed rest parts) : Bracketed (line :: rest) parts
  | func {name : String} {body rest : List Line} {parts : List Section}
    (hb : ∀ l ∈ body, Inner l) (h : Bracketed rest parts) :
    Bracketed (.opening name :: (body ++ .closing :: rest)) (⟨name, body⟩ :: parts)

theorem bracketed_nil_iff {parts : List Section} : Bracketed [] parts ↔ parts = [] := by
  constructor
  · intro h
    cases h
    rfl
  · intro h
    exact h ▸ .nil

theorem bracketed_cons_iff {line : Line} {rest : List Line} {parts : List Section}
    (hl : ∀ name, line ≠ .opening name) : Bracketed (line :: rest) parts ↔ Bracketed rest parts := by
  constructor
  · intro h
    cases h with
    | outer _ h => exact h
    | func _ _ => exact absurd rfl (hl _)
  · exact .outer hl

/-- What may follow in a section that is open, given what its lines are so far. -/
def Closes (s : Section) (ls : List Line) (parts : List Section) : Prop :=
  ∃ body rest after, ls = body ++ .closing :: rest ∧ (∀ l ∈ body, Inner l) ∧
    Bracketed rest after ∧ parts = ⟨s.name, s.lines.reverse ++ body⟩ :: after

theorem bracketed_opening_iff {name : String} {ls : List Line} {parts : List Section} :
    Bracketed (.opening name :: ls) parts ↔ Closes ⟨name, []⟩ ls parts := by
  constructor
  · intro h
    generalize he : Line.opening name :: ls = all at h
    cases h with
    | nil => cases he
    | outer hl _ => exact absurd (List.cons.inj he).1.symm (hl name)
    | func hb h =>
      obtain ⟨hn, hls⟩ := List.cons.inj he
      cases hn
      exact ⟨_, _, _, hls, hb, h, rfl⟩
  · intro h
    obtain ⟨body, rest, after, hls, hb, h, hparts⟩ := h
    subst hls
    subst hparts
    exact .func hb h

theorem not_closes_opening {s : Section} {name : String} {ls : List Line} {parts : List Section} :
    ¬ Closes s (.opening name :: ls) parts := by
  intro h
  obtain ⟨body, rest, after, hls, hb, _, _⟩ := h
  cases body with
  | nil => cases hls
  | cons l body =>
    have hl := (List.cons.inj hls).1
    exact (hb l List.mem_cons_self).2 name hl.symm

theorem closes_closing_iff {s : Section} {ls : List Line} {parts : List Section} :
    Closes s (.closing :: ls) parts ↔
      ∃ after, Bracketed ls after ∧ parts = ⟨s.name, s.lines.reverse⟩ :: after := by
  constructor
  · intro h
    obtain ⟨body, rest, after, hls, hb, h, hparts⟩ := h
    cases body with
    | nil =>
      obtain ⟨_, hrest⟩ := List.cons.inj hls
      subst hrest
      exact ⟨after, h, by rw [hparts, List.append_nil]⟩
    | cons l body =>
      have hl := (List.cons.inj hls).1
      exact absurd hl.symm (hb l List.mem_cons_self).1
  · intro h
    obtain ⟨after, h, hparts⟩ := h
    exact ⟨[], ls, after, rfl, by simp, h, by rw [hparts, List.append_nil]⟩

theorem closes_cons_iff {s : Section} {line : Line} {ls : List Line} {parts : List Section}
    (hl : Inner line) : Closes s (line :: ls) parts ↔ Closes ⟨s.name, line :: s.lines⟩ ls parts := by
  constructor
  · intro h
    obtain ⟨body, rest, after, hls, hb, h, hparts⟩ := h
    cases body with
    | nil => exact absurd (List.cons.inj hls).1 hl.1
    | cons l body =>
      obtain ⟨he, hrest⟩ := List.cons.inj hls
      subst he
      refine ⟨body, rest, after, hrest, fun k hk => hb k (List.mem_cons_of_mem _ hk), h, ?_⟩
      rw [hparts, List.reverse_cons, List.append_assoc]
      rfl
  · intro h
    obtain ⟨body, rest, after, hls, hb, h, hparts⟩ := h
    subst hls
    refine ⟨line :: body, rest, after, rfl, ?_, h, ?_⟩
    · intro k hk
      rcases List.mem_cons.1 hk with he | hk
      · exact he ▸ hl
      · exact hb k hk
    · rw [hparts, List.reverse_cons, List.append_assoc]
      rfl

/-- The sections of what follows, given the one that is open. -/
def Divides : Option Section → List Line → List Section → Prop
  | none => Bracketed
  | some s => Closes s

theorem sectionsFrom_eq_ok_iff {open? : Option Section} {ls : List (Nat × Line)}
    {parts : List Section} :
    sectionsFrom open? ls = .ok parts ↔ Divides open? (ls.map Prod.snd) parts := by
  fun_induction sectionsFrom open? ls generalizing parts
  case case1 =>
    rw [Divides, List.map_nil, bracketed_nil_iff, Except.ok.injEq, eq_comm]
  case case2 s =>
    simp [Divides, Closes]
  case case3 n rest name ih =>
    rw [ih, Divides, Divides, List.map_cons, bracketed_opening_iff]
  case case4 n line rest hl ih =>
    rw [ih, Divides, List.map_cons, bracketed_cons_iff hl]
  case case5 n rest s name =>
    simp [Divides, not_closes_opening]
  case case6 n rest s ih =>
    rw [Divides, List.map_cons, closes_closing_iff]
    cases hr : sectionsFrom none rest with
    | error e =>
      have hnone : ∀ after, ¬ Bracketed (rest.map Prod.snd) after := by
        intro after h
        rw [ih.2 h] at hr
        cases hr
      simp [Except.map, hnone]
    | ok after =>
      have hafter : ∀ after', Bracketed (rest.map Prod.snd) after' ↔ after = after' := by
        intro after'
        have h := @ih after'
        rw [hr, Except.ok.injEq] at h
        exact h.symm
      simp [Except.map, hafter, eq_comm]
  case case7 n rest s line hopen hclosing ih =>
    rw [ih, Divides, Divides, List.map_cons, closes_cons_iff ⟨hclosing, hopen⟩]

/-- A listing has sections exactly if its marks are in order. -/
theorem sections_eq_ok_iff {lines : List Line} {parts : List Section} :
    sections lines = .ok parts ↔ Bracketed lines parts := by
  rw [sections, sectionsFrom_eq_ok_iff, Text.map_snd_numbered, Divides]

end LineCost.Listing
