import LineCost.Proofs.Listing.Sections

/-!
Where the marks of a listing are out of order. A function begins inside another one, or the last one
has no end; which of the two is reported, and with which name and line, can be read off the lines.
-/

namespace LineCost.Listing

/-- A function of the name has begun and no closing mark has come since. -/
def LeftOpen (ls : List Line) (name : String) : Prop :=
  ∃ before body, ls = before ++ .opening name :: body ∧ .closing ∉ body

/-- In line `n`, counted from one, a function of the name begins while another is open. -/
def Nested (ls : List Line) (n : Nat) (name : String) : Prop :=
  ∃ front rest, ls = front ++ .opening name :: rest ∧ n = front.length + 1 ∧ ∃ f, LeftOpen front f

/-- It is the first to do so, whatever may follow. -/
def FirstNested (ls : List Line) (n : Nat) (name : String) : Prop :=
  ∃ front rest, ls = front ++ .opening name :: rest ∧ n = front.length + 1 ∧
    (∃ f, LeftOpen front f) ∧ ∀ k f, ¬ Nested front k f

/-- Every function that begins has its end before another begins. -/
def Balanced (ls : List Line) : Prop :=
  ∀ before name rest, ls = before ++ .opening name :: rest →
    ∃ body after, rest = body ++ .closing :: after ∧ ∀ f, .opening f ∉ body

theorem leftOpen_concat_iff {ls : List Line} {line : Line} {name : String} :
    LeftOpen (ls ++ [line]) name ↔ line = .opening name ∨ line ≠ .closing ∧ LeftOpen ls name := by
  constructor
  · rintro ⟨before, body, hls, hbody⟩
    rcases List.eq_nil_or_concat body with rfl | ⟨body, last, rfl⟩
    · obtain ⟨_, hline⟩ := List.append_inj' hls rfl
      exact .inl (List.cons.inj hline).1
    · rw [List.concat_eq_append, ← List.cons_append, ← List.append_assoc] at hls
      obtain ⟨hfront, hlast⟩ := List.append_inj' hls rfl
      rw [← (List.cons.inj hlast).1, List.concat_eq_append, List.mem_append, not_or] at hbody
      exact .inr ⟨fun h => hbody.2 (List.mem_singleton.2 h.symm), before, body, hfront, hbody.1⟩
  · rintro (rfl | ⟨hline, before, body, rfl, hbody⟩)
    · exact ⟨ls, [], rfl, by simp⟩
    · refine ⟨before, body ++ [line], by simp, ?_⟩
      simp [hbody, Ne.symm hline]

theorem nested_append_left {ls : List Line} {n : Nat} {name : String} (h : Nested ls n name)
    (more : List Line) : Nested (ls ++ more) n name := by
  obtain ⟨front, rest, rfl, hn, hopen⟩ := h
  exact ⟨front, rest ++ more, by simp, hn, hopen⟩

theorem nested_concat_iff {ls : List Line} {line : Line} {n : Nat} {name : String} :
    Nested (ls ++ [line]) n name ↔
      Nested ls n name ∨ line = .opening name ∧ n = ls.length + 1 ∧ ∃ f, LeftOpen ls f := by
  constructor
  · rintro ⟨front, rest, hls, hn, hopen⟩
    rcases List.eq_nil_or_concat rest with rfl | ⟨rest, last, rfl⟩
    · obtain ⟨rfl, hline⟩ := List.append_inj' hls rfl
      exact .inr ⟨(List.cons.inj hline).1, hn, hopen⟩
    · rw [List.concat_eq_append, ← List.cons_append, ← List.append_assoc] at hls
      exact .inl ⟨front, rest, (List.append_inj' hls rfl).1, hn, hopen⟩
  · rintro (h | ⟨rfl, hn, hopen⟩)
    · exact nested_append_left h [line]
    · exact ⟨ls, [], rfl, hn, hopen⟩

theorem FirstNested.nested {ls : List Line} {n : Nat} {name : String} (h : FirstNested ls n name) :
    Nested ls n name := by
  obtain ⟨front, rest, hls, hn, hopen, _⟩ := h
  exact ⟨front, rest, hls, hn, hopen⟩

/-- Only one function is the first to begin inside another. -/
theorem FirstNested.unique {ls : List Line} {n k : Nat} {name f : String}
    (h : FirstNested ls n name) (hk : FirstNested ls k f) : n = k ∧ name = f := by
  obtain ⟨front, rest, hls, hn, hopen, hflat⟩ := h
  obtain ⟨front', rest', hls', hk, hopen', hflat'⟩ := hk
  rcases List.append_eq_append_iff.1 (hls.symm.trans hls') with ⟨m, hm, hrest⟩ | ⟨m, hm, hrest⟩
  · cases m with
    | nil =>
      rw [List.append_nil] at hm
      have hline := (List.cons.inj hrest).1
      rw [hn, hk, hm]
      exact ⟨rfl, Line.opening.inj hline⟩
    | cons line m =>
      obtain ⟨rfl, _⟩ := List.cons.inj hrest
      exact absurd ⟨front, m, hm, hn, hopen⟩ (hflat' n name)
  · cases m with
    | nil =>
      rw [List.append_nil] at hm
      have hline := (List.cons.inj hrest).1
      rw [hn, hk, hm]
      exact ⟨rfl, (Line.opening.inj hline).symm⟩
    | cons line m =>
      obtain ⟨rfl, _⟩ := List.cons.inj hrest
      exact absurd ⟨front', m, hm, hk, hopen'⟩ (hflat k f)

/-- What has been seen of a listing whose functions are in order so far: the section that is open,
if one is. -/
structure Stands (past : List Line) (open? : Option Section) : Prop where
  flat : ∀ n name, ¬ Nested past n name
  leftOpen_iff : ∀ name, LeftOpen past name ↔ open?.map Section.name = some name

theorem stands_nil : Stands [] none where
  flat := by
    rintro n name ⟨front, rest, h, _⟩
    simp at h
  leftOpen_iff := by
    intro name
    simp [LeftOpen]

theorem Stands.opening {past : List Line} (h : Stands past none) (name : String) :
    Stands (past ++ [.opening name]) (some ⟨name, []⟩) where
  flat := by
    intro n f hf
    rcases nested_concat_iff.1 hf with hf | ⟨_, _, g, hg⟩
    · exact h.flat n f hf
    · cases (h.leftOpen_iff g).1 hg
  leftOpen_iff := by
    intro f
    have hnone : ¬ LeftOpen past f := fun hf => by cases (h.leftOpen_iff f).1 hf
    simp [leftOpen_concat_iff, hnone]

theorem Stands.closing {past : List Line} {open? : Option Section} (h : Stands past open?) :
    Stands (past ++ [.closing]) none where
  flat := by
    intro n f hf
    rcases nested_concat_iff.1 hf with hf | ⟨hline, _⟩
    · exact h.flat n f hf
    · cases hline
  leftOpen_iff := by
    intro f
    simp [leftOpen_concat_iff]

theorem Stands.inner {past : List Line} {open? : Option Section} {line : Line}
    (h : Stands past open?) (hl : Inner line) {open?' : Option Section}
    (ho : open?'.map Section.name = open?.map Section.name) : Stands (past ++ [line]) open?' where
  flat := by
    intro n f hf
    rcases nested_concat_iff.1 hf with hf | ⟨hline, _⟩
    · exact h.flat n f hf
    · exact hl.2 f hline
  leftOpen_iff := by
    intro f
    rw [leftOpen_concat_iff, ho, h.leftOpen_iff]
    simp [hl.1, hl.2 f]

/-- A function that begins inside an open one is reported. -/
theorem Stands.firstNested {past : List Line} {s : Section} (h : Stands past (some s))
    (name : String) (rest : List Line) :
    FirstNested (past ++ .opening name :: rest) (past.length + 1) name :=
  ⟨past, rest, rfl, rfl, ⟨s.name, (h.leftOpen_iff s.name).2 rfl⟩, h.flat⟩

/-- What the outcome of dividing the lines into sections says of their marks. -/
def Diagnosed (ls : List Line) : Except ReadError (List Section) → Prop
  | .ok _ => (∀ n name, ¬ Nested ls n name) ∧ ∀ name, ¬ LeftOpen ls name
  | .error (.nested n name) => FirstNested ls n name
  | .error (.unterminated name) =>
    (∀ n f, ¬ Nested ls n f) ∧ ∀ f, LeftOpen ls f ↔ name = f

theorem diagnosed_map {ls : List Line} {r : Except ReadError (List Section)}
    {f : List Section → List Section} (h : Diagnosed ls r) : Diagnosed ls (r.map f) := by
  cases r <;> exact h

theorem diagnosed_sectionsFrom {past : List Line} {open? : Option Section}
    (h : Stands past open?) (ls : List Line) :
    Diagnosed (past ++ ls)
      (sectionsFrom open? (Text.numberedFrom (past.length + 1) ls)) := by
  induction ls generalizing past open? with
  | nil =>
    rw [List.append_nil]
    cases open? with
    | none => exact ⟨h.flat, fun name hname => by cases (h.leftOpen_iff name).1 hname⟩
    | some s => exact ⟨h.flat, fun f => (h.leftOpen_iff f).trans (by simp)⟩
  | cons line ls ih =>
    -- the line joins what has been seen
    have hnext : ∀ {next : Option Section}, Stands (past ++ [line]) next →
        Diagnosed (past ++ line :: ls)
          (sectionsFrom next (Text.numberedFrom (past.length + 1 + 1) ls)) := by
      intro next hs
      simpa using ih hs
    rw [Text.numberedFrom]
    cases open? with
    | none =>
      cases line with
      | opening name => exact hnext (h.opening name)
      | closing => exact hnext h.closing
      | _ => exact hnext (h.inner ⟨by simp, by simp⟩ rfl)
    | some s =>
      cases line with
      | opening name => exact h.firstNested name ls
      | closing => exact diagnosed_map (hnext h.closing)
      | _ => exact hnext (h.inner ⟨by simp, by simp⟩ rfl)

theorem diagnosed_sections (lines : List Line) : Diagnosed lines (sections lines) := by
  have h := diagnosed_sectionsFrom stands_nil lines
  rwa [sections, Text.numbered_eq]

/-- The first function that begins inside another is reported, if there is one. -/
theorem sections_eq_nested_iff {lines : List Line} {n : Nat} {name : String} :
    sections lines = .error (.nested n name) ↔ FirstNested lines n name := by
  have h := diagnosed_sections lines
  constructor
  · intro he
    rwa [he] at h
  · intro hfirst
    cases hs : sections lines with
    | ok parts =>
      rw [hs] at h
      exact absurd hfirst.nested (h.1 n name)
    | error e =>
      rw [hs] at h
      cases e with
      | nested k f =>
        obtain ⟨rfl, rfl⟩ := hfirst.unique h
        rfl
      | unterminated f => exact absurd hfirst.nested (h.1 n name)

/-- Otherwise a function that is left open at the end is. -/
theorem sections_eq_unterminated_iff {lines : List Line} {name : String} :
    sections lines = .error (.unterminated name) ↔
      (∀ n f, ¬ Nested lines n f) ∧ LeftOpen lines name := by
  have h := diagnosed_sections lines
  constructor
  · intro he
    rw [he] at h
    exact ⟨h.1, (h.2 name).2 rfl⟩
  · rintro ⟨hflat, hopen⟩
    cases hs : sections lines with
    | ok parts =>
      rw [hs] at h
      exact absurd hopen (h.2 name)
    | error e =>
      rw [hs] at h
      cases e with
      | nested k f => exact absurd h.nested (hflat k f)
      | unterminated f => rw [(h.2 name).1 hopen]

theorem balanced_iff {ls : List Line} :
    Balanced ls ↔ (∀ n name, ¬ Nested ls n name) ∧ ∀ name, ¬ LeftOpen ls name := by
  constructor
  · intro h
    constructor
    · rintro n name ⟨front, rest, rfl, _, f, before, body, rfl, hbody⟩
      obtain ⟨inside, after, hrest, hinside⟩ :=
        h before f (body ++ .opening name :: rest) (by simp)
      rcases List.append_eq_append_iff.1 hrest with ⟨m, rfl, hm⟩ | ⟨m, rfl, hm⟩
      · cases m with
        | nil => cases (List.cons.inj hm).1
        | cons line m =>
          obtain ⟨rfl, _⟩ := List.cons.inj hm
          exact hinside name (by simp)
      · cases m with
        | nil => cases (List.cons.inj hm).1
        | cons line m =>
          obtain ⟨rfl, _⟩ := List.cons.inj hm
          exact hbody (by simp)
    · rintro name ⟨before, body, rfl, hbody⟩
      obtain ⟨inside, after, rfl, _⟩ := h before name body rfl
      exact hbody (by simp)
  · rintro ⟨hflat, hclosed⟩ before name rest rfl
    by_cases hc : .closing ∈ rest
    · obtain ⟨body, after, rfl, hbody⟩ := List.eq_append_cons_of_mem hc
      refine ⟨body, after, rfl, ?_⟩
      intro f hf
      obtain ⟨a, b, rfl⟩ := List.append_of_mem hf
      have hopen : LeftOpen (before ++ .opening name :: a) name :=
        ⟨before, a, rfl, fun ha => hbody (List.mem_append_left _ ha)⟩
      exact hflat _ f ⟨_, b ++ .closing :: after, by simp, rfl, name, hopen⟩
    · exact absurd ⟨before, rest, rfl, hc⟩ (hclosed name)

/-- A listing has sections exactly if every function ends before another begins. -/
theorem exists_sections_iff {lines : List Line} :
    (∃ parts, sections lines = .ok parts) ↔ Balanced lines := by
  have h := diagnosed_sections lines
  rw [balanced_iff]
  constructor
  · rintro ⟨parts, hparts⟩
    rwa [hparts] at h
  · rintro ⟨hflat, hclosed⟩
    cases hs : sections lines with
    | ok parts => exact ⟨parts, rfl⟩
    | error e =>
      rw [hs] at h
      cases e with
      | nested k f => exact absurd h.nested (hflat k f)
      | unterminated f => exact absurd ((h.2 f).2 rfl) (hclosed f)

end LineCost.Listing
