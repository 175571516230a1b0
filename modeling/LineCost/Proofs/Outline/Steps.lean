import LineCost.Outline.Reader
import LineCost.Proofs.Outline.Tokens

/-!
What one line does to what has been read of an outline, and what a row of lines does. Line numbers
show in faults only, so they play no part where there is none.
-/

namespace LineCost.Outline

namespace Progress

/-- The lines that fit a position, and where each leads. -/
inductive Advances : Progress → Line → Progress → Prop where
  | func {p : Progress} {name : String} {done : List Func} (h : p.settled? = some done) :
    Advances p (.func name) ⟨done, .func name⟩
  | decl {done : List Func} {name : String} {l : Location} :
    Advances ⟨done, .func name⟩ (.decl l) ⟨done, .body ⟨name, l, none, []⟩⟩
  | block {done : List Func} {position : Position} {f : OpenFunc} {name : String}
    (h : position.settled? = some f) :
    Advances ⟨done, position⟩ (.block name) ⟨done, .block f name⟩
  | size {done : List Func} {f : OpenFunc} {name : String} {k : Nat}
    (h : f.layout.getD .block = .block) :
    Advances ⟨done, .block f name⟩ (.size k) ⟨done, .size { f with layout := some .block } name k⟩
  | start {done : List Func} {f : OpenFunc} {name : String} {k : Nat} {l : Location} :
    Advances ⟨done, .size f name k⟩ (.start l) ⟨done, .start f name k l⟩
  | stop {done : List Func} {f : OpenFunc} {name : String} {k : Nat} {first l : Location} :
    Advances ⟨done, .start f name k first⟩ (.stop l) ⟨done, .span f name ⟨k, first, l⟩⟩
  | tally {done : List Func} {f : OpenFunc} {name : String} {s : Span} {t : Tally} :
    Advances ⟨done, .span f name s⟩ (.tally t) ⟨done, .tally f name s t⟩
  | firstEntry {done : List Func} {f : OpenFunc} {name : String} {k : Nat} {t : Option Tally}
    (h : f.layout.getD .line = .line) :
    Advances ⟨done, .block f name⟩ (.entry k t)
      ⟨done, .lines { f with layout := some .line } name (LineMap.empty.addAt k (t.getD .zero))⟩
  | nextEntry {done : List Func} {f : OpenFunc} {name : String} {m : LineMap} {k : Nat}
    {t : Option Tally} :
    Advances ⟨done, .lines f name m⟩ (.entry k t)
      ⟨done, .lines f name (m.addAt k (t.getD .zero))⟩

theorem withLayout_eq_ok {f g : OpenFunc} {layout : Layout} {n : Nat} {block : String}
    (h : f.withLayout layout n block = .ok g) :
    f.layout.getD layout = layout ∧ g = { f with layout := some layout } := by
  rw [OpenFunc.withLayout] at h
  split at h
  · rename_i hf
    exact ⟨hf, (Except.ok.inj h).symm⟩
  · simp at h

theorem advances_of_step {p q : Progress} {n : Nat} {text : List Char} {line : Line}
    (h : p.step n text line = .ok q) : Advances p line q := by
  obtain ⟨done, position⟩ := p
  revert h
  fun_cases Progress.step ⟨done, position⟩ n text line
  all_goals intro h
  case case1 name done' hs =>
    cases h
    exact .func hs
  case case3 l name hp =>
    cases hp
    cases h
    exact .decl
  case case4 name f hs =>
    cases h
    exact .block hs
  case case6 k f name hp =>
    cases hp
    cases hf : f.withLayout .block n name with
    | error e => simp [hf] at h
    | ok g =>
      obtain ⟨hl, hg⟩ := withLayout_eq_ok hf
      rw [hf] at h
      cases h
      exact hg ▸ .size hl
  case case7 l f name k hp =>
    cases hp
    cases h
    exact .start
  case case8 l f name k first hp =>
    cases hp
    cases h
    exact .stop
  case case9 t f name s hp =>
    cases hp
    cases h
    exact .tally
  case case10 k t f name hp =>
    cases hp
    cases hf : f.withLayout .line n name with
    | error e => simp [hf] at h
    | ok g =>
      obtain ⟨hl, hg⟩ := withLayout_eq_ok hf
      rw [hf] at h
      cases h
      exact hg ▸ .firstEntry hl
  case case11 k t f name m hp =>
    cases hp
    cases h
    exact .nextEntry
  -- the other lines are misplaced
  all_goals cases h

/-- A line leads somewhere exactly if it fits, and the rest of what is known of it plays no part. -/
theorem step_eq_ok_iff {p q : Progress} {n : Nat} {text : List Char} {line : Line} :
    p.step n text line = .ok q ↔ Advances p line q := by
  refine ⟨advances_of_step, ?_⟩
  intro h
  cases h with
  | func h => simp [step, h]
  | decl => rfl
  | block h => simp [step, h]
  | size h =>
    rw [step, OpenFunc.withLayout, if_pos h]
    · rfl
    · rfl
  | start => rfl
  | stop => rfl
  | tally => rfl
  | firstEntry h =>
    rw [step, OpenFunc.withLayout, if_pos h]
    · rfl
    · rfl
  | nextEntry => rfl

/-- Lines that fit one after the other, none of them blank. -/
inductive Leads : Progress → List (List Char) → Progress → Prop where
  | nil {p : Progress} : Leads p [] p
  | cons {p q r : Progress} {text : List Char} {line : Line} {rest : List (List Char)}
    (hl : Line.read text = .ok line) (hb : line ≠ .blank) (ha : Advances p line q)
    (hr : Leads q rest r) : Leads p (text :: rest) r

theorem Leads.append {p q r : Progress} {a b : List (List Char)} (ha : Leads p a q)
    (hb : Leads q b r) : Leads p (a ++ b) r := by
  induction ha with
  | nil => exact hb
  | cons hl hn ha _ ih => exact .cons hl hn ha (ih hb)

theorem run_cons_of_blank (p : Progress) {text : List Char} (h : Line.read text = .ok .blank)
    (n : Nat) (rest : List (Nat × List Char)) : p.run ((n, text) :: rest) = .ok p := by
  simp [run, h]

theorem run_cons_eq_ok_iff {p r : Progress} {n : Nat} {text : List Char}
    {rest : List (Nat × List Char)} (hb : Line.read text ≠ .ok .blank) :
    p.run ((n, text) :: rest) = .ok r ↔
      ∃ line q, Line.read text = .ok line ∧ Advances p line q ∧ q.run rest = .ok r := by
  rw [run]
  cases hl : Line.read text with
  | error bad => simp
  | ok line =>
    have hn : line ≠ .blank := fun he => hb (he ▸ hl)
    simp only [Except.ok.injEq, exists_and_left, exists_eq_left']
    cases hs : p.step n text line with
    | error e =>
      simp only [reduceCtorEq, false_iff]
      intro h
      obtain ⟨q, ha, _⟩ := h
      rw [step_eq_ok_iff.2 ha] at hs
      cases hs
    | ok q =>
      have ha := step_eq_ok_iff.1 hs
      simp only
      constructor
      · intro h
        exact ⟨q, ha, h⟩
      · intro h
        obtain ⟨q', ha', h⟩ := h
        have hq : q = q' := Except.ok.inj (hs.symm.trans (step_eq_ok_iff.2 ha'))
        exact hq ▸ h

/-- A reader gets through a row of lines exactly if those before the first blank one fit. -/
theorem run_eq_ok_iff {p q : Progress} {ls : List (Nat × List Char)} :
    p.run ls = .ok q ↔ ∃ front rest, ls.map Prod.snd = front ++ rest ∧ Leads p front q ∧
      ∀ text, rest.head? = some text → Line.read text = .ok .blank := by
  induction ls generalizing p with
  | nil =>
    constructor
    · intro h
      cases h
      exact ⟨[], [], rfl, .nil, by simp⟩
    · intro h
      obtain ⟨front, rest, hls, hleads, _⟩ := h
      have hfront : front = [] := (List.append_eq_nil_iff.1 hls.symm).1
      subst hfront
      cases hleads
      rfl
  | cons l ls ih =>
    obtain ⟨n, text⟩ := l
    by_cases hb : Line.read text = .ok .blank
    · rw [run_cons_of_blank p hb]
      constructor
      · intro h
        cases h
        exact ⟨[], _, rfl, .nil, by simp [hb]⟩
      · intro h
        obtain ⟨front, rest, hls, hleads, _⟩ := h
        cases hleads with
        | nil => rfl
        | cons hl hn _ _ =>
          have htext := (List.cons.inj hls).1
          rw [← htext, hb] at hl
          exact absurd (Except.ok.inj hl).symm hn
    · rw [run_cons_eq_ok_iff hb]
      constructor
      · intro h
        obtain ⟨line, r, hl, ha, hrun⟩ := h
        obtain ⟨front, rest, hls, hleads, hrest⟩ := ih.1 hrun
        have hn : line ≠ .blank := fun he => hb (he ▸ hl)
        exact ⟨text :: front, rest, by rw [List.map_cons, hls]; rfl, .cons hl hn ha hleads, hrest⟩
      · intro h
        obtain ⟨front, rest, hls, hleads, hrest⟩ := h
        cases hleads with
        | nil => exact absurd (hrest text (by rw [← List.nil_append rest, ← hls]; rfl)) hb
        | cons hl hn ha hleads =>
          have htext := (List.cons.inj hls).1
          simp only at htext
          subst htext
          exact ⟨_, _, hl, ha, ih.2 ⟨_, rest, (List.cons.inj hls).2, hleads, hrest⟩⟩

end Progress

/-- Where the functions read so far are settled, either none is open or the one that is open is
settled too. -/
theorem settled?_eq_some {p : Progress} {done : List Func} (h : p.settled? = some done) :
    p.position = .outside ∧ done = p.done ∨
      ∃ f, p.position.settled? = some f ∧ done = f.close :: p.done := by
  obtain ⟨fs, position⟩ := p
  rw [Progress.settled?.eq_def] at h
  split at h
  · exact .inl ⟨‹_›, (Option.some.inj h).symm⟩
  · obtain ⟨f, hf, he⟩ := Option.map_eq_some_iff.1 h
    exact .inr ⟨f, hf, he.symm⟩

theorem settled?_of_position {done : List Func} {position : Position} {f : OpenFunc}
    (h : position.settled? = some f) :
    Progress.settled? ⟨done, position⟩ = some (f.close :: done) := by
  cases position with
  | outside => cases h
  | _ => exact congrArg (Option.map fun f => f.close :: done) h

theorem finish_eq_ok_iff {p : Progress} {fs : List Func} :
    p.finish = .ok fs ↔ p.settled? = some fs.reverse := by
  rw [Progress.finish]
  cases p.settled? with
  | none => simp
  | some done => simp [List.reverse_eq_iff]

theorem read_eq_ok_iff_run {text : String} {fs : List Func} :
    read text = .ok fs ↔
      ∃ q, Progress.start.run (Text.numbered (Text.lines text.toList)) = .ok q ∧
        q.settled? = some fs.reverse := by
  rw [read]
  cases Progress.start.run (Text.numbered (Text.lines text.toList)) with
  | error e =>
    constructor
    · intro h
      cases h
    · intro h
      obtain ⟨q, hq, _⟩ := h
      cases hq
  | ok q =>
    constructor
    · intro h
      exact ⟨q, rfl, finish_eq_ok_iff.1 h⟩
    · intro h
      obtain ⟨q', hq, hs⟩ := h
      cases hq
      exact finish_eq_ok_iff.2 hs

/-- A text is an outline exactly if its lines before the first blank one fit and end where the
outline may end. -/
theorem read_eq_ok_iff {text : String} {fs : List Func} :
    read text = .ok fs ↔ ∃ front rest q, Text.lines text.toList = front ++ rest ∧
      Progress.Leads .start front q ∧ q.settled? = some fs.reverse ∧
      ∀ text, rest.head? = some text → Line.read text = .ok .blank := by
  have hrun : ∀ q, Progress.start.run (Text.numbered (Text.lines text.toList)) = .ok q ↔
      ∃ front rest, Text.lines text.toList = front ++ rest ∧ Progress.Leads .start front q ∧
        ∀ text, rest.head? = some text → Line.read text = .ok .blank := by
    intro q
    rw [Progress.run_eq_ok_iff, Text.map_snd_numbered]
  rw [read_eq_ok_iff_run]
  constructor
  · intro h
    obtain ⟨q, hq, hs⟩ := h
    obtain ⟨front, rest, hls, hleads, hrest⟩ := (hrun q).1 hq
    exact ⟨front, rest, q, hls, hleads, hs, hrest⟩
  · intro h
    obtain ⟨front, rest, q, hls, hleads, hs, hrest⟩ := h
    exact ⟨q, (hrun q).2 ⟨front, rest, hls, hleads, hrest⟩, hs⟩

end LineCost.Outline
