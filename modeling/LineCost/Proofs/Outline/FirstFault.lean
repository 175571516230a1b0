import LineCost.Proofs.Outline.Front

/-!
Where an outline that cannot be read goes wrong. An error that names a line names the first one that
no outline can have there: whatever stands before it can still be made an outline of, and nothing
that stands after it matters. An outline that ends too early can be completed.
-/

namespace LineCost.Outline

open Progress

/-- The line that an error names. -/
def ReadError.line? : ReadError → Option Nat
  | .misplaced n _ _ => some n
  | .malformed n _ => some n
  | .mixedLayout n _ => some n
  | .unexpectedEnd _ => none

/-- There is an outline that begins with these lines. -/
def Viable (ls : List (List Char)) : Prop :=
  ∃ more text fs, Text.lines text.toList = ls ++ more ∧ read text = .ok fs

/-- The outcome names no line: there is an outline, or it ends too early. -/
def Unfaulted (outcome : Except ReadError (List Func)) : Prop :=
  (∃ fs, outcome = .ok fs) ∨ ∃ expected, outcome = .error (.unexpectedEnd expected)

/-- The line `n` of a text is the first that cannot stand where it does, which is the error `e`. -/
structure FirstFault (text : String) (e : ReadError) (n : Nat) : Prop where
  /-- It is one of the lines that are read. -/
  within : 1 ≤ n ∧ n ≤ (front text).length
  /-- What follows it does not matter. -/
  decided : ∀ other : String,
    (Text.lines other.toList).take n = (Text.lines text.toList).take n → read other = .error e
  /-- The text can be cut off before it. -/
  cut : ∃ head : String, head.toList <+: text.toList ∧
    Text.lines head.toList = (Text.lines text.toList).take (n - 1)
  /-- No text of just the lines before it has a fault. -/
  before : ∀ other : String,
    Text.lines other.toList = (Text.lines text.toList).take (n - 1) → Unfaulted (read other)
  /-- Some outline begins with the lines before it, and none with more. -/
  viable : ∀ k, Viable ((Text.lines text.toList).take k) ↔ k < n

variable {text : String} {e : ReadError} {p q r : Progress} {n k : Nat} {l : List Char}
  {a b ls : List (List Char)}

namespace Progress

/-- A line that does not fit a position, and the error that this is. -/
inductive Refuses (p : Progress) (n : Nat) (l : List Char) : ReadError → Prop where
  | malformed {bad : Line.Malformed} (h : Line.read l = .error bad) :
    Refuses p n l (.malformed n bad.payload)
  | unfit {line : Line} {e : ReadError} (h : Line.read l = .ok line) (hb : line ≠ .blank)
    (hs : p.step n l line = .error e) : Refuses p n l e

/-- A line that does not fit is the one that the error names. -/
theorem line?_of_step {line : Line} (h : p.step n l line = .error e) : e.line? = some n := by
  have hlayout : ∀ {f : OpenFunc} {layout : Layout} {name : String} {position : OpenFunc → Position},
      (do let g ← f.withLayout layout n name
          return { p with position := position g } : Except ReadError Progress) = .error e →
        e.line? = some n := by
    intro f layout name position h
    rcases bind_eq_error h with h | ⟨g, _, h⟩
    · rw [OpenFunc.withLayout] at h
      split at h
      · cases h
      · cases h
        rfl
    · cases h
  revert h
  fun_cases Progress.step p n l line
  all_goals intro h
  case case6 => exact hlayout h
  case case10 => exact hlayout h
  -- all other lines fit or are misplaced
  all_goals cases h <;> rfl

theorem Refuses.line? (h : Refuses p n l e) : e.line? = some n := by
  cases h with
  | malformed => rfl
  | unfit _ _ hs => exact line?_of_step hs

theorem Refuses.not_blank (h : Refuses p n l e) : Line.read l ≠ .ok .blank := by
  cases h with
  | malformed h =>
    rw [h]
    exact nofun
  | unfit h hb _ =>
    rw [h]
    exact fun he => hb (Except.ok.inj he)

/-- A fault ends the reading, whatever follows. -/
theorem Refuses.run (h : Refuses p n l e) (rest : List (Nat × List Char)) :
    p.run ((n, l) :: rest) = .error e := by
  cases h with
  | malformed h => simp [Progress.run, h]
  | unfit h hb hs => simp [Progress.run, h, hs]

/-- Where lines lead, the reading goes on with what follows them. -/
theorem run_of_leads (h : Leads p a q) (k : Nat) (b : List (List Char)) :
    p.run (Text.numberedFrom k (a ++ b)) = q.run (Text.numberedFrom (k + a.length) b) := by
  induction h generalizing k with
  | nil => rfl
  | cons hl hb ha _ ih =>
    rw [List.cons_append, Text.numberedFrom, Progress.run]
    simp only [hl, step_eq_ok_iff.2 ha, ih]
    rw [List.length_cons, Nat.add_assoc, Nat.add_comm 1]

/-- Lines that are read with an error are lines that lead somewhere and one that is refused there. -/
theorem exists_refuses_of_run (h : p.run (Text.numberedFrom k ls) = .error e) :
    ∃ front l rest q, ls = front ++ l :: rest ∧ Leads p front q ∧
      Refuses q (k + front.length) l e := by
  induction ls generalizing p k with
  | nil => cases h
  | cons l ls ih =>
    rw [Text.numberedFrom, Progress.run] at h
    split at h
    · rename_i bad hl
      cases h
      exact ⟨[], l, ls, p, rfl, .nil, .malformed hl⟩
    · cases h
    · rename_i line hb hl
      split at h
      · rename_i q hs
        obtain ⟨front, l', rest, r, rfl, hleads, hrefuses⟩ := ih h
        refine ⟨l :: front, l', rest, r, rfl, .cons hl hb (step_eq_ok_iff.1 hs) hleads, ?_⟩
        rwa [List.length_cons, Nat.add_comm front.length, ← Nat.add_assoc]
      · rename_i e' hs
        cases h
        exact ⟨[], l, ls, p, rfl, .nil, .unfit hl hb hs⟩

theorem Leads.not_blank (h : Leads p a q) : ∀ l ∈ a, Line.read l ≠ .ok .blank := by
  induction h with
  | nil => simp
  | cons hl hb _ _ ih =>
    refine List.forall_mem_cons.2 ⟨?_, ih⟩
    rw [hl]
    exact fun he => hb (Except.ok.inj he)

end Progress

/-- Lines after which what is open may end: the place of a function, the ends of a block. -/
def Position.completion : Position → List (List Char)
  | .func _ => [" at: a:1".toList]
  | .size _ _ _ => ["  from: a:1".toList, "  to: a:1".toList]
  | .start _ _ _ _ => ["  to: a:1".toList]
  | _ => []

theorem newline_not_mem_completion (position : Position) :
    ∀ l ∈ position.completion, '\n' ∉ l := by
  cases position <;> simp [Position.completion]

/-- There is no position that could not be completed. -/
theorem leads_completion (p : Progress) :
    ∃ q done, Leads p p.position.completion q ∧ q.settled? = some done := by
  have hdecl : Line.read " at: a:1".toList = .ok (.decl ⟨"a", 1⟩) := by decide +kernel
  have hstart : Line.read "  from: a:1".toList = .ok (.start ⟨"a", 1⟩) := by decide +kernel
  have hstop : Line.read "  to: a:1".toList = .ok (.stop ⟨"a", 1⟩) := by decide +kernel
  obtain ⟨done, position⟩ := p
  cases position with
  | func name => exact ⟨_, _, .cons hdecl nofun .decl .nil, rfl⟩
  | size f name k =>
    exact ⟨_, _, .cons hstart nofun .start (.cons hstop nofun .stop .nil), rfl⟩
  | start f name k first => exact ⟨_, _, .cons hstop nofun .stop .nil, rfl⟩
  | _ => exact ⟨_, _, .nil, rfl⟩

/-- Lines that lead somewhere begin an outline. -/
theorem viable_of_leads (hn : ∀ l ∈ a, '\n' ∉ l) (h : Leads .start a p) : Viable a := by
  obtain ⟨q, done, hleads, hdone⟩ := leads_completion p
  have hlines : ∀ l ∈ a ++ p.position.completion, '\n' ∉ l :=
    List.forall_mem_append.2 ⟨hn, newline_not_mem_completion _⟩
  obtain ⟨s, hs⟩ := Text.exists_lines_eq hlines
  refine ⟨p.position.completion, String.ofList s, done.reverse, ?_, ?_⟩
  · rw [String.toList_ofList, hs]
  · rw [read_eq_ok_iff, String.toList_ofList, hs]
    refine ⟨a ++ p.position.completion, [], q, (List.append_nil _).symm, h.append hleads, ?_, nofun⟩
    rw [hdone, List.reverse_reverse]

/-- What begins an outline still does if it is cut off earlier. -/
theorem Viable.of_append (h : Viable (a ++ b)) : Viable a := by
  obtain ⟨more, text, fs, hlines, hread⟩ := h
  exact ⟨b ++ more, text, fs, by rw [hlines, List.append_assoc], hread⟩

theorem Viable.take_mono {j k : Nat} (h : Viable (ls.take k)) (hjk : j ≤ k) :
    Viable (ls.take j) := by
  rw [← List.take_append_drop j (ls.take k), List.take_take, Nat.min_eq_left hjk] at h
  exact h.of_append

theorem newline_not_mem_front {l : List Char} (h : l ∈ front text) : '\n' ∉ l :=
  Text.newline_not_mem_of_mem_lines ((List.takeWhile_sublist _).subset h)

/-- An outline that is read with an error has a line that is refused, or it ends too early. -/
theorem read_eq_error (h : read text = .error e) :
    Progress.start.run (Text.numberedFrom 1 (Text.lines text.toList)) = .error e ∨
      (∃ q, Leads .start (front text) q) ∧ ∃ expected, e = .unexpectedEnd expected := by
  rw [read] at h
  rcases bind_eq_error h with h | ⟨q, hq, h⟩
  · rw [Text.numbered_eq] at h
    exact .inl h
  · rw [← run_front, run_front_eq_ok_iff] at hq
    rw [Progress.finish] at h
    split at h
    · cases h
    · cases h
      exact .inr ⟨⟨q, hq⟩, _, rfl⟩

/-- Lines that lead somewhere, alone in a text, are without a fault. -/
theorem unfaulted_of_leads (h : Leads .start (Text.lines text.toList) q) :
    Unfaulted (read text) := by
  have hrun := run_of_leads h 1 []
  rw [List.append_nil] at hrun
  have hread : read text = q.finish := by
    rw [read, Text.numbered_eq, hrun]
    rfl
  rw [hread, Progress.finish]
  cases q.settled? with
  | some done => exact .inl ⟨_, rfl⟩
  | none => exact .inr ⟨_, rfl⟩

/-- The lines that are read reach to the one that is refused. -/
theorem length_lt_front {rest : List (List Char)} (hlines : Text.lines text.toList = a ++ l :: rest)
    (hleads : Leads .start a q) (hrefuses : Refuses q n l e) : a.length < (front text).length := by
  have hkept : ∀ {l : List Char}, Line.read l ≠ .ok .blank → (!l.all Text.isBlank) = true := by
    intro l hl
    rw [Bool.not_eq_true', ← Bool.not_eq_true, ← Line.blank_iff]
    exact hl
  rw [front, hlines, List.takeWhile_append_of_pos fun l hl => hkept (hleads.not_blank l hl),
    List.takeWhile_cons, if_pos (hkept hrefuses.not_blank)]
  simp

/-- A line that is refused after lines that lead there is the first fault. -/
theorem firstFault_of_refuses {rest : List (List Char)}
    (hlines : Text.lines text.toList = a ++ l :: rest) (hleads : Leads .start a q)
    (hrefuses : Refuses q (1 + a.length) l e) : FirstFault text e (1 + a.length) := by
  have hbefore : (Text.lines text.toList).take (1 + a.length - 1) = a := by
    rw [Nat.add_sub_cancel_left, hlines, List.take_left]
  have hupto : (Text.lines text.toList).take (1 + a.length) = a ++ [l] := by
    rw [hlines, Nat.add_comm, List.append_cons, List.take_left' (by simp)]
  have hdecided : ∀ other : String, (Text.lines other.toList).take (1 + a.length) =
      (Text.lines text.toList).take (1 + a.length) → read other = .error e := by
    intro other hsame
    have hother : Text.lines other.toList =
        a ++ l :: (Text.lines other.toList).drop (1 + a.length) := by
      have hsplit := List.take_append_drop (1 + a.length) (Text.lines other.toList)
      rw [hsame, hupto, ← List.append_cons] at hsplit
      exact hsplit.symm
    have hrun := run_of_leads hleads 1 (l :: (Text.lines other.toList).drop (1 + a.length))
    rw [← hother, Text.numberedFrom, hrefuses.run] at hrun
    rw [read, Text.numbered_eq, hrun]
    rfl
  have hwithin := length_lt_front hlines hleads hrefuses
  refine ⟨⟨by omega, by omega⟩, hdecided, ?_, ?_, ?_⟩
  · obtain ⟨s, _, hs, hhead, _⟩ := Text.exists_append_of_lines hlines
    refine ⟨String.ofList s, ?_, ?_⟩
    · rw [String.toList_ofList, hs]
      exact List.prefix_append ..
    · rw [String.toList_ofList, hhead, hbefore]
  · intro other hother
    rw [hbefore] at hother
    exact unfaulted_of_leads (hother ▸ hleads)
  · intro k
    constructor
    · intro h
      by_contra hk
      obtain ⟨more, other, fs, hother, hread⟩ := h.take_mono (Nat.le_of_not_lt hk)
      rw [hdecided other] at hread
      · cases hread
      · rw [hother, hupto]
        exact List.take_left' (by simp [Nat.add_comm])
    · intro hk
      have hviable : Viable a := by
        refine viable_of_leads (fun l hl => ?_) hleads
        exact Text.newline_not_mem_of_mem_lines (hlines ▸ List.mem_append_left _ hl)
      rw [← hbefore] at hviable
      exact hviable.take_mono (by omega)

/-- An error that names a line names the first that no outline can have there. One that names none
says that the outline ends too early, and then more lines can complete it. -/
theorem read_pointsAtFirstFault (h : read text = .error e) :
    (∀ n, e.line? = some n → FirstFault text e n) ∧
      (e.line? = none → (∃ expected, e = .unexpectedEnd expected) ∧ Viable (front text)) := by
  rcases read_eq_error h with hrun | ⟨⟨q, hleads⟩, expected, rfl⟩
  · obtain ⟨a, l, rest, q, hlines, hleads, hrefuses⟩ := exists_refuses_of_run hrun
    have hline := hrefuses.line?
    refine ⟨fun n hn => ?_, fun hnone => ?_⟩
    · obtain rfl := Option.some.inj (hline.symm.trans hn)
      exact firstFault_of_refuses hlines hleads hrefuses
    · rw [hline] at hnone
      cases hnone
  · refine ⟨nofun, fun _ => ⟨⟨expected, rfl⟩, ?_⟩⟩
    exact viable_of_leads (fun l hl => newline_not_mem_front hl) hleads

/-- A block with a span after one with source lines, and a line that would be misplaced anywhere. -/
def mixedText : String :=
  "func: f\n at: a:1\n block: b\n  5:\n block: c\n  size: 1\nnothing\n"

/-- The span is the fault. Up to the header of its block there may be an outline. -/
theorem read_pointsAtFirstFault_mixed :
    read mixedText = .error (.mixedLayout 6 "c") ∧
      FirstFault mixedText (.mixedLayout 6 "c") 6 ∧
      Viable ((Text.lines mixedText.toList).take 5) ∧
      ¬ Viable ((Text.lines mixedText.toList).take 6) := by
  have hread : read mixedText = .error (.mixedLayout 6 "c") := by decide +kernel
  have hfault := (read_pointsAtFirstFault hread).1 6 rfl
  refine ⟨hread, hfault, (hfault.viable 5).2 (by decide), fun h => ?_⟩
  exact absurd ((hfault.viable 6).1 h) (by decide)

end LineCost.Outline
