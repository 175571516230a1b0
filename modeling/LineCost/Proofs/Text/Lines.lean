import LineCost.Text.Blank
import LineCost.Text.Lines
import Mathlib.Data.List.DropRight

/-!
Taking texts apart where they were put together: lines at their newlines, pieces at their
separators, beginnings off, and nothing off a text that has no blanks at its ends.
-/

namespace LineCost.Text

theorem pushFirst_cons (c : Char) (l : List Char) (rest : List (List Char)) :
    pushFirst c (l :: rest) = (c :: l) :: rest := rfl

theorem newline_not_mem_of_mem_lines {s l : List Char} (h : l ∈ lines s) : '\n' ∉ l := by
  induction s using lines.induct generalizing l with
  | case1 => simp [lines] at h
  | case2 rest ih =>
    rw [lines] at h
    rcases List.mem_cons.1 h with h | h
    · simp [h]
    · exact ih h
  | case3 rest ih =>
    rw [lines] at h
    rcases List.mem_cons.1 h with h | h
    · simp [h]
    · exact ih h
  | case4 c rest hc hr ih =>
    rw [lines] at h
    · have hne : '\n' ≠ c := fun he => hc he.symm
      cases hl : lines rest with
      | nil =>
        rw [hl] at h
        have he := List.mem_singleton.1 h
        simp [he, hne]
      | cons k ks =>
        rw [hl, pushFirst_cons] at h
        rcases List.mem_cons.1 h with h | h
        · have hk : '\n' ∉ k := ih (hl ▸ List.mem_cons_self)
          simp [h, hne, hk]
        · exact ih (hl ▸ List.mem_cons_of_mem _ h)
    · exact hc
    · exact hr

/-- A line that may be ended with a newline and read back as it is. -/
def Plain (l : List Char) : Prop := '\n' ∉ l ∧ l.getLast? ≠ some '\r'

theorem lines_append {l : List Char} (hl : Plain l) (rest : List Char) :
    lines (l ++ '\n' :: rest) = l :: lines rest := by
  induction l with
  | nil => rfl
  | cons c l ih =>
    obtain ⟨hn, hr⟩ := hl
    have hc : c ≠ '\n' := by
      intro h
      exact hn (h ▸ List.mem_cons_self)
    have hl' : Plain l := by
      refine ⟨fun h => hn (List.mem_cons_of_mem _ h), ?_⟩
      cases l with
      | nil => simp
      | cons d l => simpa using hr
    rw [List.cons_append, lines, ih hl', pushFirst_cons]
    · exact hc
    · intro tail hcr htail
      cases l with
      | nil => simp [hcr] at hr
      | cons d l =>
        have hd : d = '\n' := (List.cons.inj htail).1
        exact hn (by simp [hd])

theorem lines_flatMap {ls : List (List Char)} (h : ∀ l ∈ ls, Plain l) :
    lines (ls.flatMap fun l => l ++ ['\n']) = ls := by
  induction ls with
  | nil => rfl
  | cons l rest ih =>
    have hl := h l List.mem_cons_self
    have hrest := ih fun k hk => h k (List.mem_cons_of_mem _ hk)
    rw [List.flatMap_cons, List.append_assoc, List.singleton_append, lines_append hl, hrest]

theorem lines_cons {c : Char} {rest : List Char} (hc : c ≠ '\n')
    (hr : ∀ tail, c = '\r' → rest ≠ '\n' :: tail) : lines (c :: rest) = pushFirst c (lines rest) := by
  rw [lines]
  · exact hc
  · exact hr

/-- Any line may be ended with a carriage return and a newline and read back as it is. -/
theorem lines_append_return {l : List Char} (hl : '\n' ∉ l) (rest : List Char) :
    lines (l ++ '\r' :: '\n' :: rest) = l :: lines rest := by
  induction l with
  | nil => rfl
  | cons c l ih =>
    obtain ⟨hc, hl⟩ := not_or.1 (mt List.mem_cons.2 hl)
    rw [List.cons_append, lines_cons (Ne.symm hc), ih hl, pushFirst_cons]
    -- what follows is the return or the next character of the line, but no newline
    intro tail _ htail
    cases l with
    | nil => cases htail
    | cons d l => exact hl ((List.cons.inj htail).1 ▸ List.mem_cons_self)

/-- Whatever lines there are to be, some text has them. -/
theorem exists_lines_eq {ls : List (List Char)} (h : ∀ l ∈ ls, '\n' ∉ l) : ∃ s, lines s = ls := by
  refine ⟨ls.flatMap fun l => l ++ ['\r', '\n'], ?_⟩
  induction ls with
  | nil => rfl
  | cons l ls ih =>
    obtain ⟨hl, hls⟩ := List.forall_mem_cons.1 h
    rw [List.flatMap_cons, List.append_assoc, List.cons_append, List.cons_append, List.nil_append,
      lines_append_return hl, ih hls]

/-- A text can be cut between any two of its lines. -/
theorem exists_append_of_lines {s : List Char} {a b : List (List Char)} (h : lines s = a ++ b) :
    ∃ s₁ s₂, s = s₁ ++ s₂ ∧ lines s₁ = a ∧ lines s₂ = b := by
  induction s using lines.induct generalizing a with
  | case1 =>
    obtain ⟨rfl, rfl⟩ := List.append_eq_nil_iff.1 h.symm
    exact ⟨[], [], rfl, rfl, rfl⟩
  | case2 rest ih =>
    cases a with
    | nil => exact ⟨[], _, rfl, rfl, h⟩
    | cons l a =>
      obtain ⟨rfl, hrest⟩ := List.cons.inj h
      obtain ⟨s₁, s₂, rfl, rfl, rfl⟩ := ih hrest
      exact ⟨'\n' :: s₁, s₂, rfl, rfl, rfl⟩
  | case3 rest ih =>
    cases a with
    | nil => exact ⟨[], _, rfl, rfl, h⟩
    | cons l a =>
      obtain ⟨rfl, hrest⟩ := List.cons.inj h
      obtain ⟨s₁, s₂, rfl, rfl, rfl⟩ := ih hrest
      exact ⟨'\r' :: '\n' :: s₁, s₂, rfl, rfl, rfl⟩
  | case4 c rest hc hr ih =>
    cases a with
    | nil => exact ⟨[], _, rfl, rfl, h⟩
    | cons l a =>
      rw [lines_cons hc hr] at h
      cases hrest : lines rest with
      | nil =>
        rw [hrest] at h
        obtain ⟨hl, ha⟩ := List.cons.inj h
        obtain ⟨rfl, rfl⟩ := List.append_eq_nil_iff.1 ha.symm
        exact ⟨c :: rest, [], (List.append_nil _).symm, by rw [lines_cons hc hr, hrest, ← hl]; rfl,
          rfl⟩
      | cons k ks =>
        rw [hrest, pushFirst_cons] at h
        obtain ⟨rfl, hks⟩ := List.cons.inj h
        obtain ⟨s₁, s₂, rfl, hs₁, rfl⟩ := ih (a := k :: a) (by rw [hrest, hks]; rfl)
        refine ⟨c :: s₁, s₂, rfl, ?_, rfl⟩
        rw [lines_cons hc fun tail hcr htail => hr (tail ++ s₂) hcr (by rw [htail]; rfl), hs₁,
          pushFirst_cons]

theorem map_snd_numbered {α : Type} (ls : List α) : (numbered ls).map Prod.snd = ls := by
  rw [numbered, List.map_map]
  exact List.zipIdx_map_fst 1 ls

theorem length_numbered {α : Type} (ls : List α) : (numbered ls).length = ls.length := by
  rw [numbered, List.length_map, List.length_zipIdx]

/-- Each line with its number, counted from `k`. -/
def numberedFrom {α : Type} (k : Nat) : List α → List (Nat × α)
  | [] => []
  | l :: ls => (k, l) :: numberedFrom (k + 1) ls

theorem numbered_eq {α : Type} (ls : List α) : numbered ls = numberedFrom 1 ls := by
  rw [numbered]
  generalize 1 = k
  induction ls generalizing k with
  | nil => rfl
  | cons l ls ih => rw [List.zipIdx_cons, List.map_cons, ih, numberedFrom]

theorem numberedFrom_append {α : Type} (k : Nat) (a b : List α) :
    numberedFrom k (a ++ b) = numberedFrom k a ++ numberedFrom (k + a.length) b := by
  induction a generalizing k with
  | nil => rfl
  | cons l a ih =>
    rw [List.cons_append, numberedFrom, numberedFrom, ih, List.cons_append, List.length_cons,
      Nat.add_assoc, Nat.add_comm 1]

theorem trimStart_eq_self_iff {s : List Char} :
    trimStart s = s ↔ ∀ c, s.head? = some c → isBlank c = false := by
  cases s with
  | nil => simp [trimStart]
  | cons c s =>
    simp only [trimStart, List.head?_cons, Option.some.injEq, forall_eq']
    cases h : isBlank c with
    | false => simp [h]
    | true =>
      have hle : (s.dropWhile isBlank).length ≤ s.length := (List.dropWhile_sublist _).length_le
      simp only [List.dropWhile_cons, h, if_true, Bool.true_eq_false, iff_false]
      intro he
      have hlen := congrArg List.length he
      simp only [List.length_cons] at hlen
      omega

theorem trimEnd_eq_self_iff {s : List Char} :
    trimEnd s = s ↔ ∀ c, s.getLast? = some c → isBlank c = false := by
  have h := @trimStart_eq_self_iff s.reverse
  rw [List.head?_reverse] at h
  rw [← h, trimEnd, trimStart]
  constructor
  · intro he
    rw [← List.reverse_inj, he, List.reverse_reverse]
  · intro he
    rw [he, List.reverse_reverse]

/-- Nothing is dropped from a text that begins and ends with something. -/
theorem trim_eq_self {s : List Char} (hs : ∀ c, s.head? = some c → isBlank c = false)
    (he : ∀ c, s.getLast? = some c → isBlank c = false) : trim s = s := by
  rw [trim, trimStart_eq_self_iff.2 hs, trimEnd_eq_self_iff.2 he]

theorem trim_of_not_blank {s : List Char} (h : ∀ c ∈ s, isBlank c = false) : trim s = s :=
  trim_eq_self (fun c hc => h c (List.mem_of_mem_head? hc))
    fun c hc => h c (List.mem_of_mem_getLast? hc)

theorem trim_blank_cons {c : Char} (h : isBlank c = true) (s : List Char) :
    trim (c :: s) = trim s := by
  simp [trim, trimStart, h]

theorem head?_trimStart (s : List Char) :
    ∀ c, (trimStart s).head? = some c → isBlank c = false := by
  intro c hc
  rw [trimStart] at hc
  have h := List.head?_dropWhile_not isBlank s
  rw [hc] at h
  exact h

theorem trimEnd_prefix_self (s : List Char) : trimEnd s <+: s := by
  rw [← List.reverse_suffix, trimEnd, List.reverse_reverse]
  exact List.dropWhile_suffix _

theorem trimEnd_idem (s : List Char) : trimEnd (trimEnd s) = trimEnd s := by
  have h := trimStart_eq_self_iff.2 (head?_trimStart s.reverse)
  rw [trimEnd, trimEnd, List.reverse_reverse]
  exact congrArg List.reverse h

theorem trim_idem (s : List Char) : trim (trim s) = trim s := by
  have hstart : trimStart (trim s) = trim s := by
    apply trimStart_eq_self_iff.2
    intro c hc
    obtain ⟨dropped, he⟩ := trimEnd_prefix_self (trimStart s)
    apply head?_trimStart s
    rw [← he, List.head?_append, ← trim, hc, Option.some_or]
  rw [trim, hstart, trim, trimEnd_idem]

theorem mem_of_mem_trimEnd {s : List Char} {c : Char} (h : c ∈ trimEnd s) : c ∈ s :=
  (trimEnd_prefix_self s).subset h

theorem mem_of_mem_trim {s : List Char} {c : Char} (h : c ∈ trim s) : c ∈ s :=
  (List.dropWhile_sublist _).subset (mem_of_mem_trimEnd h)

/-- Only blanks are ever dropped. -/
theorem trim_eq_nil_iff {s : List Char} : trim s = [] ↔ ∀ c ∈ s, isBlank c = true := by
  rw [trim, trimEnd, List.reverse_eq_nil_iff, List.dropWhile_eq_nil_iff]
  simp only [List.mem_reverse]
  constructor
  · intro h
    have hnil : trimStart s = [] := by
      cases hs : trimStart s with
      | nil => rfl
      | cons c rest =>
        have hc := head?_trimStart s c (by rw [hs, List.head?_cons])
        rw [h c (hs ▸ List.mem_cons_self)] at hc
        exact absurd hc (by decide)
    exact List.dropWhile_eq_nil_iff.1 hnil
  · intro h c hc
    exact h c ((List.dropWhile_sublist _).subset hc)

theorem cutFirst?_append {separator : Char} {a : List Char} (h : separator ∉ a) (b : List Char) :
    cutFirst? separator (a ++ separator :: b) = some (a, b) := by
  induction a with
  | nil => simp [cutFirst?]
  | cons c a ih =>
    have hc : ¬ c = separator := fun he => h (he ▸ List.mem_cons_self)
    have ha := ih fun hm => h (List.mem_cons_of_mem _ hm)
    simp [cutFirst?, hc, ha]

theorem cutLast?_eq_none_iff {separator : Char} {s : List Char} :
    cutLast? separator s = none ↔ separator ∉ s := by
  induction s with
  | nil => simp [cutLast?]
  | cons c s ih =>
    rw [cutLast?, List.mem_cons, not_or, ← ih]
    cases h : cutLast? separator s with
    | some p => simp
    | none =>
      by_cases hc : c = separator
      · simp [hc]
      · simp [hc, Ne.symm hc]

theorem cutLast?_append (a : List Char) {separator : Char} {b : List Char} (h : separator ∉ b) :
    cutLast? separator (a ++ separator :: b) = some (a, b) := by
  induction a with
  | nil => simp [cutLast?, cutLast?_eq_none_iff.2 h]
  | cons c a ih => simp [cutLast?, ih]

theorem eq_of_cutLast? {separator : Char} {s a b : List Char}
    (h : cutLast? separator s = some (a, b)) : s = a ++ separator :: b := by
  induction s generalizing a with
  | nil => simp [cutLast?] at h
  | cons c s ih =>
    rw [cutLast?] at h
    split at h
    · rename_i p hp
      obtain ⟨a', b'⟩ := p
      obtain ⟨ha, hb⟩ := Prod.mk.inj (Option.some.inj h)
      simp only at ha hb
      subst hb
      rw [ih hp, ← ha, List.cons_append]
    · split at h
      · rename_i hc
        obtain ⟨ha, hb⟩ := Prod.mk.inj (Option.some.inj h)
        rw [← ha, hb, hc, List.nil_append]
      · simp at h

theorem not_mem_of_cutLast? {separator : Char} {s a b : List Char}
    (h : cutLast? separator s = some (a, b)) : separator ∉ b := by
  induction s generalizing a with
  | nil => simp [cutLast?] at h
  | cons c s ih =>
    rw [cutLast?] at h
    split at h
    · rename_i p hp
      obtain ⟨a', b'⟩ := p
      obtain ⟨-, rfl⟩ := Prod.mk.inj (Option.some.inj h)
      exact ih hp
    · rename_i hnone
      split at h
      · obtain ⟨-, hb⟩ := Prod.mk.inj (Option.some.inj h)
        exact hb ▸ cutLast?_eq_none_iff.1 hnone
      · cases h

theorem cutLast?_eq_some_iff {separator : Char} {s a b : List Char} :
    cutLast? separator s = some (a, b) ↔ a ++ separator :: b = s ∧ separator ∉ b := by
  constructor
  · intro h
    exact ⟨(eq_of_cutLast? h).symm, not_mem_of_cutLast? h⟩
  · intro h
    obtain ⟨rfl, hb⟩ := h
    exact cutLast?_append a hb

theorem pieces_ne_nil (separator : Char) (s : List Char) : pieces separator s ≠ [] := by
  cases s with
  | nil => simp [pieces]
  | cons c s =>
    rw [pieces]
    split
    · simp
    · cases pieces separator s <;> simp [pushFirst]

theorem not_mem_of_mem_pieces {separator : Char} {s p : List Char} (h : p ∈ pieces separator s) :
    separator ∉ p := by
  induction s generalizing p with
  | nil =>
    obtain rfl := List.mem_singleton.1 h
    exact List.not_mem_nil
  | cons c s ih =>
    rw [pieces] at h
    split at h
    · rcases List.mem_cons.1 h with rfl | h
      · exact List.not_mem_nil
      · exact ih h
    · rename_i hc
      obtain ⟨q, rest, hs⟩ := List.exists_cons_of_ne_nil (pieces_ne_nil separator s)
      rw [hs, pushFirst_cons] at h
      rw [hs] at ih
      rcases List.mem_cons.1 h with rfl | h
      · rw [List.mem_cons, not_or]
        exact ⟨Ne.symm hc, ih List.mem_cons_self⟩
      · exact ih (List.mem_cons_of_mem _ h)

theorem pieces_append_separator (separator : Char) (a b : List Char) :
    pieces separator (a ++ separator :: b) = pieces separator a ++ pieces separator b := by
  induction a with
  | nil => simp [pieces]
  | cons c a ih =>
    rw [List.cons_append, pieces, pieces, ih]
    split
    · rfl
    · obtain ⟨q, rest, ha⟩ := List.exists_cons_of_ne_nil (pieces_ne_nil separator a)
      rw [ha, List.cons_append, pushFirst_cons, pushFirst_cons, List.cons_append]

theorem pieces_eq_splitOn (separator : Char) (s : List Char) :
    pieces separator s = s.splitOn separator := by
  induction s with
  | nil => rfl
  | cons c s ih =>
    rw [pieces, List.splitOn_cons_eq_if_modifyHead, ← ih]
    by_cases hc : c = separator
    · simp [hc]
    · obtain ⟨p, rest, hs⟩ := List.exists_cons_of_ne_nil (pieces_ne_nil separator s)
      simp [hc, hs, pushFirst_cons]

/-- The pieces of a text are the only ones that it can be put together of. -/
theorem pieces_eq_iff {separator : Char} {s : List Char} {ps : List (List Char)} (hne : ps ≠ []) :
    pieces separator s = ps ↔ [separator].intercalate ps = s ∧ ∀ p ∈ ps, separator ∉ p := by
  constructor
  · intro h
    refine ⟨?_, fun p hp => not_mem_of_mem_pieces (h ▸ hp)⟩
    rw [← h, pieces_eq_splitOn]
    exact List.intercalate_splitOn separator
  · intro h
    obtain ⟨rfl, hps⟩ := h
    rw [pieces_eq_splitOn]
    exact List.splitOn_intercalate separator hps hne

theorem pieces_of_not_mem {separator : Char} {a : List Char} (h : separator ∉ a) :
    pieces separator a = [a] := by
  induction a with
  | nil => rfl
  | cons c a ih =>
    have hc : ¬ c = separator := fun he => h (he ▸ List.mem_cons_self)
    rw [pieces, if_neg hc, ih fun hm => h (List.mem_cons_of_mem _ hm), pushFirst_cons]

theorem pieces_append {separator : Char} {a : List Char} (h : separator ∉ a) (b : List Char) :
    pieces separator (a ++ separator :: b) = a :: pieces separator b := by
  induction a with
  | nil => simp [pieces]
  | cons c a ih =>
    have hc : ¬ c = separator := fun he => h (he ▸ List.mem_cons_self)
    rw [List.cons_append, pieces, if_neg hc, ih fun hm => h (List.mem_cons_of_mem _ hm),
      pushFirst_cons]

theorem after?_append (beginning : String) (s : List Char) :
    after? beginning (beginning.toList ++ s) = some s := by
  simp [after?, ← String.length_toList]

theorem eq_of_after? {beginning : String} {s rest : List Char}
    (h : after? beginning s = some rest) : s = beginning.toList ++ rest := by
  rw [after?] at h
  split at h
  · rename_i hp
    obtain ⟨t, ht⟩ := List.isPrefixOf_iff_prefix.1 hp
    rw [← ht, ← String.length_toList, List.drop_left, Option.some.injEq] at h
    rw [← ht, h]
  · simp at h

end LineCost.Text
