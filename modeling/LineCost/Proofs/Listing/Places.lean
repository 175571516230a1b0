import LineCost.Proofs.Listing.Comments

/-!
Where the file ends in a place that a comment tells. The row is the first number that nothing but
perhaps a column comes after, so a file keeps whatever colons, blanks and comments it has, unless it
looks like a file with a row itself and no column follows.
-/

namespace LineCost.Listing

open Text

/-- What is written of a column. -/
def columnText : Option Digits → List Char
  | none => []
  | some d => ':' :: d.chars

/-- Does not end in a colon and digits, with something in front of them. -/
def Rowless (file : List Char) : Prop :=
  ∀ (front : List Char) (d : Digits), front ≠ [] → file ≠ front ++ ':' :: d.chars

/-- No comment begins here behind a blank and is followed by one. -/
def Quiet (s : List Char) : Prop :=
  ∀ (c : Char) (l : Leader), isBlank c = true → ¬ c :: (l.sign ++ [' ']) <:+: s

namespace Line

variable {s file row rest : List Char} {p : List Char × List Char}

theorem digits?_append (d : Digits) (h : ∀ c, s.head? = some c → isDigit c = false) :
    digits? (d.chars ++ s) = some (d.chars, s) := by
  have hs : s.dropWhile isDigit = s := by
    cases s with
    | nil => rfl
    | cons c s => rw [List.dropWhile_cons_of_neg (by simp [h c rfl])]
  rw [digits?, d.takeWhile_append h, d.dropWhile_append, hs]
  simp [d.ne_nil]

theorem eq_of_digits? {a b : List Char} (h : digits? s = some (a, b)) :
    (∃ d : Digits, d.chars = a) ∧ s = a ++ b := by
  rw [digits?] at h
  split at h
  · cases h
  · rename_i hne
    cases h
    refine ⟨⟨⟨_, ?_, ?_⟩, rfl⟩, (List.takeWhile_append_dropWhile).symm⟩
    · simpa using hne
    · exact fun c hc => List.mem_takeWhile_imp hc

theorem isDigit_head?_blanks (b : Blanks) : ∀ c, b.chars.head? = some c → isDigit c = false :=
  fun c hc => isDigit_eq_false_of_isBlank (b.blank c (List.mem_of_mem_head? hc))

theorem isDigit_head?_column (column : Option Digits) (b : Blanks) :
    ∀ c, (columnText column ++ b.chars).head? = some c → isDigit c = false := by
  cases column with
  | none => exact isDigit_head?_blanks b
  | some d =>
    rintro c ⟨⟩
    decide

theorem colon_not_mem_digits (d : Digits) : ':' ∉ d.chars := d.not_mem (by decide +kernel)

theorem colon_not_mem_blanks (b : Blanks) : ':' ∉ b.chars := b.not_mem (by decide +kernel)

theorem row?_text (r : Digits) (column : Option Digits) (b : Blanks) :
    row? (':' :: (r.chars ++ (columnText column ++ b.chars))) = some r.chars := by
  have hblank : b.chars.all isBlank = true := List.all_eq_true.2 b.blank
  rw [row?, digits?_append r (isDigit_head?_column column b)]
  simp only [Option.bind_eq_bind, Option.bind_some]
  cases column with
  | none =>
    have hcolon : ∀ t, b.chars ≠ ':' :: t := fun t ht =>
      colon_not_mem_blanks b (ht ▸ List.mem_cons_self)
    rw [columnText, List.nil_append]
    split
    · rename_i t ht
      exact absurd ht (hcolon t)
    · rw [if_pos hblank]
  | some d =>
    simp only [columnText, List.cons_append, digits?_append d (isDigit_head?_blanks b)]
    rw [if_pos hblank]

/-- A row is read where a colon and digits are all there is, up to a column and blanks. -/
theorem row?_eq_some_iff : row? s = some row ↔
    ∃ (r : Digits) (column : Option Digits) (b : Blanks),
      r.chars = row ∧ s = ':' :: (r.chars ++ (columnText column ++ b.chars)) := by
  constructor
  · intro h
    unfold row? at h
    split at h
    · simp only [Option.bind_eq_bind, Option.bind_eq_some_iff, Prod.exists,
        Option.ite_none_right_eq_some, List.all_eq_true] at h
      obtain ⟨_, t, hr, hblank, ⟨⟩⟩ := h
      obtain ⟨⟨r, rfl⟩, rfl⟩ := eq_of_digits? hr
      split at hblank
      · split at hblank
        · rename_i hd
          obtain ⟨⟨d, rfl⟩, rfl⟩ := eq_of_digits? hd
          exact ⟨r, some d, ⟨_, hblank⟩, rfl, rfl⟩
        · -- a colon is no blank
          have hcolon := hblank ':' List.mem_cons_self
          exact absurd hcolon (by decide +kernel)
      · exact ⟨r, none, ⟨_, hblank⟩, rfl, rfl⟩
    · cases h
  · rintro ⟨r, column, b, rfl, rfl⟩
    exact row?_text r column b

theorem count_colon_digits (d : Digits) : d.chars.count ':' = 0 :=
  List.count_eq_zero.2 (colon_not_mem_digits d)

theorem count_colon_blanks (b : Blanks) : b.chars.count ':' = 0 :=
  List.count_eq_zero.2 (colon_not_mem_blanks b)

/-- There are at most two colons in a row with its column. -/
theorem count_colon_of_row? (h : row? s = some row) : s.count ':' ≤ 2 := by
  obtain ⟨r, column, b, -, rfl⟩ := row?_eq_some_iff.1 h
  cases column <;> simp [columnText, count_colon_digits, count_colon_blanks]

/-- The file is as short as it can be. -/
theorem place?_append (hne : file ≠ []) (hline : '\n' ∉ file) (hrow : row? rest = some row)
    (hshort : ∀ front back, front ≠ [] → back ≠ [] → file = front ++ back →
      row? (back ++ rest) = none) : place? (file ++ rest) = some (file, row) := by
  induction file with
  | nil => exact absurd rfl hne
  | cons c file ih =>
    obtain ⟨hc, hfile⟩ := not_or.1 (mt List.mem_cons.2 hline)
    rw [List.cons_append, place?, if_neg (Ne.symm hc)]
    cases file with
    | nil => rw [List.nil_append, hrow]
    | cons d file =>
      have hnone := hshort [c] (d :: file) (by simp) (by simp) rfl
      have htail := ih (by simp) hfile fun front back _ hback hsplit =>
        hshort (c :: front) back (by simp) hback (by rw [hsplit, List.cons_append])
      rw [hnone, htail]
      rfl

/-- Where a part of the file is taken for the front of the row, it begins with one of two colons. -/
theorem exists_colon_of_row? {back : List Char} (hback : back ≠ [])
    (h : row? (back ++ s) = some row) :
    ∃ rest, back = ':' :: rest ∧ rest.count ':' + s.count ':' ≤ 1 := by
  have hcount := count_colon_of_row? h
  obtain ⟨_, _, _, -, hs⟩ := row?_eq_some_iff.1 h
  obtain ⟨c, rest, rfl⟩ := List.exists_cons_of_ne_nil hback
  rw [List.cons_append] at hs hcount
  obtain rfl := (List.cons.inj hs).1
  rw [List.count_cons_self, List.count_append] at hcount
  exact ⟨rest, rfl, by omega⟩

/-- With a column behind the row, no part of the file can be taken for the row. -/
theorem place?_of_column (r column : Digits) (b : Blanks) (hne : file ≠ []) (hline : '\n' ∉ file) :
    place? (file ++ ':' :: (r.chars ++ (columnText (some column) ++ b.chars))) =
      some (file, r.chars) := by
  refine place?_append hne hline (row?_text r (some column) b) ?_
  intro front back _ hback _
  rw [Option.eq_none_iff_forall_ne_some]
  intro row' hrow
  obtain ⟨_, -, hcount⟩ := exists_colon_of_row? hback hrow
  simp only [columnText, List.cons_append, List.count_cons_self, List.count_append] at hcount
  omega

/-- Without a column, only a file that ends in what looks like a row is cut there. -/
theorem place?_of_rowless (r : Digits) (b : Blanks) (hne : file ≠ []) (hline : '\n' ∉ file)
    (hfile : Rowless file) :
    place? (file ++ ':' :: (r.chars ++ (columnText none ++ b.chars))) = some (file, r.chars) := by
  refine place?_append hne hline (row?_text r none b) ?_
  intro front back hfront hback hsplit
  rw [Option.eq_none_iff_forall_ne_some]
  intro row' hrow
  obtain ⟨back, rfl, hcount⟩ := exists_colon_of_row? hback hrow
  obtain ⟨d, column, b', -, hs⟩ := row?_eq_some_iff.1 hrow
  have htail : back ++ ':' :: (r.chars ++ b.chars) = d.chars ++ (columnText column ++ b'.chars) :=
    (List.cons.inj hs).2
  -- the colon in front of the row is the second one, so it is that of a column
  have hcolon : ':' ∉ back := by
    rw [← List.count_eq_zero]
    simp only [columnText, List.nil_append, List.count_cons_self, List.count_append,
      count_colon_digits, count_colon_blanks] at hcount
    omega
  cases column with
  | none =>
    have hmem : ':' ∈ d.chars ++ (columnText none ++ b'.chars) := htail ▸ by simp
    simp [columnText, colon_not_mem_digits, colon_not_mem_blanks] at hmem
  | some e =>
    have hcut := cutFirst?_append hcolon (r.chars ++ b.chars)
    have hcolumn := cutFirst?_append (colon_not_mem_digits d) (e.chars ++ b'.chars)
    obtain ⟨rfl, -⟩ := Prod.mk.inj (Option.some.inj ((htail ▸ hcut).symm.trans hcolumn))
    exact hfile front d hfront hsplit

/-- A comment that begins in a quiet part would end in it. -/
theorem ne_of_quiet {middle t : List Char} {c d : Char} (hc : isBlank c = true)
    (hd : isBlank d = true) (hquiet : Quiet (d :: (middle ++ [c]))) (l : Leader) :
    middle ++ c :: s ≠ l.sign ++ ' ' :: t := by
  have hsign : c ∉ l.sign := by
    intro hmem
    rw [l.isBlank_sign hmem] at hc
    cases hc
  have hinside : ¬ l.sign ++ [' '] <+: middle ++ [c] := fun hp =>
    hquiet d l hd (List.cons_prefix_cons.2 ⟨rfl, hp⟩).isInfix
  intro h
  have hmiddle : middle ++ [c] <+: middle ++ c :: s := ⟨s, by simp⟩
  have hcomment : l.sign ++ [' '] <+: middle ++ c :: s := ⟨t, by simp [h]⟩
  rcases List.prefix_or_prefix_of_prefix hcomment hmiddle with hp | hp
  · exact hinside hp
  · rcases List.prefix_concat_iff.1 hp with heq | hp
    · exact hinside (heq ▸ List.prefix_refl _)
    · exact hsign (hp.subset (by simp))

/-- Nothing but blanks is quiet. -/
theorem quiet_of_blank (h : ∀ c ∈ s, isBlank c = true) : Quiet s := by
  intro c l _ hi
  obtain ⟨d, hd⟩ : ∃ d, d ∈ l.sign := by
    cases l <;> exact ⟨_, List.mem_cons_self⟩
  have hblank := h d (hi.subset (List.mem_cons_of_mem _ (List.mem_append_left _ hd)))
  rw [l.isBlank_sign hd] at hblank
  cases hblank

/-- What stands in front of a comment is skipped. -/
theorem comment?_append {middle : List Char} {c : Char} (l : Leader) (hc : isBlank c = true)
    (hline : '\n' ∉ middle) (hquiet : Quiet (middle ++ [c])) (hs : place? s = some p) :
    comment? (middle ++ c :: (l.sign ++ ' ' :: s)) = some p := by
  have hspace : after? " " (' ' :: s) = some s := after?_append " " s
  induction middle with
  | nil => simp [comment?, hc, hspace, hs]
  | cons d middle ih =>
    obtain ⟨hd, hmiddle⟩ := not_or.1 (mt List.mem_cons.2 hline)
    have hrest := ih hmiddle fun e l' he hi => hquiet e l' he (hi.trans (List.suffix_cons d _).isInfix)
    have hhere : isBlank d = true → (do
        let t ← afterLeader? (middle ++ c :: (l.sign ++ ' ' :: s))
        let t ← after? " " t
        place? t) = none := by
      intro hblank
      simp only [Option.bind_eq_bind, Option.bind_eq_none_iff]
      intro t ht u hu
      obtain ⟨l', hl'⟩ := afterLeader?_eq_some_iff.1 ht
      rw [after?_eq_some_iff.1 hu] at hl'
      exact absurd hl' (ne_of_quiet hc hblank hquiet l')
    rw [List.cons_append, comment?]
    cases hb : isBlank d with
    | false => simp [Ne.symm hd, hrest]
    | true => simp only [if_true, hhere hb, if_neg (Ne.symm hd), hrest]

end Line

end LineCost.Listing
