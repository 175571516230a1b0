import LineCost.Proofs.Text.Codec
import LineCost.Text.Digit

/-!
Runs of blanks and runs of digits, as they stand between and in the parts of a line.
-/

namespace LineCost.Text

/-- Any number of blanks, perhaps none. -/
structure Blanks where
  chars : List Char
  blank : ∀ c ∈ chars, isBlank c = true

/-- At least one blank. -/
structure Gap extends Blanks where
  ne_nil : chars ≠ []

def Gap.tab : Gap := ⟨⟨['\t'], List.all_eq_true.1 (by decide +kernel)⟩, by decide⟩

def Gap.space : Gap := ⟨⟨[' '], List.all_eq_true.1 (by decide +kernel)⟩, by decide⟩

/-- At least one decimal digit, of whatever script. -/
structure Digits where
  chars : List Char
  ne_nil : chars ≠ []
  digit : ∀ c ∈ chars, isDigit c = true

variable {c : Char} {s : List Char}

theorem exists_of_within {ranges : List (Nat × Nat)} {n : Nat} (h : within ranges n = true) :
    ∃ r ∈ ranges, r.1 ≤ n ∧ n ≤ r.2 := by
  induction ranges with
  | nil => cases h
  | cons r rest ih =>
    rw [within, Bool.and_eq_true, Bool.or_eq_true, decide_eq_true_eq, decide_eq_true_eq] at h
    obtain ⟨hfirst, hlast | hrest⟩ := h
    · exact ⟨r, List.mem_cons_self, hfirst, hlast⟩
    · obtain ⟨q, hq, hn⟩ := ih hrest
      exact ⟨q, List.mem_cons_of_mem _ hq, hn⟩

/-- No character is both a blank and a digit. -/
theorem isDigit_eq_false_of_isBlank (h : isBlank c = true) : isDigit c = false := by
  have hapart : ∀ r ∈ blankRanges, ∀ q ∈ digitRanges, r.2 < q.1 ∨ q.2 < r.1 := by decide +kernel
  rw [Bool.eq_false_iff]
  intro hdigit
  obtain ⟨r, hr, hr₁, hr₂⟩ := exists_of_within h
  obtain ⟨q, hq, hq₁, hq₂⟩ := exists_of_within hdigit
  have hrq := hapart r hr q hq
  omega

theorem isBlank_eq_false_of_digit (h : isDigit c = true) : isBlank c = false := by
  rw [Bool.eq_false_iff]
  intro hblank
  rw [isDigit_eq_false_of_isBlank hblank] at h
  cases h

/-- The digits `0` to `9` are among them. -/
theorem isDigit_of_ascii (h : c.isDigit = true) : isDigit c = true := by
  obtain ⟨hlow, hhigh⟩ := Char.isDigit_iff_toNat.1 h
  have hlow' : 0x30 ≤ c.toNat := hlow
  have hhigh' : c.toNat ≤ 0x39 := hhigh
  simp [isDigit, digitRanges, within, hlow', hhigh']

theorem trimStart_of_not_blank (h : isBlank c = false) (s : List Char) :
    trimStart (c :: s) = c :: s := by
  rw [trimStart, List.dropWhile_cons_of_neg (by simp [h])]

namespace Blanks

theorem not_mem (b : Blanks) (h : isBlank c = false) : c ∉ b.chars := by
  intro hc
  rw [b.blank c hc] at h
  cases h

theorem trimStart_append (b : Blanks) (s : List Char) : trimStart (b.chars ++ s) = trimStart s := by
  rw [trimStart, trimStart, List.dropWhile_append_of_pos b.blank]

theorem trimStart_eq_nil (b : Blanks) : trimStart b.chars = [] := by
  rw [trimStart, List.dropWhile_eq_nil_iff]
  exact b.blank

/-- The end of a text that does not end in a blank is found among blanks that follow it. -/
theorem trimEnd_append (b : Blanks) (hs : ∀ c, s.getLast? = some c → isBlank c = false) :
    trimEnd (s ++ b.chars) = s := by
  have hb : ∀ c ∈ b.chars.reverse, isBlank c = true := fun c hc => b.blank c (List.mem_reverse.1 hc)
  have hself := trimEnd_eq_self_iff.2 hs
  rw [trimEnd] at hself
  rw [trimEnd, List.reverse_append, List.dropWhile_append_of_pos hb, hself]

end Blanks

namespace Digits

/-- A number in decimal digits. -/
def ofNat (n : Nat) : Digits where
  chars := Nat.toDigits 10 n
  ne_nil := Nat.toDigits_ne_nil
  digit _ hc := isDigit_of_ascii (isDigit_of_mem_toDigits hc)

theorem not_mem (d : Digits) (h : isDigit c = false) : c ∉ d.chars := by
  intro hc
  rw [d.digit c hc] at h
  cases h

theorem trimStart_append (d : Digits) (s : List Char) :
    trimStart (d.chars ++ s) = d.chars ++ s := by
  rw [trimStart_eq_self_iff]
  intro c hc
  obtain ⟨first, rest, hd⟩ := List.exists_cons_of_ne_nil d.ne_nil
  rw [hd, List.cons_append, List.head?_cons, Option.some.injEq] at hc
  subst hc
  exact isBlank_eq_false_of_digit (d.digit first (hd ▸ List.mem_cons_self))

theorem takeWhile_append (d : Digits) (h : ∀ c, s.head? = some c → isDigit c = false) :
    (d.chars ++ s).takeWhile isDigit = d.chars := by
  have hs : s.takeWhile isDigit = [] := by
    cases s with
    | nil => rfl
    | cons c s => rw [List.takeWhile_cons_of_neg (by simp [h c rfl])]
  rw [List.takeWhile_append_of_pos d.digit, hs, List.append_nil]

theorem dropWhile_append (d : Digits) (s : List Char) :
    (d.chars ++ s).dropWhile isDigit = s.dropWhile isDigit :=
  List.dropWhile_append_of_pos d.digit

end Digits

end LineCost.Text
