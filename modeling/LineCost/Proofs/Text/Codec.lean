import LineCost.Proofs.Text.Lines
import LineCost.Source.Location
import LineCost.Tally

/-!
Numbers, tallies and locations are read back from the texts that are written of them.
-/

namespace LineCost

namespace Text

theorem isBlank_eq_false_of_isDigit {c : Char} (h : c.isDigit = true) : isBlank c = false := by
  obtain ⟨hlow, hhigh⟩ := Char.isDigit_iff_toNat.1 h
  have hlow' : 48 ≤ c.toNat := hlow
  have hhigh' : c.toNat ≤ 57 := hhigh
  simp only [isBlank, blankRanges, within]
  simp
  omega

theorem isDigit_of_mem_toDigits {n : Nat} {c : Char} (h : c ∈ Nat.toDigits 10 n) :
    c.isDigit = true :=
  Nat.isDigit_of_mem_toDigits (by decide) (by decide) h

theorem not_mem_toDigits {c : Char} (h : c.isDigit = false) (n : Nat) :
    c ∉ Nat.toDigits 10 n := by
  intro hc
  rw [isDigit_of_mem_toDigits hc] at h
  exact absurd h (by decide)

theorem all_isDigit_toDigits (n : Nat) : (Nat.toDigits 10 n).all Char.isDigit = true := by
  apply List.all_eq_true.2
  intro c hc
  exact isDigit_of_mem_toDigits hc

/-- A number is written with at least one digit. -/
theorem exists_toDigits_eq_cons (n : Nat) :
    ∃ c s, Nat.toDigits 10 n = c :: s ∧ c.isDigit = true := by
  obtain ⟨c, s, h⟩ := List.exists_cons_of_ne_nil (Nat.toDigits_ne_nil (n := n) (b := 10))
  exact ⟨c, s, h, isDigit_of_mem_toDigits (h ▸ List.mem_cons_self)⟩

theorem trim_toDigits (n : Nat) : trim (Nat.toDigits 10 n) = Nat.toDigits 10 n :=
  trim_of_not_blank fun _ hc => isBlank_eq_false_of_isDigit (isDigit_of_mem_toDigits hc)

theorem readDigits?_toDigits (limit n : Nat) :
    readDigits? limit (Nat.toDigits 10 n) = if n ≤ limit then some n else none := by
  have hne : (Nat.toDigits 10 n).isEmpty = false := by
    simp [Nat.toDigits_ne_nil]
  have hvalue : decimalValue (Nat.toDigits 10 n) = n := Nat.ofDigitChars_ten_toDigits
  simp [readDigits?, hne, all_isDigit_toDigits, hvalue]

/-- Digits are read as they are: they do not begin with a plus sign. -/
theorem readNumber?_of_digits (limit : Nat) {s : List Char} (h : ∀ c ∈ s, c.isDigit = true) :
    readNumber? limit s = readDigits? limit s := by
  rw [readNumber?.eq_def]
  split
  · exact absurd (h '+' List.mem_cons_self) (by decide)
  · rfl

theorem readNumber?_toDigits (limit n : Nat) :
    readNumber? limit (Nat.toDigits 10 n) = if n ≤ limit then some n else none := by
  rw [readNumber?_of_digits limit fun _ => isDigit_of_mem_toDigits, readDigits?_toDigits]

theorem le_of_readDigits? {limit n : Nat} {s : List Char} (h : readDigits? limit s = some n) :
    n ≤ limit := by
  rw [readDigits?] at h
  split at h
  · simp at h
  · split at h
    · rename_i hle
      exact Option.some.inj h ▸ hle
    · simp at h

theorem le_of_readNumber? {limit n : Nat} {s : List Char} (h : readNumber? limit s = some n) :
    n ≤ limit := by
  rw [readNumber?.eq_def] at h
  split at h
  · exact le_of_readDigits? h
  · exact le_of_readDigits? h

/-- Pieces that are trimmed anyway may have blanks in front. -/
theorem map_trim_pieces_cons {separator c : Char} (hc : isBlank c = true) (hne : c ≠ separator)
    (s : List Char) : (pieces separator (c :: s)).map trim = (pieces separator s).map trim := by
  rw [pieces, if_neg hne]
  cases h : pieces separator s with
  | nil => exact absurd h (pieces_ne_nil separator s)
  | cons p rest => rw [pushFirst_cons, List.map_cons, trim_blank_cons hc, List.map_cons]

theorem map_trim_pieces_intercalate {ps : List (List Char)} (hne : ps ≠ [])
    (h : ∀ p ∈ ps, ',' ∉ p) :
    (pieces ',' (", ".toList.intercalate ps)).map trim = ps.map trim := by
  induction ps with
  | nil => exact absurd rfl hne
  | cons p rest ih =>
    have hp := h p List.mem_cons_self
    cases rest with
    | nil => rw [List.intercalate_singleton, pieces_of_not_mem hp]
    | cons q rest =>
      have hrest := ih (by simp) fun r hr => h r (List.mem_cons_of_mem _ hr)
      have hsplit : ", ".toList.intercalate (p :: q :: rest) =
          p ++ ',' :: ' ' :: ", ".toList.intercalate (q :: rest) := by
        simp [List.intercalate_cons_cons]
      rw [hsplit, pieces_append hp, List.map_cons, map_trim_pieces_cons (by decide) (by decide),
        hrest]
      rfl

theorem mapM_trim (limit : Nat) (ps : List (List Char)) :
    (ps.mapM fun p => readNumber? limit (trim p)) = (ps.map trim).mapM (readNumber? limit) := by
  induction ps with
  | nil => rfl
  | cons p ps ih => rw [List.mapM_cons, List.map_cons, List.mapM_cons, ih]

theorem mapM_readNumber?_toDigits (limit : Nat) (ns : List Nat) :
    (ns.map (Nat.toDigits 10)).mapM (readNumber? limit) =
      if ∀ n ∈ ns, n ≤ limit then some ns else none := by
  induction ns with
  | nil => simp
  | cons n ns ih =>
    rw [List.map_cons, List.mapM_cons, ih, readNumber?_toDigits]
    simp only [List.forall_mem_cons]
    by_cases hn : n ≤ limit
    · by_cases hns : ∀ k ∈ ns, k ≤ limit
      · rw [if_pos hn, if_pos hns, if_pos ⟨hn, hns⟩]
        rfl
      · rw [if_pos hn, if_neg hns, if_neg fun h => hns h.2]
        rfl
    · have hboth : ¬ (n ≤ limit ∧ ∀ k ∈ ns, k ≤ limit) := fun h => hn h.1
      rw [if_neg hn, if_neg hboth]
      rfl

end Text

namespace Tally

/-- All counters are within the limit of what can be read. -/
def Fits (t : Tally) : Prop := ∀ n ∈ t.fields, n ≤ Text.counterLimit

instance (t : Tally) : Decidable t.Fits := inferInstanceAs (Decidable (∀ n ∈ t.fields, _))

theorem fits_zero : zero.Fits := by decide

theorem ofFields?_fields (t : Tally) : ofFields? t.fields = some t := rfl

theorem toList_text (t : Tally) :
    t.text.toList = ", ".toList.intercalate (t.fields.map (Nat.toDigits 10)) := by
  rw [text, String.toList_intercalate, List.map_map]
  congr 1
  apply List.map_congr_left
  intro n _
  exact Nat.toList_repr

/-- The text of a tally is read back, unless a counter is too large. -/
theorem read?_text (t : Tally) : read? t.text.toList = if t.Fits then some t else none := by
  have hcommas : ∀ p ∈ t.fields.map (Nat.toDigits 10), ',' ∉ p := by
    intro p hp
    obtain ⟨n, _, hn⟩ := List.mem_map.1 hp
    exact hn ▸ Text.not_mem_toDigits (by decide) n
  have htrim : (t.fields.map (Nat.toDigits 10)).map Text.trim =
      t.fields.map (Nat.toDigits 10) := by
    rw [List.map_map]
    apply List.map_congr_left
    intro n _
    exact Text.trim_toDigits n
  have hread := Text.map_trim_pieces_intercalate (by simp [fields]) hcommas
  rw [← toList_text, htrim] at hread
  rw [read?, Text.mapM_trim, hread, Text.mapM_readNumber?_toDigits]
  by_cases h : ∀ n ∈ t.fields, n ≤ Text.counterLimit
  · have hfits : t.Fits := h
    rw [if_pos h, if_pos hfits]
    exact ofFields?_fields t
  · have hfits : ¬ t.Fits := h
    rw [if_neg h, if_neg hfits]
    rfl

end Tally

namespace Location

/-- What is known of a location that has been read from one line. -/
def Readable (l : Location) : Prop := '\n' ∉ l.file.toList ∧ l.line ≤ Text.lineLimit

theorem toList_text (l : Location) :
    l.text.toList = l.file.toList ++ ':' :: Nat.toDigits 10 l.line := by
  simp [text]

theorem read?_text {l : Location} (h : l.line ≤ Text.lineLimit) : read? l.text.toList = some l := by
  have hcut := Text.cutLast?_append l.file.toList
    (Text.not_mem_toDigits (c := ':') (by decide) l.line)
  simp [read?, toList_text, hcut, Text.trim_toDigits, Text.readNumber?_toDigits, h]

theorem readable_of_read? {s : List Char} {l : Location} (hn : '\n' ∉ s) (h : read? s = some l) :
    l.Readable := by
  simp only [read?, Option.bind_eq_bind, Option.bind_eq_some_iff, Option.pure_def,
    Option.some.injEq] at h
  obtain ⟨⟨file, line⟩, hcut, n, hread, hl⟩ := h
  rw [Text.eq_of_cutLast? hcut] at hn
  subst hl
  refine ⟨?_, Text.le_of_readNumber? hread⟩
  intro hm
  rw [String.toList_ofList] at hm
  exact hn (List.mem_append_left _ hm)

end Location

end LineCost
