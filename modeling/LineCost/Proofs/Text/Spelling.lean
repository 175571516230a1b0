import LineCost.Proofs.Text.Runs
import Mathlib.Data.List.Forall2
import Mathlib.Data.Nat.Digits.Defs

/-!
How numbers may be spelled, and from there which texts are read as tallies and as locations. A tally
is seven numbers between commas, and a location ends with a number after its last colon; both may
have blanks around a number, a plus sign in front of it and zeros before its first digit. What is
written of a tally or a location is one of its spellings, so it is read back.
-/

namespace LineCost

namespace Text

/-- Digits `0` to `9`, perhaps with a plus sign in front. -/
structure Numeral where
  plus : Bool
  digits : List Char
  ne_nil : digits ≠ []
  ascii : ∀ c ∈ digits, c.isDigit = true

namespace Numeral

def chars (d : Numeral) : List Char := if d.plus then '+' :: d.digits else d.digits

/-- The last digit counts units, the one before it tens, and so on. -/
def value (d : Numeral) : Nat :=
  Nat.ofDigits 10 (d.digits.reverse.map fun c => c.toNat - '0'.toNat)

theorem chars_ne_nil (d : Numeral) : d.chars ≠ [] := by
  rw [chars]
  split
  · exact List.cons_ne_nil _ _
  · exact d.ne_nil

theorem isBlank_eq_false (d : Numeral) : ∀ c ∈ d.chars, isBlank c = false := by
  have hdigits : ∀ c ∈ d.digits, isBlank c = false := fun c hc =>
    isBlank_eq_false_of_isDigit (d.ascii c hc)
  rw [chars]
  split
  · exact List.forall_mem_cons.2 ⟨by decide, hdigits⟩
  · exact hdigits

end Numeral

/-- A number, perhaps with blanks around it. -/
def Spells (s : List Char) (n : Nat) : Prop :=
  ∃ (before : Blanks) (d : Numeral) (after : Blanks),
    before.chars ++ (d.chars ++ after.chars) = s ∧ d.value = n

/-- The parts of a text between its separators. -/
structure PartsAt (separator : Char) (s : List Char) (ps : List (List Char)) : Prop where
  joined : [separator].intercalate ps = s
  apart : ∀ p ∈ ps, separator ∉ p

variable {limit n : Nat} {s : List Char}

theorem decimalValue_eq (s : List Char) :
    decimalValue s = Nat.ofDigits 10 (s.reverse.map fun c => c.toNat - '0'.toNat) := by
  rw [Nat.ofDigits_eq_foldr, List.foldr_map, List.foldr_reverse, decimalValue]
  congr 1
  funext n c
  exact Nat.add_comm _ _

theorem readDigits?_eq_some_iff : readDigits? limit s = some n ↔
    (s ≠ [] ∧ ∀ c ∈ s, c.isDigit = true) ∧ decimalValue s = n ∧ n ≤ limit := by
  have hcond : (s.isEmpty || !s.all Char.isDigit) = true ↔
      ¬ (s ≠ [] ∧ ∀ c ∈ s, c.isDigit = true) := by
    rw [Bool.or_eq_true, List.isEmpty_iff, Bool.not_eq_true', Bool.eq_false_iff, ne_eq,
      List.all_eq_true]
    tauto
  rw [readDigits?]
  by_cases hs : s ≠ [] ∧ ∀ c ∈ s, c.isDigit = true
  · rw [if_neg fun h => hcond.1 h hs, Option.ite_none_right_eq_some, Option.some.injEq]
    constructor
    · rintro ⟨hle, rfl⟩
      exact ⟨hs, rfl, hle⟩
    · rintro ⟨-, rfl, hle⟩
      exact ⟨hle, rfl⟩
  · rw [if_pos (hcond.2 hs)]
    simp [hs]

/-- What is read is the value of a numeral. -/
theorem readNumber?_eq_some_iff : readNumber? limit s = some n ↔
    (∃ d : Numeral, d.chars = s ∧ d.value = n) ∧ n ≤ limit := by
  constructor
  · intro h
    rw [readNumber?.eq_def] at h
    split at h
    · rename_i digits
      obtain ⟨⟨hne, hascii⟩, hvalue, hle⟩ := readDigits?_eq_some_iff.1 h
      rw [decimalValue_eq] at hvalue
      exact ⟨⟨⟨true, digits, hne, hascii⟩, rfl, hvalue⟩, hle⟩
    · obtain ⟨⟨hne, hascii⟩, hvalue, hle⟩ := readDigits?_eq_some_iff.1 h
      rw [decimalValue_eq] at hvalue
      exact ⟨⟨⟨false, s, hne, hascii⟩, rfl, hvalue⟩, hle⟩
  · rintro ⟨⟨⟨plus, digits, hne, hascii⟩, rfl, rfl⟩, hle⟩
    have hread := readDigits?_eq_some_iff.2 ⟨⟨hne, hascii⟩, decimalValue_eq digits, hle⟩
    cases plus with
    | true => exact hread
    | false => exact (readNumber?_of_digits limit hascii).trans hread

theorem exists_trimEnd_append (s : List Char) : ∃ after : Blanks, trimEnd s ++ after.chars = s := by
  refine ⟨⟨(s.reverse.takeWhile isBlank).reverse, fun c hc => ?_⟩, ?_⟩
  · exact List.mem_takeWhile_imp (List.mem_reverse.1 hc)
  · rw [trimEnd, ← List.reverse_append, List.takeWhile_append_dropWhile, List.reverse_reverse]

/-- Nothing is trimmed off but blanks. -/
theorem exists_trim_append (s : List Char) :
    ∃ before after : Blanks, before.chars ++ (trim s ++ after.chars) = s := by
  obtain ⟨after, hafter⟩ := exists_trimEnd_append (trimStart s)
  refine ⟨⟨s.takeWhile isBlank, fun c hc => List.mem_takeWhile_imp hc⟩, after, ?_⟩
  rw [trim, hafter, trimStart, List.takeWhile_append_dropWhile]

theorem trim_blanks_append (before after : Blanks) (hne : s ≠ [])
    (hs : ∀ c ∈ s, isBlank c = false) : trim (before.chars ++ (s ++ after.chars)) = s := by
  have hstart : trimStart (s ++ after.chars) = s ++ after.chars := by
    rw [trimStart_eq_self_iff]
    intro c hc
    rw [List.head?_append_of_ne_nil _ hne] at hc
    exact hs c (List.mem_of_mem_head? hc)
  rw [trim, before.trimStart_append, hstart]
  exact after.trimEnd_append fun c hc => hs c (List.mem_of_mem_getLast? hc)

/-- A text spells a number if trimming it leaves a numeral of this value. -/
theorem spells_iff : Spells s n ↔ ∃ d : Numeral, d.chars = trim s ∧ d.value = n := by
  constructor
  · rintro ⟨before, d, after, rfl, hvalue⟩
    exact ⟨d, (trim_blanks_append before after d.chars_ne_nil d.isBlank_eq_false).symm, hvalue⟩
  · rintro ⟨d, hd, hvalue⟩
    obtain ⟨before, after, hs⟩ := exists_trim_append s
    exact ⟨before, d, after, hd ▸ hs, hvalue⟩

theorem readNumber?_trim_eq_some_iff :
    readNumber? limit (trim s) = some n ↔ Spells s n ∧ n ≤ limit := by
  rw [readNumber?_eq_some_iff, spells_iff]

theorem mapM_eq_some_iff {α β : Type} {f : α → Option β} {l : List α} {bs : List β} :
    l.mapM f = some bs ↔ List.Forall₂ (fun a b => f a = some b) l bs := by
  induction l generalizing bs with
  | nil =>
    rw [List.mapM_nil, List.forall₂_nil_left_iff]
    exact ⟨fun h => (Option.some.inj h).symm, fun h => h ▸ rfl⟩
  | cons a l ih =>
    rw [List.mapM_cons, List.forall₂_cons_left_iff]
    simp only [Option.bind_eq_bind, Option.bind_eq_some_iff, Option.pure_def, Option.some.injEq, ih]
    constructor
    · rintro ⟨b, hb, bs, hbs, rfl⟩
      exact ⟨b, bs, hb, hbs, rfl⟩
    · rintro ⟨b, bs, hb, hbs, rfl⟩
      exact ⟨b, hb, bs, hbs, rfl⟩

theorem forall₂_readNumber?_iff {ps : List (List Char)} {ns : List Nat} :
    List.Forall₂ (fun p n => readNumber? limit (trim p) = some n) ps ns ↔
      List.Forall₂ Spells ps ns ∧ ∀ n ∈ ns, n ≤ limit := by
  constructor
  · intro h
    induction h with
    | nil => exact ⟨.nil, nofun⟩
    | cons hp _ ih =>
      obtain ⟨hspells, hle⟩ := readNumber?_trim_eq_some_iff.1 hp
      exact ⟨.cons hspells ih.1, List.forall_mem_cons.2 ⟨hle, ih.2⟩⟩
  · intro h
    obtain ⟨hspells, hle⟩ := h
    induction hspells with
    | nil => exact .nil
    | cons hp _ ih =>
      obtain ⟨hn, hns⟩ := List.forall_mem_cons.1 hle
      exact .cons (readNumber?_trim_eq_some_iff.2 ⟨hp, hn⟩) (ih hns)

end Text

namespace Tally

variable {s : List Char} {t : Tally} {ns : List Nat}

theorem ofFields?_eq_some_iff : ofFields? ns = some t ↔ t.fields = ns := by
  constructor
  · intro h
    rw [ofFields?.eq_def] at h
    split at h
    · rw [← Option.some.inj h, fields]
    · cases h
  · intro h
    rw [← h, ofFields?_fields]

/-- Any seven numbers are the counters of a tally. -/
theorem exists_fields_eq_iff : (∃ t : Tally, t.fields = ns) ↔ ns.length = 7 := by
  constructor
  · intro h
    obtain ⟨t, rfl⟩ := h
    rfl
  · intro h
    match ns, h with
    | [b, l, s, a, f, o, c], _ => exact ⟨⟨b, l, s, a, f, o, c⟩, rfl⟩

theorem read?_eq_some_iff : read? s = some t ↔
    ∃ ps, Text.PartsAt ',' s ps ∧ List.Forall₂ Text.Spells ps t.fields ∧ t.Fits := by
  have hread : read? s = some t ↔
      ((Text.pieces ',' s).mapM fun p => Text.readNumber? Text.counterLimit (Text.trim p)) =
        some t.fields := by
    rw [read?, Option.bind_eq_bind, Option.bind_eq_some_iff]
    simp only [ofFields?_eq_some_iff, exists_eq_right']
  rw [hread, Text.mapM_eq_some_iff, Text.forall₂_readNumber?_iff]
  constructor
  · intro h
    obtain ⟨hjoined, hapart⟩ := (Text.pieces_eq_iff (Text.pieces_ne_nil ',' s)).1 rfl
    exact ⟨_, ⟨hjoined, hapart⟩, h⟩
  · intro h
    obtain ⟨ps, hps, hspells, hfits⟩ := h
    have hne : ps ≠ [] := by
      rintro rfl
      cases hspells
    rw [(Text.pieces_eq_iff hne).2 ⟨hps.joined, hps.apart⟩]
    exact ⟨hspells, hfits⟩

/-- A text is read if seven numbers are spelled between its commas, and these are the counters. -/
theorem exists_read?_iff : (∃ t, read? s = some t ∧ t.fields = ns) ↔
    ∃ ps, Text.PartsAt ',' s ps ∧ ps.length = 7 ∧ List.Forall₂ Text.Spells ps ns ∧
      ∀ n ∈ ns, n ≤ Text.counterLimit := by
  constructor
  · intro h
    obtain ⟨t, hread, rfl⟩ := h
    obtain ⟨ps, hps, hspells, hfits⟩ := read?_eq_some_iff.1 hread
    exact ⟨ps, hps, hspells.length_eq, hspells, hfits⟩
  · intro h
    obtain ⟨ps, hps, hlength, hspells, hfits⟩ := h
    obtain ⟨t, rfl⟩ := exists_fields_eq_iff.2 (hspells.length_eq ▸ hlength)
    exact ⟨t, read?_eq_some_iff.2 ⟨ps, hps, hspells, hfits⟩, rfl⟩

end Tally

namespace Location

variable {s : List Char} {l : Location}

theorem read?_eq_some_iff : read? s = some l ↔ ∃ after, l.file.toList ++ ':' :: after = s ∧
    ':' ∉ after ∧ Text.Spells after l.line ∧ l.line ≤ Text.lineLimit := by
  obtain ⟨file, line⟩ := l
  simp only [read?, Option.bind_eq_bind, Option.bind_eq_some_iff, Option.pure_def,
    Option.some.injEq, Prod.exists, Location.mk.injEq, Text.readNumber?_trim_eq_some_iff,
    Text.cutLast?_eq_some_iff]
  constructor
  · intro h
    obtain ⟨front, after, ⟨hs, hcolon⟩, n, hn, rfl, rfl⟩ := h
    rw [String.toList_ofList]
    exact ⟨after, hs, hcolon, hn⟩
  · intro h
    obtain ⟨after, hs, hcolon, hline⟩ := h
    exact ⟨file.toList, after, ⟨hs, hcolon⟩, line, hline, String.ofList_toList, rfl⟩

end Location

/-- A text is read as a tally exactly if it has seven parts between commas of which each spells a
number that a counter can hold, and these are the counters in order. It is read as a location
exactly if what follows its last colon spells a number within the limit of lines, which is the line,
and what precedes the colon is the file. The text of a tally is read back exactly if all counters
are within their limit, and that of a location, whatever the file is called, if the line is. -/
theorem read?_iff_spelled :
    (∀ s ns, (∃ t, Tally.read? s = some t ∧ t.fields = ns) ↔
      ∃ ps, Text.PartsAt ',' s ps ∧ ps.length = 7 ∧ List.Forall₂ Text.Spells ps ns ∧
        ∀ n ∈ ns, n ≤ Text.counterLimit) ∧
    (∀ t : Tally, Tally.read? t.text.toList = some t ↔ ∀ n ∈ t.fields, n ≤ Text.counterLimit) ∧
    (∀ s l, Location.read? s = some l ↔ ∃ after, l.file.toList ++ ':' :: after = s ∧
      ':' ∉ after ∧ Text.Spells after l.line ∧ l.line ≤ Text.lineLimit) ∧
    ∀ l : Location, Location.read? l.text.toList = some l ↔ l.line ≤ Text.lineLimit := by
  refine ⟨fun s ns => Tally.exists_read?_iff, fun t => ?_, fun s l => Location.read?_eq_some_iff,
    fun l => ⟨fun h => ?_, Location.read?_text⟩⟩
  · rw [Tally.read?_text, Option.ite_none_right_eq_some, and_iff_left rfl, Tally.Fits]
  · obtain ⟨after, -, -, -, hle⟩ := Location.read?_eq_some_iff.1 h
    exact hle

/-- Blanks, a plus sign and zeros make no difference, and the last colon counts. -/
example : Tally.read? "+1,\t02 ,3,4,5,6, 007".toList = some ⟨1, 2, 3, 4, 5, 6, 7⟩ ∧
    Location.read? "C: 1:+ 2".toList = none ∧
    Location.read? ":3:\t+04 ".toList = some ⟨":3", 4⟩ := by
  decide +kernel

end LineCost
