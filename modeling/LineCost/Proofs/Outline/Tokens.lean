import LineCost.Outline.Line
import LineCost.Proofs.Results
import LineCost.Proofs.Text.Codec

/-!
Each line of an outline is read back from the text that is written of it, and what is read from any
line can be written.
-/

namespace LineCost.Outline

/-- What is known of a name that has been read from one line. -/
structure ReadableName (s : String) : Prop where
  trimmed : Text.trim s.toList = s.toList
  nonempty : s.toList ≠ []
  oneLine : '\n' ∉ s.toList

namespace Line

/-- A text whose last character is not blank. -/
def Ended (s : List Char) : Prop := ∃ c, s.getLast? = some c ∧ Text.isBlank c = false

theorem Ended.append {s : List Char} (h : Ended s) (before : List Char) : Ended (before ++ s) := by
  obtain ⟨c, hc, hb⟩ := h
  exact ⟨c, by rw [List.getLast?_append, hc, Option.some_or], hb⟩

theorem Ended.append_toList {s : String} (h : Ended s.toList) (before : String) :
    Ended (before ++ s).toList := by
  rw [String.toList_append]
  exact h.append _

theorem Ended.trimEnd {s : List Char} (h : Ended s) : Text.trimEnd s = s := by
  obtain ⟨c, hc, hb⟩ := h
  apply Text.trimEnd_eq_self_iff.2
  intro d hd
  exact Option.some.inj (hc.symm.trans hd) ▸ hb

theorem Ended.getLast?_ne {s : List Char} (h : Ended s) : s.getLast? ≠ some '\r' := by
  obtain ⟨c, hc, hb⟩ := h
  intro hr
  rw [Option.some.inj (hc.symm.trans hr)] at hb
  exact absurd hb (by decide)

theorem Ended.withoutReturn {s : List Char} (h : Ended s) : withoutReturn s = s := by
  rw [Line.withoutReturn, if_neg h.getLast?_ne]

theorem Ended.trim_isEmpty {s : List Char} (h : Ended s) : (Text.trim s).isEmpty = false := by
  obtain ⟨c, hc, hb⟩ := h
  rw [List.isEmpty_eq_false_iff]
  intro hnil
  have hblank := Text.trim_eq_nil_iff.1 hnil c (List.mem_of_mem_getLast? hc)
  rw [hblank] at hb
  exact absurd hb (by decide)

theorem ended_toDigits (n : Nat) : Ended (Nat.toDigits 10 n) := by
  have hne : Nat.toDigits 10 n ≠ [] := Nat.toDigits_ne_nil
  refine ⟨_, List.getLast?_eq_some_getLast hne, ?_⟩
  exact Text.isBlank_eq_false_of_isDigit (Text.isDigit_of_mem_toDigits (List.getLast_mem hne))

theorem ended_name {s : String} (h : ReadableName s) : Ended s.toList := by
  have hend := Text.trimEnd_idem (Text.trimStart s.toList)
  have htrim : Text.trimEnd (Text.trimStart s.toList) = s.toList := h.trimmed
  rw [htrim] at hend
  refine ⟨_, List.getLast?_eq_some_getLast h.nonempty, ?_⟩
  exact Text.trimEnd_eq_self_iff.1 hend _ (List.getLast?_eq_some_getLast h.nonempty)

theorem ended_location (l : Location) : Ended l.text.toList := by
  rw [Location.toList_text, List.append_cons]
  exact (ended_toDigits l.line).append _

/-- The text of a tally begins and ends with digits. -/
theorem tally_text_ends (t : Tally) : (∃ s, t.text.toList = Nat.toDigits 10 t.branch ++ s) ∧
    ∃ s, t.text.toList = s ++ Nat.toDigits 10 t.cycles := by
  have h : t.text.toList = ", ".toList.intercalate (t.fields.map (Nat.toDigits 10)) :=
    t.toList_text
  simp only [Tally.fields, List.map_cons, List.map_nil, List.intercalate_cons_cons,
    List.intercalate_singleton] at h
  exact ⟨⟨_, by rw [h, List.append_assoc]⟩, ⟨_, by rw [h]; simp only [← List.append_assoc]; rfl⟩⟩

theorem ended_tally (t : Tally) : Ended t.text.toList := by
  obtain ⟨_, s, hs⟩ := tally_text_ends t
  rw [hs]
  exact (ended_toDigits t.cycles).append s

theorem trim_tally (t : Tally) : Text.trim t.text.toList = t.text.toList := by
  obtain ⟨⟨s, hs⟩, _⟩ := tally_text_ends t
  apply Text.trim_eq_self
  · intro c hc
    obtain ⟨d, ds, hd, hdigit⟩ := Text.exists_toDigits_eq_cons t.branch
    rw [hs, hd, List.cons_append, List.head?_cons, Option.some.injEq] at hc
    exact Text.isBlank_eq_false_of_isDigit (hc ▸ hdigit)
  · exact Text.trimEnd_eq_self_iff.1 (ended_tally t).trimEnd

theorem read_func {name : String} (h : ReadableName name) :
    read ("func: " ++ name).toList = .ok (.func name) := by
  have he : Ended ("func: " ++ name).toList := (ended_name h).append_toList _
  rw [read, he.withoutReturn, he.trim_isEmpty]
  simp [Text.after?, ← String.length_toList, readName, h.trimmed, h.nonempty]

theorem read_block {name : String} (h : ReadableName name) :
    read (" block: " ++ name).toList = .ok (.block name) := by
  have he : Ended (" block: " ++ name).toList := (ended_name h).append_toList _
  rw [read, he.withoutReturn, he.trim_isEmpty]
  simp [Text.after?, ← String.length_toList, readName, h.trimmed, h.nonempty]

theorem readLocation_text {l : Location} (h : l.Readable) : readLocation l.text.toList = .ok l := by
  rw [readLocation, (ended_location l).trimEnd, Location.read?_text h.2]
  rfl

theorem read_decl {l : Location} (h : l.Readable) :
    read (" at: " ++ l.text).toList = .ok (.decl l) := by
  have he : Ended (" at: " ++ l.text).toList := (ended_location l).append_toList _
  rw [read, he.withoutReturn, he.trim_isEmpty]
  simp [Text.after?, ← String.length_toList, readLocation_text h]

/-- A line that begins with two spaces is read as a field. -/
theorem read_field {s : List Char} (h : Ended s) : read (' ' :: ' ' :: s) = readField s := by
  have he : Ended (' ' :: ' ' :: s) := h.append [' ', ' ']
  rw [read, he.withoutReturn, he.trim_isEmpty]
  simp [Text.after?, ← String.length_toList]

theorem read_size {n : Nat} (h : n ≤ Text.lineLimit) :
    read ("  size: " ++ n.repr).toList = .ok (.size n) := by
  have he : Ended ("size: ".toList ++ Nat.toDigits 10 n) := (ended_toDigits n).append _
  have hs : ("  size: " ++ n.repr).toList = ' ' :: ' ' :: ("size: ".toList ++ Nat.toDigits 10 n) := by
    simp
  rw [hs, read_field he, readField, Text.after?_append]
  simp [Text.trim_toDigits, Text.readNumber?_toDigits, h]
  rfl

theorem read_start {l : Location} (h : l.Readable) :
    read ("  from: " ++ l.text).toList = .ok (.start l) := by
  have he : Ended ("from: ".toList ++ l.text.toList) := (ended_location l).append _
  have hs : ("  from: " ++ l.text).toList = ' ' :: ' ' :: ("from: ".toList ++ l.text.toList) := by
    simp
  rw [hs, read_field he, readField]
  simp [Text.after?, ← String.length_toList, readLocation_text h]

theorem read_stop {l : Location} (h : l.Readable) :
    read ("  to: " ++ l.text).toList = .ok (.stop l) := by
  have he : Ended ("to: ".toList ++ l.text.toList) := (ended_location l).append _
  have hs : ("  to: " ++ l.text).toList = ' ' :: ' ' :: ("to: ".toList ++ l.text.toList) := by
    simp
  rw [hs, read_field he, readField]
  simp [Text.after?, ← String.length_toList, readLocation_text h]

theorem read_tally (t : Tally) : read ("  stat: " ++ t.text).toList =
    if t.Fits then .ok (.tally t) else .error ⟨t.text⟩ := by
  have he : Ended ("stat: ".toList ++ t.text.toList) := (ended_tally t).append _
  have hs : ("  stat: " ++ t.text).toList = ' ' :: ' ' :: ("stat: ".toList ++ t.text.toList) := by
    simp
  rw [hs, read_field he, readField]
  simp [Text.after?, ← String.length_toList, Tally.read?_text]
  by_cases h : t.Fits <;> simp [h, orMalformed]

theorem readField_of_isDigit {c : Char} (h : c.isDigit = true) (s : List Char) :
    readField (c :: s) = readEntry (c :: s) := by
  have hne : ∀ d : Char, d.isDigit = false → ¬ d = c := by
    intro d hd he
    rw [he, h] at hd
    exact absurd hd (by decide)
  have hs := hne 's' (by decide)
  have hf := hne 'f' (by decide)
  have ht := hne 't' (by decide)
  simp [readField, Text.after?, hs, hf, ht]

theorem read_entry {n : Nat} (h : n ≤ Text.lineLimit) (t : Tally) :
    read ("  " ++ n.repr ++ ": " ++ t.text).toList =
      if t.Fits then .ok (.entry n (some t)) else .error ⟨t.text⟩ := by
  have he : Ended (Nat.toDigits 10 n ++ ':' :: ' ' :: t.text.toList) :=
    ((ended_tally t).append [':', ' ']).append _
  have hs : ("  " ++ n.repr ++ ": " ++ t.text).toList =
      ' ' :: ' ' :: (Nat.toDigits 10 n ++ ':' :: ' ' :: t.text.toList) := by
    simp
  have hcut := Text.cutFirst?_append (Text.not_mem_toDigits (c := ':') (by decide) n)
    (' ' :: t.text.toList)
  have hfield : readField (Nat.toDigits 10 n ++ ':' :: ' ' :: t.text.toList) =
      readEntry (Nat.toDigits 10 n ++ ':' :: ' ' :: t.text.toList) := by
    obtain ⟨d, ds, hd, hdigit⟩ := Text.exists_toDigits_eq_cons n
    rw [hd]
    exact readField_of_isDigit hdigit _
  have hrest : Text.trim (' ' :: t.text.toList) = t.text.toList := by
    rw [Text.trim_blank_cons (by decide), trim_tally]
  have hne : t.text.toList ≠ [] := by
    obtain ⟨c, hc, _⟩ := ended_tally t
    intro hnil
    simp [hnil] at hc
  rw [hs, read_field he, hfield, readEntry, hcut]
  simp [Text.all_isDigit_toDigits, Nat.toDigits_ne_nil, Text.readDigits?_toDigits, h, hrest, hne, Tally.read?_text]
  by_cases hf : t.Fits <;> simp [hf, orMalformed] <;> rfl

/-- What is known of a line that has been read and is not blank. -/
def Readable : Line → Prop
  | .func name => ReadableName name
  | .decl l => l.Readable
  | .block name => ReadableName name
  | .size n => n ≤ Text.lineLimit
  | .start l => l.Readable
  | .stop l => l.Readable
  | .entry n _ => n ≤ Text.lineLimit
  | .tally _ => True
  | .unknown => True
  | .blank => False

theorem readable_of_readName {s : List Char} {name : String} (hn : '\n' ∉ s)
    (h : readName s = .ok name) : ReadableName name := by
  rw [readName] at h
  split at h
  · simp at h
  · rename_i hne
    have hname := Except.ok.inj h
    subst hname
    refine ⟨?_, ?_, ?_⟩
    · rw [String.toList_ofList, Text.trim_idem]
    · rw [String.toList_ofList]
      exact fun he => hne (by rw [he]; rfl)
    · rw [String.toList_ofList]
      exact fun hm => hn (Text.mem_of_mem_trim hm)

theorem orMalformed_eq_ok {α : Type} {payload : List Char} {o : Option α} {a : α}
    (h : orMalformed payload o = .ok a) : o = some a := by
  cases o with
  | none => simp [orMalformed] at h
  | some b => rw [Except.ok.inj h]

theorem readable_of_readLocation {s : List Char} {l : Location} (hn : '\n' ∉ s)
    (h : readLocation s = .ok l) : l.Readable :=
  Location.readable_of_read? (fun hm => hn (Text.mem_of_mem_trimEnd hm)) (orMalformed_eq_ok h)

theorem readable_of_readEntry {s : List Char} {line : Line} (h : readEntry s = .ok line) :
    line.Readable := by
  rw [readEntry] at h
  split at h
  · exact Except.ok.inj h ▸ trivial
  · split at h
    · exact Except.ok.inj h ▸ trivial
    · rename_i number rest _ _
      obtain ⟨n, hn, h⟩ := bind_eq_ok h
      have hle : n ≤ Text.lineLimit := Text.le_of_readDigits? (orMalformed_eq_ok hn)
      simp only at h
      split at h
      · exact Except.ok.inj h ▸ hle
      · obtain ⟨t, _, h⟩ := bind_eq_ok h
        exact Except.ok.inj h ▸ hle

theorem readable_of_readField {s : List Char} {line : Line} (hn : '\n' ∉ s)
    (h : readField s = .ok line) : line.Readable := by
  have hafter : ∀ {beginning rest}, Text.after? beginning s = some rest → '\n' ∉ rest := by
    intro beginning rest ha hm
    exact hn (Text.eq_of_after? ha ▸ List.mem_append_right _ hm)
  rw [readField] at h
  split at h
  · obtain ⟨n, hr, hl⟩ := map_eq_ok h
    exact hl ▸ Text.le_of_readNumber? (orMalformed_eq_ok hr)
  · split at h
    · rename_i ha
      obtain ⟨l, hr, hl⟩ := map_eq_ok h
      exact hl ▸ readable_of_readLocation (hafter ha) hr
    · split at h
      · rename_i ha
        obtain ⟨l, hr, hl⟩ := map_eq_ok h
        exact hl ▸ readable_of_readLocation (hafter ha) hr
      · split at h
        · obtain ⟨t, _, hl⟩ := map_eq_ok h
          exact hl ▸ trivial
        · exact readable_of_readEntry h

/-- What is read from a text without newlines can be written to one, unless the text is blank. -/
theorem readable_of_read {text : List Char} {line : Line} (hn : '\n' ∉ text)
    (h : read text = .ok line) :
    line.Readable ∨ line = .blank ∧ (Text.trim (withoutReturn text)).isEmpty = true := by
  have hs : '\n' ∉ withoutReturn text := by
    intro hm
    rw [withoutReturn] at hm
    split at hm
    · exact hn ((List.dropLast_sublist text).subset hm)
    · exact hn hm
  have hafter : ∀ {beginning rest}, Text.after? beginning (withoutReturn text) = some rest →
      '\n' ∉ rest := by
    intro beginning rest ha hm
    exact hs (Text.eq_of_after? ha ▸ List.mem_append_right _ hm)
  rw [read] at h
  split at h
  · rename_i he
    exact .inr ⟨(Except.ok.inj h).symm, he⟩
  · refine .inl ?_
    split at h
    · rename_i ha
      obtain ⟨name, hr, hl⟩ := map_eq_ok h
      exact hl ▸ readable_of_readName (hafter ha) hr
    · split at h
      · rename_i ha
        obtain ⟨l, hr, hl⟩ := map_eq_ok h
        exact hl ▸ readable_of_readLocation (hafter ha) hr
      · split at h
        · rename_i ha
          obtain ⟨name, hr, hl⟩ := map_eq_ok h
          exact hl ▸ readable_of_readName (hafter ha) hr
        · split at h
          · rename_i ha
            exact readable_of_readField (hafter ha) h
          · exact Except.ok.inj h ▸ trivial

end Line

end LineCost.Outline
