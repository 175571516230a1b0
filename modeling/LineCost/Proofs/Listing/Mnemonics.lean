import LineCost.Proofs.Listing.RowCosts
import LineCost.Proofs.Text.Lines

/-!
Which mnemonics a listing can name. They begin with an ASCII letter or an underscore and go on with
word characters and full stops, and each of them can stand alone on a line after a tab.
-/

namespace LineCost.Listing

/-- A word that may stand in a listing for an instruction. -/
structure IsMnemonic (word : List Char) : Prop where
  first : ∃ c more, word = c :: more ∧ (c.isAlpha = true ∨ c = '_')
  parts : ∀ d ∈ word, Text.isWordChar d = true ∨ d = '.'

def Listable (mnemonic : String) : Prop := IsMnemonic mnemonic.toList

namespace Line

variable {α : Type} {s word : List Char} {c : Char}

theorem isWordChar_of_isAlpha (h : c.isAlpha = true ∨ c = '_') : Text.isWordChar c = true := by
  have hascii : ∀ n < 128, (Char.ofNat n).isAlpha = true → Text.isWordChar (Char.ofNat n) = true := by
    decide +kernel
  rcases h with h | rfl
  · exact Text.forall_ascii (P := fun c => c.isAlpha = true → Text.isWordChar c = true) hascii
      (toNat_lt_of_isAlpha h) h
  · decide +kernel

theorem listable_of_read {mnemonic : String} (h : read s = .instruction mnemonic) :
    Listable mnemonic := by
  obtain ⟨c, more, rfl, hc, hmore⟩ := exists_of_instruction? (instruction?_of_read h)
  rw [Listable, String.toList_ofList]
  refine ⟨⟨c, more, rfl, hc⟩, List.forall_mem_cons.2 ⟨.inl (isWordChar_of_isAlpha hc), hmore⟩⟩

theorem findFrom?_eq_none {next? : List Char → Option α}
    (h : ∀ t, t <:+ s → next? t = none) : findFrom? next? s = none := by
  induction s with
  | nil => exact h [] (List.suffix_refl _)
  | cons c rest ih =>
    rw [findFrom?, h _ (List.suffix_refl _), ih fun t ht => h t (ht.trans (List.suffix_cons c rest))]
    rfl

/-- Without a sign that begins a comment there is no comment. -/
theorem afterLeader?_eq_none (h : ∀ c, s.head? = some c → c ≠ '#' ∧ c ≠ '@' ∧ c ≠ '/') :
    afterLeader? s = none := by
  unfold afterLeader?
  split
  · exact absurd rfl (h '#' rfl).1
  · exact absurd rfl (h '@' rfl).2.1
  · exact absurd rfl (h '/' rfl).2.2
  · rfl

theorem after?_cons_eq_none (first : Char) {beginning : String}
    (h : beginning.toList.head? = some first) (hc : c ≠ first) :
    Text.after? beginning (c :: s) = none := by
  obtain ⟨rest, hrest⟩ := List.head?_eq_some_iff.1 h
  rw [Text.after?, hrest, List.isPrefixOf, beq_eq_false_iff_ne.2 hc.symm]
  rfl

/-- No character of a mnemonic is one of those that begin comments or end lines. -/
theorem ne_of_mem_mnemonic (hw : IsMnemonic word) (hc : c ∈ word) :
    c ≠ '#' ∧ c ≠ '@' ∧ c ≠ '/' ∧ c ≠ '\n' ∧ c ≠ '\r' := by
  rcases hw.parts c hc with h | rfl
  · have hne {d : Char} (hd : Text.isWordChar d = false) : c ≠ d := by
      rintro rfl
      rw [h] at hd
      cases hd
    exact ⟨hne (by decide +kernel), hne (by decide +kernel), hne (by decide +kernel),
      hne (by decide +kernel), hne (by decide +kernel)⟩
  · decide

/-- Alone on a line, after a tab, a mnemonic begins no comment. -/
theorem afterLeader?_tabbed (hw : IsMnemonic word) {t : List Char} (ht : t <:+ '\t' :: word) :
    afterLeader? t = none := by
  refine afterLeader?_eq_none fun c hc => ?_
  rcases List.mem_cons.1 (ht.subset (List.mem_of_mem_head? hc)) with rfl | hmem
  · decide
  · obtain ⟨h₁, h₂, h₃, -⟩ := ne_of_mem_mnemonic hw hmem
    exact ⟨h₁, h₂, h₃⟩

theorem trimStart_mnemonic (hw : IsMnemonic word) : Text.trimStart word = word := by
  obtain ⟨c, more, rfl, hc⟩ := hw.first
  have hascii : ∀ n < 128, (Char.ofNat n).isAlpha = true → Text.isBlank (Char.ofNat n) = false := by
    decide +kernel
  refine Text.trimStart_eq_self_iff.2 fun d hd => ?_
  obtain rfl := Option.some.inj hd
  rcases hc with hc | rfl
  · exact Text.forall_ascii (P := fun c => c.isAlpha = true → Text.isBlank c = false) hascii
      (toNat_lt_of_isAlpha hc) hc
  · decide +kernel

theorem afterBlanks?_tabbed (hw : IsMnemonic word) : afterBlanks? ('\t' :: word) = some word := by
  have htab : Text.isBlank '\t' = true := by decide +kernel
  rw [afterBlanks?, if_pos htab, trimStart_mnemonic hw]

/-- A directive begins with a full stop, which no mnemonic does. -/
theorem after?_mnemonic (hw : IsMnemonic word) {directive : String}
    (hd : directive.toList.head? = some '.') : Text.after? directive word = none := by
  obtain ⟨c, more, rfl, hc⟩ := hw.first
  refine after?_cons_eq_none '.' hd ?_
  rintro rfl
  rcases hc with hc | hc
  · cases hc
  · cases hc

theorem instruction?_tabbed (hw : IsMnemonic word) :
    instruction? ('\t' :: word) = some (String.ofList word) := by
  rw [instruction?, afterBlanks?_tabbed hw]
  obtain ⟨c, more, rfl, hc⟩ := hw.first
  have hmore : more.takeWhile (fun c => Text.isWordChar c || c = '.') = more := by
    rw [List.takeWhile_eq_self_iff]
    intro d hd
    simpa using hw.parts d (List.mem_cons_of_mem _ hd)
  have hc : (c.isAlpha || c = '_') = true := by simpa using hc
  simp only [Option.bind_eq_bind, Option.bind_some, hc, if_true, hmore, List.drop_length]

theorem read_tabbed (hw : IsMnemonic word) :
    read ('\t' :: word) = .instruction (String.ofList word) := by
  have hcpu : cpu? ('\t' :: word) = none := by
    have hd : Text.after? ".cpu" word = none := after?_mnemonic hw (by decide)
    simp [cpu?, afterBlanks?_tabbed hw, hd]
  have hopening : opening? ('\t' :: word) = none :=
    findFrom?_eq_none fun t ht => by simp [opening?.here?, afterLeader?_tabbed hw ht]
  have hclosing : isClosing ('\t' :: word) = false := by
    rw [isClosing, findFrom?_eq_none fun t ht => by simp [afterLeader?_tabbed hw ht]]
    rfl
  have hloc : loc? ('\t' :: word) = none := by
    have hd : Text.after? ".loc" word = none := after?_mnemonic hw (by decide)
    simp [loc?, afterBlanks?_tabbed hw, hd]
  have hlabel : label? ('\t' :: word) = none := by
    have htrim : Text.trimStart ('\t' :: word) = word := by
      rw [Text.trimStart, List.dropWhile_cons_of_pos (by decide +kernel)]
      exact trimStart_mnemonic hw
    have hjump : Text.after? ".LBB" ('\t' :: word) = none :=
      after?_cons_eq_none '.' (by decide) (by decide)
    simp [label?, label?.inComment?, label?.jumpedTo?, htrim, hjump,
      afterLeader?_tabbed hw (List.suffix_cons '\t' word)]
  simp [read, hcpu, hopening, hclosing, hloc, hlabel, instruction?_tabbed hw]

theorem plain_tabbed (hw : IsMnemonic word) : Text.Plain ('\t' :: word) := by
  have hword : ∀ c ∈ word, c ≠ '\n' ∧ c ≠ '\r' := fun c hc =>
    (ne_of_mem_mnemonic hw hc).2.2.2
  constructor
  · intro hn
    exact (hword '\n' ((List.mem_cons.1 hn).resolve_left (by decide))).1 rfl
  · intro hr
    have hmem := List.mem_of_getLast? hr
    exact (hword '\r' ((List.mem_cons.1 hmem).resolve_left (by decide))).2 rfl

end Line

/-- Exactly the mnemonics of this form stand in listings. -/
theorem listable_iff {mnemonic : String} :
    Listable mnemonic ↔ ∃ text, .instruction mnemonic ∈ readLines text := by
  constructor
  · intro h
    refine ⟨String.ofList (['\t' :: mnemonic.toList].flatMap fun l => l ++ ['\n']), ?_⟩
    rw [readLines, String.toList_ofList, Text.lines_flatMap (by simpa using Line.plain_tabbed h)]
    simp [Line.read_tabbed h]
  · intro h
    obtain ⟨text, htext⟩ := h
    obtain ⟨l, -, hl⟩ := List.mem_map.1 htext
    exact Line.listable_of_read hl

end LineCost.Listing
