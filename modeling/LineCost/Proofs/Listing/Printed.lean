import LineCost.Proofs.Listing.Mnemonics
import LineCost.Proofs.Listing.Places

/-!
The lines that a compiler prints for source locations and for labels of blocks, with all that may
vary in them. They are read back as what they were printed for, unless a comment in them marks the
beginning or the end of a function.
-/

namespace LineCost.Listing

open Text

/-- A number in a directive, and the blanks in front of it. -/
structure Operand where
  gap : Gap
  digits : Digits

def Operand.text (o : Operand) : List Char := o.gap.chars ++ o.digits.chars

/-- A `.loc` directive with three numbers, whatever stands between these and a comment, and in the
comment a file, a line and perhaps a column. -/
structure LocText where
  indent : Gap
  first : Operand
  second : Operand
  third : Operand
  middle : List Char
  middle_line : '\n' ∉ middle
  /-- What sets the comment off. -/
  blank : Char
  isBlank_blank : isBlank blank = true
  quiet : Quiet (middle ++ [blank])
  leader : Leader
  file : List Char
  file_ne_nil : file ≠ []
  file_line : '\n' ∉ file
  line : Nat
  line_le : line ≤ lineLimit
  column : Option Digits
  rowless : column = none → Rowless file
  tail : Blanks

def LocText.place (p : LocText) : List Char :=
  p.file ++ ':' :: ((Digits.ofNat p.line).chars ++ (columnText p.column ++ p.tail.chars))

def LocText.text (p : LocText) : List Char :=
  p.indent.chars ++ (".loc".toList ++ (p.first.text ++ (p.second.text ++ (p.third.text ++
    (p.middle ++ p.blank :: (p.leader.sign ++ ' ' :: p.place))))))

/-- How the label of a block begins, up to the number of the block. -/
inductive LabelFront where
  | comment (indent : Blanks) (leader : Leader)
  | jumpedTo (group : Digits)

def LabelFront.text : LabelFront → List Char
  | .comment indent leader => indent.chars ++ (leader.sign ++ " %bb.".toList)
  | .jumpedTo group => ".LBB".toList ++ (group.chars ++ "_".toList)

/-- A comment that names a block. -/
structure NameText where
  leader : Leader
  name : List Char
  name_ne_nil : name ≠ []
  name_line : '\n' ∉ name
  name_end : ∀ c, name.getLast? = some c → isBlank c = false

def NameText.text (p : NameText) : List Char := p.leader.sign ++ (" %".toList ++ p.name)

/-- The label of a block, and perhaps the name of the block in a comment. -/
structure LabelText where
  front : LabelFront
  id : Nat
  id_le : id ≤ lineLimit
  gap : Blanks
  name : Option NameText
  tail : Blanks

def LabelText.text (p : LabelText) : List Char :=
  p.front.text ++ ((Digits.ofNat p.id).chars ++ ':' ::
    (p.gap.chars ++ (p.name.elim [] NameText.text ++ p.tail.chars)))

/-- What a compiler prints. -/
inductive Printed where
  | loc (p : LocText)
  | label (p : LabelText)

namespace Printed

def text : Printed → List Char
  | loc p => p.text
  | label p => p.text

/-- What it stands for. -/
def line : Printed → Line
  | loc p => .loc (String.ofList p.file) p.line
  | label p => .label p.id (p.name.map fun n => String.ofList n.name)

end Printed

namespace Line

variable {s : List Char} {n : Nat}

theorem number?_ofNat (h : n ≤ lineLimit) : number? (Digits.ofNat n).chars = some n := by
  rw [number?, Digits.ofNat, readDigits?_toDigits, if_pos h]

theorem afterBlanks?_cons {c : Char} (h : isBlank c = true) (s : List Char) :
    afterBlanks? (c :: s) = some (trimStart (c :: s)) := by
  rw [afterBlanks?, if_pos h, trimStart, trimStart, List.dropWhile_cons_of_pos h]

theorem eq_of_afterBlanks? {t : List Char} (h : afterBlanks? s = some t) : t = trimStart s := by
  cases s with
  | nil => cases h
  | cons c rest =>
    cases hc : isBlank c with
    | false => simp [afterBlanks?, hc] at h
    | true => exact (Option.some.inj ((afterBlanks?_cons hc rest).symm.trans h)).symm

theorem afterBlanks?_gap (g : Gap) (s : List Char) :
    afterBlanks? (g.chars ++ s) = some (trimStart s) := by
  obtain ⟨c, rest, hg⟩ := List.exists_cons_of_ne_nil g.ne_nil
  have hc : isBlank c = true := g.blank c (hg ▸ List.mem_cons_self)
  rw [← g.trimStart_append s, hg]
  exact afterBlanks?_cons hc _

theorem trimStart_loc (s : List Char) : trimStart (".loc".toList ++ s) = ".loc".toList ++ s :=
  trimStart_of_not_blank (c := '.') (by decide +kernel) _

theorem afterBlanks?_operand (o : Operand) (s : List Char) :
    afterBlanks? (o.text ++ s) = some (o.digits.chars ++ s) := by
  rw [Operand.text, List.append_assoc, afterBlanks?_gap, o.digits.trimStart_append]

theorem digits?_operand (d : Digits) (o : Operand) (s : List Char) :
    digits? (d.chars ++ (o.text ++ s)) = some (d.chars, o.text ++ s) := by
  apply digits?_append
  obtain ⟨c, rest, hg⟩ := List.exists_cons_of_ne_nil o.gap.ne_nil
  rw [Operand.text, hg]
  rintro c ⟨⟩
  exact isDigit_eq_false_of_isBlank (o.gap.blank _ (hg ▸ List.mem_cons_self))

/-- Digits that follow the last number are taken for its own. -/
theorem digits?_middle (d : Digits) (middle rest : List Char) {c : Char} (hc : isBlank c = true) :
    ∃ taken, digits? (d.chars ++ (middle ++ c :: rest)) =
      some (taken, middle.dropWhile isDigit ++ c :: rest) := by
  have hdrop : (middle ++ c :: rest).dropWhile isDigit = middle.dropWhile isDigit ++ c :: rest := by
    have hself : (c :: rest).dropWhile isDigit = c :: rest :=
      List.dropWhile_cons_of_neg (by simp [isDigit_eq_false_of_isBlank hc])
    rw [List.dropWhile_append]
    split
    · rename_i hnil
      rw [hself, List.isEmpty_iff.1 hnil, List.nil_append]
    · rfl
  have hne : ((d.chars ++ (middle ++ c :: rest)).takeWhile isDigit).isEmpty = false := by
    rw [List.takeWhile_append_of_pos d.digit]
    simp [d.ne_nil]
  exact ⟨_, by rw [digits?, hne, d.dropWhile_append, hdrop]; rfl⟩

theorem place?_text (p : LocText) :
    place? p.place = some (p.file, (Digits.ofNat p.line).chars) := by
  have hrowless := p.rowless
  rw [LocText.place]
  cases hc : p.column with
  | none => exact place?_of_rowless _ _ p.file_ne_nil p.file_line (hrowless hc)
  | some column => exact place?_of_column _ _ _ p.file_ne_nil p.file_line

theorem loc?_text (p : LocText) : loc? p.text = some (p.file, (Digits.ofNat p.line).chars) := by
  obtain ⟨taken, hthird⟩ := digits?_middle p.third.digits p.middle
    (p.leader.sign ++ ' ' :: p.place) p.isBlank_blank
  have hsuffix : p.middle.dropWhile isDigit <:+ p.middle := List.dropWhile_suffix _
  have hquiet : Quiet (p.middle.dropWhile isDigit ++ [p.blank]) := by
    obtain ⟨taken, hmiddle⟩ := hsuffix
    intro c l hc hi
    apply p.quiet c l hc
    rw [← hmiddle, List.append_assoc]
    exact hi.trans (List.suffix_append _ _).isInfix
  have hcomment := comment?_append p.leader p.isBlank_blank
    (fun hn => p.middle_line (hsuffix.subset hn)) hquiet (place?_text p)
  simp only [loc?, LocText.text, Option.bind_eq_bind, Option.bind_some, afterBlanks?_gap,
    trimStart_loc, after?_append, afterBlanks?_operand, digits?_operand, hthird, hcomment]

theorem cpu?_locText (p : LocText) : cpu? p.text = none := by
  have hother : ∀ s, after? ".cpu" (".loc".toList ++ s) = none := fun _ => rfl
  simp only [cpu?, LocText.text, Option.bind_eq_bind, Option.bind_some, afterBlanks?_gap,
    trimStart_loc, hother, Option.bind_none]

theorem labelName?_text (gap tail : Blanks) (name : Option NameText) :
    labelName? (gap.chars ++ (name.elim [] NameText.text ++ tail.chars)) =
      some (name.map fun n => String.ofList n.name) := by
  rw [labelName?, gap.trimStart_append]
  cases name with
  | none => rw [Option.elim_none, List.nil_append, tail.trimStart_eq_nil]; rfl
  | some n =>
    obtain ⟨c, rest, hname⟩ := List.exists_cons_of_ne_nil n.name_ne_nil
    have hrest : trimEnd (rest ++ tail.chars) = rest := by
      apply tail.trimEnd_append
      intro d hd
      apply n.name_end d
      rw [hname, List.getLast?_cons, hd, Option.getD_some]
    have hline : (c :: rest).contains '\n' = false := by
      simpa [hname] using n.name_line
    have htext : n.text ++ tail.chars =
        n.leader.sign ++ (" %".toList ++ (c :: (rest ++ tail.chars))) := by
      rw [NameText.text, hname]
      simp only [List.append_assoc, List.cons_append]
    have hsome : (n.leader.sign ++ (" %".toList ++ (c :: (rest ++ tail.chars)))).isEmpty = false := by
      cases n.leader <;> rfl
    simp only [Option.elim_some, htext, trimStart_sign, hsome, Bool.false_eq_true, if_false,
      afterLeader?_sign, Option.bind_eq_bind, Option.bind_some, after?_append, hrest, hline,
      Option.map_some, hname]

theorem labelEnd?_text (id : Nat) (s : List Char) :
    labelEnd? ((Digits.ofNat id).chars ++ ':' :: s) =
      (labelName? s).map fun name => ((Digits.ofNat id).chars, name) := by
  have hcolon : ∀ c, (':' :: s).head? = some c → isDigit c = false := by
    rintro c ⟨⟩
    decide +kernel
  have hafter : after? ":" (':' :: s) = some s := after?_append ":" s
  simp only [labelEnd?, digits?_append _ hcolon, Option.bind_eq_bind, Option.bind_some, hafter]
  cases labelName? s <;> rfl

theorem label?_text (p : LabelText) : label? p.text =
    some ((Digits.ofNat p.id).chars, p.name.map fun n => String.ofList n.name) := by
  have hend := labelEnd?_text p.id (p.gap.chars ++ (p.name.elim [] NameText.text ++ p.tail.chars))
  rw [labelName?_text, Option.map_some] at hend
  rw [LabelText.text, label?]
  cases p.front with
  | comment indent leader =>
    have hcomment : label?.inComment? ((LabelFront.comment indent leader).text ++
        ((Digits.ofNat p.id).chars ++ ':' ::
          (p.gap.chars ++ (p.name.elim [] NameText.text ++ p.tail.chars)))) =
        some ((Digits.ofNat p.id).chars, p.name.map fun n => String.ofList n.name) := by
      simp only [label?.inComment?, LabelFront.text, List.append_assoc, indent.trimStart_append,
        trimStart_sign, afterLeader?_sign, Option.bind_eq_bind, Option.bind_some, after?_append,
        hend]
    rw [hcomment]
    rfl
  | jumpedTo group =>
    have hunderscore : ∀ s : List Char, ∀ c, ("_".toList ++ s).head? = some c →
        isDigit c = false := by
      rintro s c ⟨⟩
      decide +kernel
    have hcomment : ∀ s, label?.inComment? (".LBB".toList ++ s) = none := by
      intro s
      have htrim : trimStart (".LBB".toList ++ s) = ".LBB".toList ++ s :=
        trimStart_of_not_blank (c := '.') (by decide +kernel) _
      rw [label?.inComment?, htrim]
      rfl
    simp only [LabelFront.text, List.append_assoc, hcomment, Option.orElse_none, label?.jumpedTo?,
      after?_append, digits?_append _ (hunderscore _), hend, Option.bind_eq_bind, Option.bind_some]

/-- A label is no directive. -/
theorem after?_labelText {p : LabelText} {rest : List Char} {directive : String}
    (hd : directive.toList.head? = some '.') (h : afterBlanks? p.text = some rest) :
    after? directive rest = none := by
  rw [LabelText.text] at h
  cases hf : p.front with
  | comment indent leader =>
    have hrest := eq_of_afterBlanks? h
    rw [hf, LabelFront.text, List.append_assoc, indent.trimStart_append, List.append_assoc,
      trimStart_sign] at hrest
    rw [hrest]
    cases leader <;> exact after?_cons_eq_none '.' hd (by decide)
  | jumpedTo group =>
    rw [hf, LabelFront.text] at h
    cases h

theorem cpu?_labelText (p : LabelText) : cpu? p.text = none := by
  simp only [cpu?, Option.bind_eq_bind, Option.bind_eq_none_iff]
  intro rest hrest t ht
  cases (after?_labelText (by decide) hrest).symm.trans ht

theorem loc?_labelText (p : LabelText) : loc? p.text = none := by
  simp only [loc?, Option.bind_eq_bind, Option.bind_eq_none_iff]
  intro rest hrest t ht
  cases (after?_labelText (by decide) hrest).symm.trans ht

/-- A line with a mark in it is read as that mark. -/
theorem read_of_marked (hcpu : cpu? s = none) (h : Marked s) :
    (∃ name, read s = .opening name) ∨ read s = .closing := by
  cases ho : opening? s with
  | some name => exact .inl ⟨name, by rw [read, hcpu, ho]⟩
  | none =>
    have hends : EndsFunction s := by
      refine h.resolve_left fun hb => ?_
      rw [← opening?_isSome_iff, ho] at hb
      cases hb
    have hc := isClosing_iff.2 hends
    exact .inr (by simp only [read, hcpu, ho, hc, if_true])

theorem opening?_of_not_marked (h : ¬ Marked s) : opening? s = none := by
  rw [← Option.not_isSome_iff_eq_none, opening?_isSome_iff]
  exact (not_or.1 h).1

theorem isClosing_of_not_marked (h : ¬ Marked s) : isClosing s = false := by
  rw [← Bool.not_eq_true, isClosing_iff]
  exact (not_or.1 h).2

/-- What a compiler prints is read back, whatever the file or the name is, where it is not marked as
the beginning or the end of a function. -/
theorem read_text_eq_iff (p : Printed) : read p.text = p.line ↔ ¬ Marked p.text := by
  have hcpu : cpu? p.text = none := by
    cases p with
    | loc p => exact cpu?_locText p
    | label p => exact cpu?_labelText p
  constructor
  · intro hread hmarked
    rcases read_of_marked hcpu hmarked with ⟨name, h⟩ | h
    · cases p <;> cases hread.symm.trans h
    · cases p <;> cases hread.symm.trans h
  · intro hmarked
    have ho := opening?_of_not_marked hmarked
    have hc := isClosing_of_not_marked hmarked
    cases p with
    | loc p =>
      simp only [Printed.text] at hcpu ho hc ⊢
      simp only [read, hcpu, ho, hc, loc?_text, number?_ofNat p.line_le]
      rfl
    | label p =>
      simp only [Printed.text] at hcpu ho hc ⊢
      simp only [read, hcpu, ho, hc, loc?_labelText, label?_text, number?_ofNat p.id_le]
      rfl

/-- A file with a blank, a row, a colon and a comment in its name. -/
def windingPlace : LocText where
  indent := .tab
  first := ⟨.tab, .ofNat 1⟩
  second := ⟨.space, .ofNat 10⟩
  third := ⟨.space, .ofNat 3⟩
  middle := [' ', ' ']
  middle_line := by decide
  blank := '\t'
  isBlank_blank := by decide +kernel
  quiet := quiet_of_blank (List.all_eq_true.1 (by decide +kernel))
  leader := .slashes
  file := "a b.c:7: # x.h:2".toList
  file_ne_nil := by decide
  file_line := by decide
  line := 10
  line_le := by decide
  column := some (.ofNat 3)
  rowless := by rintro ⟨⟩
  tail := Gap.space.toBlanks

example : read "\t.loc\t1 10 3  \t// a b.c:7: # x.h:2:10:3 ".toList = .loc "a b.c:7: # x.h:2" 10 := by
  decide +kernel

example : (Printed.loc windingPlace).text = "\t.loc\t1 10 3  \t// a b.c:7: # x.h:2:10:3 ".toList := by
  decide +kernel

/-- Without the column, a row at the end of the file is taken for the row. -/
example : read "\t.loc\t1 10 3 // x.h:2:10".toList = .loc "x.h" 2 := by decide +kernel

end Line

end LineCost.Listing
