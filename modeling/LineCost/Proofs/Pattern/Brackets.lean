import LineCost.Pattern.Bracket
import Mathlib.Data.List.Basic

/-!
Bracketed sets where more follows. However far the reader looks ahead inside of brackets, it does
not look beyond a bracket that closes them: so a set is read in the same way whatever stands after
it, and symbols that hold no such bracket cannot close a set that is open before them.
-/

namespace LineCost.Pattern

variable {l a b out : List Symbol} {x : Symbol}

/-- What has been read, with more symbols left. -/
def furnish {α : Type} (b : List Symbol) (e : α × List Symbol) : α × List Symbol := (e.1, e.2 ++ b)

/-- The closing bracket is among the symbols. -/
abbrev HasClosing (l : List Symbol) : Prop := Symbol.plain ']' ∈ l

theorem hasClosing_of_cons (hx : x ≠ .plain ']') (h : HasClosing (x :: l)) : HasClosing l :=
  (List.mem_cons.1 h).resolve_left fun he => hx he.symm

theorem exists_cons_of_hasClosing (h : HasClosing l) : ∃ x rest, l = x :: rest :=
  List.exists_cons_of_ne_nil (List.ne_nil_of_mem h)

theorem operator?_append (h : HasClosing l) :
    operator? (l ++ b) = (operator? l).map (furnish b) := by
  obtain ⟨x, rest, rfl⟩ := exists_cons_of_hasClosing h
  by_cases hx : x = .plain ']'
  · subst hx
    rfl
  · obtain ⟨y, rest, rfl⟩ := exists_cons_of_hasClosing (hasClosing_of_cons hx h)
    unfold operator?
    grind [furnish]

theorem hyphens_append (h : HasClosing l) :
    OpenSet.hyphens (l ++ b) = furnish b (OpenSet.hyphens l) := by
  induction l with
  | nil => cases h
  | cons x rest ih =>
    by_cases hx : x = .plain '-'
    · subst hx
      simp only [List.cons_append, OpenSet.hyphens, ih (hasClosing_of_cons (by decide) h), furnish]
    · rw [List.cons_append, OpenSet.hyphens, OpenSet.hyphens]
      · rfl
      · exact fun _ he => hx (List.cons.inj he).1
      · exact fun _ he => hx (List.cons.inj he).1

/-- How a set begins after the caret, if there is one. -/
def openAs (negated : Bool) : List Symbol → OpenSet × List Symbol
  | .plain ']' :: rest => (⟨negated, none, [.letter ']']⟩, rest)
  | symbols => (⟨negated, none, (OpenSet.hyphens symbols).1⟩, (OpenSet.hyphens symbols).2)

theorem start_caret : OpenSet.start (.plain '^' :: l) = openAs true l := rfl

theorem start_eq (hl : ∀ rest, l ≠ .plain '^' :: rest) : OpenSet.start l = openAs false l := by
  unfold OpenSet.start
  split
  rename_i he
  split at he
  · exact absurd rfl (hl _)
  · cases he
    rfl

theorem openAs_append {negated : Bool} (h : HasClosing l) :
    openAs negated (l ++ b) = furnish b (openAs negated l) := by
  obtain ⟨x, rest, rfl⟩ := exists_cons_of_hasClosing h
  by_cases hx : x = .plain ']'
  · subst hx
    rfl
  · have hhyphens := hyphens_append (b := b) h
    unfold openAs
    grind [furnish]

theorem start_append (h : HasClosing l) :
    OpenSet.start (l ++ b) = furnish b (OpenSet.start l) := by
  obtain ⟨x, rest, rfl⟩ := exists_cons_of_hasClosing h
  by_cases hx : x = .plain '^'
  · subst hx
    rw [List.cons_append, start_caret, start_caret]
    exact openAs_append (hasClosing_of_cons (by decide) h)
  · rw [start_eq (by simp [hx]), start_eq (by simp [hx])]
    exact openAs_append h

theorem item?_range {y : Symbol} (hy : y ≠ .plain ']') (hy' : y ≠ .plain '-') :
    item? (x :: .plain '-' :: y :: l) = x.char?.bind fun first => y.char?.bind fun last =>
      if first ≤ last then some (.range first last, l) else none := by
  rw [item?]
  · rfl
  · exact hy
  · exact hy'

theorem item?_append (hx : x ≠ .plain ']') (h : HasClosing (x :: l)) :
    item? (x :: l ++ b) = (item? (x :: l)).map (furnish b) := by
  have h : HasClosing l := hasClosing_of_cons hx h
  obtain ⟨y, rest, rfl⟩ := exists_cons_of_hasClosing h
  by_cases hy : y = .plain '-'
  · subst hy
    obtain ⟨z, rest, rfl⟩ := exists_cons_of_hasClosing (hasClosing_of_cons (by decide) h)
    by_cases hz : z = .plain ']' ∨ z = .plain '-'
    · cases hitem : x.item? <;> rcases hz with rfl | rfl <;> simp [item?, hitem, furnish]
    · obtain ⟨hz, hz'⟩ := not_or.1 hz
      simp only [List.cons_append, item?_range hz hz']
      cases x.char? <;> cases z.char? <;> simp [furnish, apply_ite]
  · cases hitem : x.item? <;> unfold item? <;> grind [furnish]

/-- How the name of a set of ASCII characters is written, up to the closing bracket. -/
def nameSymbols (s : AsciiSet) : List Symbol := (s.name.toList ++ [':']).map Symbol.plain

theorem not_hasClosing_nameSymbols (s : AsciiSet) : ¬ HasClosing (nameSymbols s) := by
  cases s <;> decide

/-- Nothing but a closing bracket ends a name, and none stands before. -/
theorem isPrefixOf_append (s : AsciiSet) (h : HasClosing l) :
    (nameSymbols s ++ [Symbol.plain ']']).isPrefixOf (l ++ b) =
      (nameSymbols s ++ [Symbol.plain ']']).isPrefixOf l := by
  rw [Bool.eq_iff_iff, List.isPrefixOf_iff_prefix, List.isPrefixOf_iff_prefix]
  refine ⟨fun hp => ?_, fun hp => hp.trans (List.prefix_append l b)⟩
  rcases List.prefix_or_prefix_of_prefix hp (List.prefix_append l b) with hp | hp
  · exact hp
  · rcases List.prefix_concat_iff.1 hp with rfl | hp
    · exact List.prefix_rfl
    · exact absurd (hp.subset h) (not_hasClosing_nameSymbols s)

/-- The named set whose name the symbols begin with. -/
def byName? (negated : Bool) (symbols : List Symbol) : Option (CharSet × List Symbol) :=
  AsciiSet.all.findSome? fun a =>
    let written := nameSymbols a ++ [Symbol.plain ']']
    if written.isPrefixOf symbols then some (.ascii a negated, symbols.drop written.length)
    else none

theorem byName?_append {negated : Bool} (h : HasClosing l) :
    byName? negated (l ++ b) = (byName? negated l).map (furnish b) := by
  rw [byName?, byName?, List.map_findSome?]
  refine congrArg (List.findSome? · _) (funext fun a => ?_)
  simp only [Function.comp_apply, isPrefixOf_append a h]
  split
  · rename_i hp
    have hlength := (List.isPrefixOf_iff_prefix.1 hp).length_le
    rw [List.drop_append_of_le_length hlength]
    rfl
  · rfl

theorem written_eq (a : AsciiSet) :
    (a.name.toList ++ [':', ']']).map Symbol.plain = nameSymbols a ++ [Symbol.plain ']'] := by
  simp [nameSymbols]

theorem named?_caret :
    named? (.plain '[' :: .plain ':' :: .plain '^' :: l) = byName? true l := by
  simp only [named?, byName?, written_eq]

theorem named?_colon (hx : x ≠ .plain '^') :
    named? (.plain '[' :: .plain ':' :: x :: l) = byName? false (x :: l) := by
  simp only [named?, byName?, written_eq]
  split
  · rename_i rest he
    exact absurd (List.cons.inj he).1 hx
  · rfl

theorem named?_eq_none (hl : ∀ rest, l ≠ .plain '[' :: .plain ':' :: rest) : named? l = none := by
  rw [named?]
  exact hl

theorem named?_append (h : HasClosing l) :
    named? (l ++ b) = (named? l).map (furnish b) := by
  by_cases hl : ∃ rest, l = .plain '[' :: .plain ':' :: rest
  · obtain ⟨rest, rfl⟩ := hl
    have h : HasClosing rest :=
      hasClosing_of_cons (by decide) (hasClosing_of_cons (by decide) h)
    obtain ⟨x, rest, rfl⟩ := exists_cons_of_hasClosing h
    by_cases hx : x = .plain '^'
    · subst hx
      simp only [List.cons_append, named?_caret]
      exact byName?_append (hasClosing_of_cons (by decide) h)
    · simp only [List.cons_append, named?_colon hx]
      exact byName?_append h
  · have hl := not_exists.1 hl
    rw [named?_eq_none hl, named?_eq_none]
    · rfl
    · intro rest he
      obtain ⟨x, l, rfl⟩ := exists_cons_of_hasClosing h
      rw [List.cons_append, List.cons.injEq] at he
      obtain ⟨rfl, he⟩ := he
      obtain ⟨y, l, rfl⟩ := exists_cons_of_hasClosing (hasClosing_of_cons (by decide) h)
      rw [List.cons_append, List.cons.injEq] at he
      obtain ⟨rfl, -⟩ := he
      exact hl l rfl

/-- One step inside of brackets. It tells what the outermost set is if that has been closed, or
which sets are open then, and what is left to read. -/
def stepInside? (s : OpenSet) (outer : List OpenSet) :
    List Symbol → Option ((CharSet ⊕ List OpenSet) × List Symbol)
  | [] => none
  | symbol :: rest =>
    match operator? (symbol :: rest), named? (symbol :: rest), symbol with
    | some (o, rest), _, _ => some (.inr (s.operate o :: outer), rest)
    | _, some (item, rest), _ => some (.inr (s.add item :: outer), rest)
    | _, _, .plain '[' => some (.inr ((OpenSet.start rest).1 :: s :: outer), (OpenSet.start rest).2)
    | _, _, .plain ']' =>
      match outer with
      | [] => some (.inl s.close, rest)
      | around :: outer => some (.inr (around.add s.close :: outer), rest)
    | _, _, _ => (item? (symbol :: rest)).map fun e => (.inr (s.add e.1 :: outer), e.2)

theorem stepInside?_append {s : OpenSet} {outer : List OpenSet} (h : HasClosing l) :
    stepInside? s outer (l ++ b) = (stepInside? s outer l).map (furnish b) := by
  obtain ⟨x, rest, rfl⟩ := exists_cons_of_hasClosing h
  have ho := operator?_append (b := b) h
  have hn := named?_append (b := b) h
  rw [List.cons_append] at ho hn ⊢
  cases ho' : operator? (x :: rest) with
  | some e => simp [stepInside?, ho, ho', furnish]
  | none =>
    cases hn' : named? (x :: rest) with
    | some e => simp [stepInside?, ho, ho', hn, hn', furnish]
    | none =>
      by_cases hopen : x = .plain '['
      · subst hopen
        have hstart := start_append (b := b) (hasClosing_of_cons (by decide) h)
        simp [stepInside?, ho, ho', hn, hn', hstart, furnish]
      · by_cases hclose : x = .plain ']'
        · subst hclose
          cases outer <;> simp [stepInside?, ho, ho', hn, hn', furnish]
        · have hi := item?_append (b := b) hclose h
          rw [List.cons_append] at hi
          simp [stepInside?, ho, ho', hn, hn', hi, furnish, Function.comp_def]

theorem stepInside?_cut {s : OpenSet} {outer : List OpenSet} {r : CharSet ⊕ List OpenSet}
    {rest : List Symbol} (h : HasClosing l) (hs : stepInside? s outer (l ++ b) = some (r, rest)) :
    ∃ rest', stepInside? s outer l = some (r, rest') ∧ rest = rest' ++ b := by
  rw [stepInside?_append h] at hs
  obtain ⟨⟨r', rest'⟩, hs', he⟩ := Option.map_eq_some_iff.1 hs
  cases he
  exact ⟨rest', hs', rfl⟩

/-- What the reader does after a step inside of brackets. -/
theorem resolveWithin_succ (n : Nat) (s : OpenSet) (outer : List OpenSet) (l : List Symbol) :
    resolveWithin (n + 1) (s :: outer) l = (stepInside? s outer l).bind fun e =>
      match e.1 with
      | .inl t => (resolveWithin n [] e.2).map (.set t :: ·)
      | .inr sets => resolveWithin n sets e.2 := by
  cases l with
  | nil => rfl
  | cons symbol rest =>
    cases ho : operator? (symbol :: rest) with
    | some e => simp [resolveWithin, stepInside?, ho]
    | none =>
      cases hn : named? (symbol :: rest) with
      | some e => simp [resolveWithin, stepInside?, ho, hn]
      | none =>
        by_cases hopen : symbol = .plain '['
        · subst hopen
          simp [resolveWithin, stepInside?, ho, hn]
        · by_cases hclose : symbol = .plain ']'
          · subst hclose
            cases outer with
            | nil =>
              cases h : resolveWithin n [] rest <;> simp [resolveWithin, stepInside?, ho, hn, h]
            | cons around outer => simp [resolveWithin, stepInside?, ho, hn]
          · cases h : item? (symbol :: rest) <;> simp [resolveWithin, stepInside?, ho, hn, h]

section Suffix

variable {e : CharSet × List Symbol}

theorem operator?_suffix {e : SetOperator × List Symbol} (h : operator? l = some e) :
    ∃ y read, l = y :: read ++ e.2 := by
  unfold operator? at h
  split at h
  case h_4 => cases h
  all_goals
    obtain rfl := Option.some.inj h
    exact ⟨_, [_], rfl⟩

theorem byName?_suffix {negated : Bool} (h : byName? negated l = some e) :
    ∃ read, l = read ++ e.2 := by
  obtain ⟨_, _, h⟩ := List.exists_of_findSome?_eq_some h
  rw [Option.ite_none_right_eq_some] at h
  obtain rfl := Option.some.inj h.2
  exact ⟨_, (List.take_append_drop _ l).symm⟩

theorem named?_suffix (h : named? l = some e) : ∃ y read, l = y :: read ++ e.2 := by
  by_cases hl : ∃ rest, l = .plain '[' :: .plain ':' :: rest
  · obtain ⟨rest, rfl⟩ := hl
    by_cases hc : ∃ rest', rest = .plain '^' :: rest'
    · obtain ⟨rest', rfl⟩ := hc
      obtain ⟨read, hread⟩ := byName?_suffix (named?_caret.symm.trans h)
      exact ⟨_, .plain ':' :: .plain '^' :: read, by rw [hread]; rfl⟩
    · have hbyName : named? (.plain '[' :: .plain ':' :: rest) = byName? false rest := by
        cases rest with
        | nil => rfl
        | cons x rest => exact named?_colon fun hx => hc ⟨rest, by rw [hx]⟩
      obtain ⟨read, hread⟩ := byName?_suffix (hbyName.symm.trans h)
      exact ⟨_, .plain ':' :: read, by rw [hread]; rfl⟩
  · rw [named?_eq_none (not_exists.1 hl)] at h
    cases h

theorem item?_suffix (h : item? l = some e) : ∃ y read, l = y :: read ++ e.2 := by
  unfold item? at h
  split at h
  case h_3 first last rest _ _ =>
    obtain ⟨_, _, h⟩ := Option.bind_eq_some_iff.1 h
    obtain ⟨_, _, h⟩ := Option.bind_eq_some_iff.1 h
    rw [Option.ite_none_right_eq_some] at h
    obtain rfl := Option.some.inj h.2
    exact ⟨first, [.plain '-', last], rfl⟩
  case h_5 => cases h
  all_goals
    obtain ⟨_, _, rfl⟩ := Option.map_eq_some_iff.1 h
    exact ⟨_, [], rfl⟩

theorem hyphens_suffix (l : List Symbol) : ∃ read, l = read ++ (OpenSet.hyphens l).2 := by
  fun_induction OpenSet.hyphens l with
  | case1 rest items rest' he ih =>
    obtain ⟨read, hread⟩ := ih
    rw [he] at hread
    exact ⟨.plain '-' :: read, congrArg _ hread⟩
  | case2 l _ => exact ⟨[], rfl⟩

theorem openAs_suffix (negated : Bool) (l : List Symbol) :
    ∃ read, l = read ++ (openAs negated l).2 := by
  unfold openAs
  split
  · exact ⟨[_], rfl⟩
  · exact hyphens_suffix l

theorem start_suffix (l : List Symbol) : ∃ read, l = read ++ (OpenSet.start l).2 := by
  by_cases hl : ∃ rest, l = .plain '^' :: rest
  · obtain ⟨rest, rfl⟩ := hl
    obtain ⟨read, hread⟩ := openAs_suffix true rest
    rw [start_caret]
    exact ⟨.plain '^' :: read, congrArg _ hread⟩
  · rw [start_eq (not_exists.1 hl)]
    exact openAs_suffix false l

/-- A step reads a symbol at least. A set is still open then, unless it was a closing bracket. -/
theorem stepInside?_suffix {s : OpenSet} {outer : List OpenSet} {r : CharSet ⊕ List OpenSet}
    {rest : List Symbol} (h : stepInside? s outer l = some (r, rest)) :
    ∃ y read, l = y :: read ++ rest ∧ (y = .plain ']' ∨ ∃ s outer, r = .inr (s :: outer)) := by
  cases l with
  | nil => cases h
  | cons x l =>
    unfold stepInside? at h
    simp only at h
    split at h
    · rename_i ho
      obtain ⟨y, read, hread⟩ := operator?_suffix ho
      cases h
      exact ⟨y, read, hread, .inr ⟨_, _, rfl⟩⟩
    · rename_i hn _
      obtain ⟨y, read, hread⟩ := named?_suffix hn
      cases h
      exact ⟨y, read, hread, .inr ⟨_, _, rfl⟩⟩
    · obtain ⟨read, hread⟩ := start_suffix l
      cases h
      exact ⟨_, read, congrArg _ hread, .inr ⟨_, _, rfl⟩⟩
    · refine ⟨_, [], ?_, .inl rfl⟩
      split at h <;> cases h <;> rfl
    · obtain ⟨e, hi, he⟩ := Option.map_eq_some_iff.1 h
      obtain ⟨y, read, hread⟩ := item?_suffix hi
      cases he
      exact ⟨y, read, hread, .inr ⟨_, _, rfl⟩⟩

end Suffix

end LineCost.Pattern
