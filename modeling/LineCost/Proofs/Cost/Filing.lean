import LineCost.Proofs.Cost.Anchors
import Mathlib.Data.List.Find

/-!
Rules that are filed where nothing looks for them. A table tries the rules that are filed under the
first character of a mnemonic, so that the first of all that match decides as long as each rule is
filed under the character that all it matches begins with. A pattern that begins with a letter as
such comes near to that; one with several branches need not.
-/

namespace LineCost

namespace Rule

/-- The rule is among those that are tried for the mnemonic. -/
def FiledUnder (r : Rule) (mnemonic : String) : Prop :=
  ∃ first, mnemonic.toList.head? = some first ∧ key? r.pattern.toList = some first.toUpper

/-- The rule is tried wherever it matches. -/
def WellFiled (r : Rule) : Prop := ∀ mnemonic, r.Accepts mnemonic → r.FiledUnder mnemonic

end Rule

/-- The rule is filed under the character and matches the mnemonic. -/
def CompiledRule.serves (first : Char) (mnemonic : String) (c : CompiledRule) : Bool :=
  c.key == first.toUpper && c.accepts mnemonic

/-- The cost of the first of the rules with a property, and none without one. -/
inductive FirstCost (P : Rule → Prop) : List Rule → Cost → Prop where
  | none : FirstCost P [] .none
  | here {r : Rule} {rest : List Rule} (h : P r) : FirstCost P (r :: rest) r.cost
  | there {r : Rule} {rest : List Rule} {cost : Cost} (h : ¬ P r) (hrest : FirstCost P rest cost) :
      FirstCost P (r :: rest) cost

theorem firstCost_singleton_iff {P : Rule → Prop} {r : Rule} {cost : Cost} :
    FirstCost P [r] cost ↔ P r ∧ cost = r.cost ∨ ¬ P r ∧ cost = .none := by
  constructor
  · intro h
    cases h with
    | here hr => exact .inl ⟨hr, rfl⟩
    | there hr hrest =>
      cases hrest
      exact .inr ⟨hr, rfl⟩
  · intro h
    rcases h with ⟨hr, rfl⟩ | ⟨hr, rfl⟩
    · exact .here hr
    · exact .there hr .none

theorem FirstCost.congr {P Q : Rule → Prop} {rules : List Rule} {cost : Cost}
    (h : FirstCost P rules cost) (hPQ : ∀ r ∈ rules, (P r ↔ Q r)) : FirstCost Q rules cost := by
  induction h with
  | none => exact .none
  | here hr => exact .here ((hPQ _ List.mem_cons_self).1 hr)
  | there hr _ ih =>
    exact .there (fun hq => hr ((hPQ _ List.mem_cons_self).2 hq))
      (ih fun r hm => hPQ r (List.mem_cons_of_mem _ hm))

namespace Text

theorem foldCode_eq_or (rows : List FoldRow) (n : Nat) :
    foldCode rows n = n ∨ ∃ r ∈ rows, r.covers n = true ∧ foldCode rows n = r.apply n := by
  induction rows with
  | nil => exact .inl rfl
  | cons r rest ih =>
    rw [foldCode]
    split
    · exact .inl rfl
    · split
      · rename_i hr
        exact .inr ⟨r, List.mem_cons_self, hr, rfl⟩
      · rcases ih with h | ⟨q, hq, h⟩
        · exact .inl h
        · exact .inr ⟨q, List.mem_cons_of_mem _ hq, h⟩

/-- Of the characters beyond ASCII, only the Kelvin sign and the long s fold into ASCII. -/
theorem fold_of_not_ascii {d : Char} (hd : 128 ≤ d.toNat) (h : fold d < 128) :
    fold d = 'k'.toNat ∨ fold d = 's'.toNat := by
  have hrows : ∀ r ∈ foldRows, 128 ≤ r.image ∨ r.last < 128 ∨
      r.first = r.last ∧ (r.image = 'k'.toNat ∨ r.image = 's'.toNat) := by
    decide +kernel
  rcases foldCode_eq_or foldRows d.toNat with hsame | ⟨r, hr, hcovers, hfold⟩
  · rw [fold, hsame] at h
    omega
  · rw [FoldRow.covers, Bool.and_eq_true, Bool.and_eq_true, decide_eq_true_eq,
      decide_eq_true_eq] at hcovers
    rw [fold, hfold, FoldRow.apply] at h ⊢
    have hlast := hrows r hr
    omega

/-- An ASCII letter but `K` and `S` has the same upper case as all that it is the same letter as. -/
theorem toUpper_eq_of_fold_eq_letter {c d : Char} (hc : c.toNat < 128) (hk : c.toUpper ≠ 'K')
    (hs : c.toUpper ≠ 'S') (h : fold d = fold c) : d.toUpper = c.toUpper := by
  have hletter : fold c < 128 ∧ (fold c = 'k'.toNat → c.toUpper = 'K') ∧
      (fold c = 's'.toNat → c.toUpper = 'S') :=
    forall_ascii (P := fun c => fold c < 128 ∧ (fold c = 'k'.toNat → c.toUpper = 'K') ∧
      (fold c = 's'.toNat → c.toUpper = 'S')) (by decide +kernel) hc
  by_cases hd : d.toNat < 128
  · exact toUpper_eq_of_fold_eq hd hc h
  · rcases fold_of_not_ascii (Nat.le_of_not_lt hd) (h ▸ hletter.1) with hfold | hfold
    · exact absurd (hletter.2.1 (h ▸ hfold)) hk
    · exact absurd (hletter.2.2 (h ▸ hfold)) hs

/-- The Kelvin sign is a `K`, and the long s is an `S`. -/
theorem fold_not_ascii {c : Char} (hc : c.toNat < 128) :
    (c.toUpper = 'K' → fold (Char.ofNat 0x212A) = fold c) ∧
      (c.toUpper = 'S' → fold (Char.ofNat 0x17F) = fold c) :=
  forall_ascii (P := fun c => (c.toUpper = 'K' → fold (Char.ofNat 0x212A) = fold c) ∧
    (c.toUpper = 'S' → fold (Char.ofNat 0x17F) = fold c)) (by decide +kernel) hc

end Text

/-- A character that is the same letter as the first may take its place. -/
theorem Pattern.Spans.rehead {p : Pattern} {s e : Bool} {k d d' : Char} {t : List Char}
    (h : p.Spans s (d :: t) e) (hl : p.leading? = some k) (hd : Text.fold d' = Text.fold k) :
    p.Spans s (d' :: t) e := by
  generalize hv : d :: t = v at h
  induction h generalizing d t with
  | @one a c s e _ =>
    obtain ⟨-, rfl⟩ := List.cons.inj hv
    cases a with
    | letter b =>
      obtain rfl := Option.some.inj hl
      exact .one (beq_iff_eq.2 hd.symm)
    | _ => cases hl
  | @seq p q s v w e hp hq ihp _ =>
    obtain ⟨first, hfirst, -⟩ := Pattern.fold_head_of_spans (p := p) hl hp
    obtain ⟨rest, rfl⟩ := List.head?_eq_some_iff.1 hfirst
    obtain ⟨rfl, rfl⟩ := List.cons.inj hv
    exact .seq (ihp hl rfl) hq
  | _ => cases hl

variable {name mnemonic : String} {rules : List Rule} {r : Rule} {t : Table}

namespace Rule

theorem serves_iff {c : CompiledRule} {first : Char} (h : r.compile = .ok c)
    (hm : mnemonic.toList.head? = some first) :
    c.serves first mnemonic = true ↔ r.Accepts mnemonic ∧ r.FiledUnder mnemonic := by
  rw [CompiledRule.serves, Bool.and_eq_true, beq_iff_eq, CompiledRule.accepts_iff h, and_comm]
  obtain ⟨key, p, hkey, -, rfl⟩ := compile_eq_ok_iff.1 h
  rw [FiledUnder, hkey, hm]
  simp

end Rule

namespace Table

/-- The lookup as one search through all rules. -/
theorem classify_eq_find? {first : Char} (hm : mnemonic.toList.head? = some first) :
    t.classify mnemonic =
      ((t.rules.find? (·.serves first mnemonic)).map (·.cost)).getD .none := by
  obtain ⟨more, hmore⟩ := List.head?_eq_some_iff.1 hm
  have hfind : (t.candidates first).find? (·.accepts mnemonic) =
      t.rules.find? (·.serves first mnemonic) := by
    rw [candidates, List.find?_filter]
    exact List.find?_congr fun c _ => by rw [Bool.decide_and, Bool.decide_eq_true,
      Bool.decide_eq_true, CompiledRule.serves]
  rw [classify, hmore]
  simp only [hfind]
  cases t.rules.find? (·.serves first mnemonic) <;> rfl

/-- The table gives the cost of the first rule that matches and is filed under the first character
of the mnemonic. -/
theorem firstCost_filed (h : compile name rules = .ok t) (mnemonic : String) :
    FirstCost (fun r => r.Accepts mnemonic ∧ r.FiledUnder mnemonic) rules
      (t.classify mnemonic) := by
  obtain ⟨-, hrules⟩ := compile_eq_ok_iff.1 h
  clear h
  cases hm : mnemonic.toList.head? with
  | none =>
    have hnil : mnemonic.toList = [] := List.head?_eq_none_iff.1 hm
    rw [classify, hnil]
    clear hrules
    induction rules with
    | nil => exact .none
    | cons r rest ih =>
      refine .there (fun hr => ?_) ih
      obtain ⟨-, first, hfirst, -⟩ := hr
      cases hfirst.symm.trans hm
  | some first =>
    rw [classify_eq_find? hm]
    generalize t.rules = compiled at hrules
    induction hrules with
    | nil => exact .none
    | @cons r c rest compiled hc _ ih =>
      have hserves := Rule.serves_iff hc hm
      by_cases hr : c.serves first mnemonic = true
      · rw [List.find?_cons_of_pos hr]
        obtain ⟨key, p, -, -, rfl⟩ := Rule.compile_eq_ok_iff.1 hc
        exact .here (hserves.1 hr)
      · rw [List.find?_cons_of_neg hr]
        exact .there (fun ht => hr (hserves.2 ht)) ih

end Table

namespace Rule

/-- Only an ASCII character can be what a pattern is filed under. -/
theorem toNat_lt_of_key? {pattern : List Char} {key c : Char} (h : key? pattern = some key)
    (hc : pattern.head? = some c) : c.toNat < 128 := by
  obtain ⟨rest, rfl⟩ := List.head?_eq_some_iff.1 hc
  rw [key?, Option.ite_none_right_eq_some] at h
  rcases Bool.or_eq_true_iff.1 h.1 with halpha | hdigit
  · exact Listing.Line.toNat_lt_of_isAlpha halpha
  · have hnine : c.toNat ≤ 57 := of_decide_eq_true (Bool.and_eq_true_iff.1 hdigit).2
    omega

variable {c : CompiledRule} {p : Pattern} {k : Char}

/-- What matches begins with the letter that the pattern begins with. -/
theorem exists_first_of_accepts (hc : r.compile = .ok c)
    (hp : Pattern.parse? r.pattern.toList = some p) (hl : p.leading? = some k)
    (hk : r.pattern.toList.head? = some k) (h : r.Accepts mnemonic) :
    ∃ d, mnemonic.toList.head? = some d ∧ Text.fold d = Text.fold k ∧
      (d.toUpper = k.toUpper ↔ r.FiledUnder mnemonic) := by
  obtain ⟨d, hd, hf⟩ := Pattern.fold_head_of_spans hl ((accepts_iff_spans hc hp).1 h)
  obtain ⟨key, -, hkey, -, -⟩ := compile_eq_ok_iff.1 hc
  obtain rfl := key?_eq hkey hk
  refine ⟨d, hd, hf, ?_⟩
  rw [FiledUnder, hd, hkey]
  simp [eq_comm]

/-- Such a rule is filed right for mnemonics that begin in ASCII. -/
theorem filedUnder_of_leading? (hc : r.compile = .ok c)
    (hp : Pattern.parse? r.pattern.toList = some p) (hl : p.leading? = some k)
    (hk : r.pattern.toList.head? = some k) (hb : BeginsInAscii mnemonic)
    (h : r.Accepts mnemonic) : r.FiledUnder mnemonic := by
  obtain ⟨key, -, hkey, -, -⟩ := compile_eq_ok_iff.1 hc
  obtain ⟨d, hd, hf, hfiled⟩ := exists_first_of_accepts hc hp hl hk h
  exact hfiled.1 (Text.toUpper_eq_of_fold_eq (hb d hd) (toNat_lt_of_key? hkey hk) hf)

/-- Where another character is the same letter and has another upper case, a rule that matches
anything matches a mnemonic that begins with this one. -/
theorem not_wellFiled_of_fold_eq {d : Char} (hc : r.compile = .ok c)
    (hp : Pattern.parse? r.pattern.toList = some p) (hl : p.leading? = some k)
    (hk : r.pattern.toList.head? = some k) (hd : Text.fold d = Text.fold k)
    (hupper : d.toUpper ≠ k.toUpper) (h : r.Accepts mnemonic) : ¬ r.WellFiled := by
  obtain ⟨first, hfirst, hf, -⟩ := exists_first_of_accepts hc hp hl hk h
  obtain ⟨rest, hrest⟩ := List.head?_eq_some_iff.1 hfirst
  have hspans := (accepts_iff_spans hc hp).1 h
  rw [hrest] at hspans
  have haccepts : r.Accepts (String.ofList (d :: rest)) := by
    rw [accepts_iff_spans hc hp, String.toList_ofList]
    exact hspans.rehead hl hd
  intro hwell
  obtain ⟨e, he, -, hfiled⟩ := exists_first_of_accepts hc hp hl hk haccepts
  rw [String.toList_ofList, List.head?_cons, Option.some.injEq] at he
  exact hupper (he ▸ hfiled.2 (hwell _ haccepts))

/-- A pattern that begins with its first character as such is filed right, unless the letter is `K`
or `S` and the pattern matches anything. -/
theorem wellFiled_iff_of_leading? (hc : r.compile = .ok c)
    (hp : Pattern.parse? r.pattern.toList = some p) (hl : p.leading? = some k)
    (hk : r.pattern.toList.head? = some k) :
    r.WellFiled ↔ (k.toUpper = 'K' ∨ k.toUpper = 'S' → ∀ mnemonic, ¬ r.Accepts mnemonic) := by
  obtain ⟨key, -, hkey, -, -⟩ := compile_eq_ok_iff.1 hc
  have hascii := toNat_lt_of_key? hkey hk
  constructor
  · intro hwell hletter mnemonic h
    rcases hletter with hkelvin | hlong
    · exact not_wellFiled_of_fold_eq hc hp hl hk ((Text.fold_not_ascii hascii).1 hkelvin)
        (by rw [hkelvin]; decide) h hwell
    · exact not_wellFiled_of_fold_eq hc hp hl hk ((Text.fold_not_ascii hascii).2 hlong)
        (by rw [hlong]; decide) h hwell
  · intro hnone mnemonic h
    obtain ⟨d, hd, hf, hfiled⟩ := exists_first_of_accepts hc hp hl hk h
    refine hfiled.1 (Text.toUpper_eq_of_fold_eq_letter hascii ?_ ?_ hf)
    · exact fun hkelvin => hnone (.inl hkelvin) mnemonic h
    · exact fun hlong => hnone (.inr hlong) mnemonic h

/-- Where a rule is filed, and what it matches, is up to its pattern. -/
theorem WellFiled.of_pattern_eq {q : Rule} (h : r.WellFiled) (hq : q.pattern = r.pattern) :
    q.WellFiled := by
  intro mnemonic hm
  rw [FiledUnder, hq]
  exact h mnemonic (by rwa [Accepts, ← hq])

end Rule

/-- Every table of the rules gives the cost of the first of all of them that matches. -/
def FindsFirst (rules : List Rule) : Prop :=
  ∀ name t, Table.compile name rules = .ok t → ∀ mnemonic,
    FirstCost (·.Accepts mnemonic) rules (t.classify mnemonic)

theorem findsFirst_of_wellFiled (h : ∀ r ∈ rules, r.WellFiled) : FindsFirst rules := by
  intro name t ht mnemonic
  refine (Table.firstCost_filed ht mnemonic).congr fun r hr => ?_
  exact ⟨And.left, fun hm => ⟨hm, h r hr mnemonic hm⟩⟩

/-- A rule that finds itself, in a table of its own, wherever it matches. -/
theorem wellFiled_of_findsFirst {c : CompiledRule} (hc : r.compile = .ok c)
    (h : FindsFirst [{ r with cost := ⟨.other, 1⟩ }]) : r.WellFiled := by
  intro mnemonic hm
  obtain ⟨key, p, hkey, hp, -⟩ := Rule.compile_eq_ok_iff.1 hc
  -- a cost of its own, so that a table that finds the rule can be told from one that does not
  have hcompile : Table.compile "" [{ r with cost := ⟨.other, 1⟩ }] = .ok ⟨"", [_]⟩ :=
    Table.compile_eq_ok_iff.2
      ⟨rfl, .cons (Rule.compile_eq_ok_iff.2 ⟨key, p, hkey, hp, rfl⟩) .nil⟩
  have hall := firstCost_singleton_iff.1 (h _ _ hcompile mnemonic)
  have hfiled := firstCost_singleton_iff.1 (Table.firstCost_filed hcompile mnemonic)
  rcases hfiled with ⟨⟨-, hfiled⟩, -⟩ | ⟨-, hnone⟩
  · exact hfiled
  · rcases hall with ⟨-, hcost⟩ | ⟨hnot, -⟩
    · cases hnone.symm.trans hcost
    · exact absurd hm hnot

/-- A table gives the cost of the first rule that matches and is filed under the first character of
the mnemonic. In all tables that can be made of the patterns this is the first that matches, exactly
if each rule is filed right; and one whose pattern begins with its first character as such is, up to
the letters `K` and `S`. -/
theorem Table.classify_filed (h : compile name rules = .ok t) :
    (∀ mnemonic, FirstCost (fun r => r.Accepts mnemonic ∧ r.FiledUnder mnemonic) rules
      (t.classify mnemonic)) ∧
    ((∀ r ∈ rules, r.WellFiled) ↔ ∀ selection : List Rule,
      (∀ q ∈ selection, ∃ r ∈ rules, q.pattern = r.pattern) → FindsFirst selection) ∧
    ∀ r ∈ rules, ∀ p k, Pattern.parse? r.pattern.toList = some p → p.leading? = some k →
      r.pattern.toList.head? = some k →
      (∀ mnemonic, BeginsInAscii mnemonic → r.Accepts mnemonic → r.FiledUnder mnemonic) ∧
      (r.WellFiled ↔ (k.toUpper = 'K' ∨ k.toUpper = 'S' → ∀ mnemonic, ¬ r.Accepts mnemonic)) := by
  have hcompiled : ∀ r ∈ rules, ∃ c, r.compile = .ok c := fun r hr =>
    (exists_of_mem h hr).imp fun c hc => hc.2
  refine ⟨firstCost_filed h, ⟨?_, ?_⟩, ?_⟩
  · intro hfiled selection hselection
    refine findsFirst_of_wellFiled fun q hq => ?_
    obtain ⟨r, hr, hpattern⟩ := hselection q hq
    exact (hfiled r hr).of_pattern_eq hpattern
  · intro hfinds r hr
    obtain ⟨c, hc⟩ := hcompiled r hr
    exact wellFiled_of_findsFirst hc (hfinds _ fun q hq => ⟨r, hr, by simp_all⟩)
  · intro r hr p k hp hl hk
    obtain ⟨c, hc⟩ := hcompiled r hr
    exact ⟨fun mnemonic => Rule.filedUnder_of_leading? hc hp hl hk,
      Rule.wellFiled_iff_of_leading? hc hp hl hk⟩

/-- A pattern of two branches, which is filed under the letter of the first. -/
theorem Table.classify_filed_alternatives :
    ∃ t, compile "cpu" [⟨"A|B", ⟨.branch, 1⟩⟩] = .ok t ∧ t.classify "B" = .none ∧
      Rule.Accepts ⟨"A|B", ⟨.branch, 1⟩⟩ "B" ∧
      FirstCost (fun r => r.Accepts "B" ∧ r.FiledUnder "B") [⟨"A|B", ⟨.branch, 1⟩⟩]
        (t.classify "B") := by
  have hcosts : (compile "cpu" [⟨"A|B", ⟨.branch, 1⟩⟩]).toOption.map
      (fun t => (t.classify "B", t.rules.all (·.accepts "B"))) = some (.none, true) := by
    decide +kernel
  obtain ⟨t, ht, hcosts⟩ := toOption_map_eq_some hcosts
  obtain ⟨hnone, haccepts⟩ := Prod.mk.inj hcosts
  obtain ⟨c, hmem, hc⟩ := exists_of_mem ht List.mem_cons_self
  exact ⟨t, ht, hnone, (CompiledRule.accepts_iff hc).1 (List.all_eq_true.1 haccepts c hmem),
    (classify_filed ht).1 "B"⟩

end LineCost
