import LineCost.Cost.Builtin
import LineCost.Listing.Line
import LineCost.Pattern.Lemmas

/-!
The rules of a table are filed under first characters, and only those under the first character of a
mnemonic are tried. Here that is compared with a scan of all rules. A pattern that begins with the
letter that it is filed under can only match mnemonics that begin with this letter in either case,
as long as they begin with an ASCII character: `ſ` and the Kelvin sign are the same letters as `S`
and `K`.
-/

namespace LineCost

/-- No character beyond ASCII stands at the front. -/
def BeginsInAscii (mnemonic : String) : Prop :=
  ∀ c, mnemonic.toList.head? = some c → c.toNat < 128

/-- The pattern of a rule, as it is declared, spans the whole mnemonic in any case. -/
def Rule.Matches (r : Rule) (mnemonic : String) : Prop :=
  ∃ p, Pattern.parse? r.pattern.toList = some p ∧ p.Spans true mnemonic.toList true

/-- What a scan of all rules in the order of declaration finds: the cost of the first that matches,
and none exactly if none matches. -/
structure ScanFinds (rules : List Rule) (mnemonic : String) (cost : Cost) : Prop where
  first : ∀ before r after, rules = before ++ r :: after → r.Matches mnemonic →
    (∀ q ∈ before, ¬ q.Matches mnemonic) → cost = r.cost
  none : cost = .none ↔ ∀ r ∈ rules, ¬ r.Matches mnemonic

namespace Pattern

/-- The letter at the very front of a pattern. -/
def leading? : Pattern → Option Char
  | .one (.letter c) => some c
  | .seq p _ => p.leading?
  | _ => none

variable {p : Pattern} {s e : Bool} {t : List Char} {c : Char}

/-- All that the pattern spans begins with that letter, in some case. -/
theorem fold_head_of_spans (h : p.leading? = some c) (hs : p.Spans s t e) :
    ∃ d, t.head? = some d ∧ Text.fold d = Text.fold c := by
  induction hs with
  | @one a d s e hd =>
    cases a with
    | letter b =>
      rw [leading?, Option.some.injEq] at h
      rw [CharSet.contains, beq_iff_eq, h] at hd
      exact ⟨d, rfl, hd.symm⟩
    | _ => cases h
  | seq _ _ ihp _ =>
    obtain ⟨d, hd, hf⟩ := ihp h
    exact ⟨d, by rw [List.head?_append, hd, Option.some_or], hf⟩
  | _ => cases h

/-- A pattern between anchors occurs where it spans the whole text. -/
theorem occursIn_anchored_iff :
    (Pattern.seq .textStart (.seq (.group .none p) .textEnd)).OccursIn t ↔ p.Spans true t true := by
  simp only [OccursIn, spans_seq_iff, spans_textStart_iff, spans_textEnd_iff, spans_group_iff]
  constructor
  · intro h
    obtain ⟨u, v, w, rfl, _, _, rfl, ⟨rfl, hu⟩, x, _, rfl, hp, rfl, hw⟩ := h
    simp_all
  · intro h
    exact ⟨[], t, [], by simp, [], t, rfl, ⟨rfl, rfl⟩, t, [], by simp, by simpa using h, rfl, rfl⟩

/-- A pattern that is within the limits is the one that is read. -/
theorem parse?_of_ofText? {q : Pattern} (h : ofText? t = some q) : parse? t = some q := by
  rw [ofText?, Option.bind_eq_bind, Option.bind_eq_some_iff] at h
  obtain ⟨p, hp, h⟩ := h
  split at h
  · exact hp.trans h
  · cases h

end Pattern

namespace Text

/-- What can be said of each code of ASCII can be said of the characters. -/
theorem forall_ascii {P : Char → Prop} (h : ∀ n < 128, P (Char.ofNat n)) {c : Char}
    (hc : c.toNat < 128) : P c := by
  have hn := h c.toNat hc
  rwa [Char.ofNat_toNat] at hn

/-- Among ASCII characters, those of the same letter have the same upper case. -/
theorem toUpper_eq_of_fold_eq {c d : Char} (hc : c.toNat < 128) (hd : d.toNat < 128)
    (h : fold c = fold d) : c.toUpper = d.toUpper := by
  have hupper {c : Char} (hc : c.toNat < 128) : c.toUpper = (Char.ofNat (fold c)).toUpper :=
    forall_ascii (P := fun c => c.toUpper = (Char.ofNat (fold c)).toUpper) (by decide +kernel) hc
  rw [hupper hc, hupper hd, h]

end Text

namespace Rule

/-- Whether a pattern begins with an ASCII letter or digit as such, and stands as a whole between
the anchors. -/
def isPlain (pattern : List Char) : Bool :=
  (Pattern.parse? pattern).any fun p =>
    p.leading? == pattern.head? && pattern.head?.any (·.toNat < 128) &&
    Pattern.parse? (anchored pattern) == some (.seq .textStart (.seq (.group none p) .textEnd))

variable {r : Rule} {mnemonic : String}

theorem isPlain_iff {pattern : List Char} :
    isPlain pattern = true ↔ ∃ p c, Pattern.parse? pattern = some p ∧ p.leading? = some c ∧
      pattern.head? = some c ∧ c.toNat < 128 ∧
      Pattern.parse? (anchored pattern) =
        some (.seq .textStart (.seq (.group none p) .textEnd)) := by
  simp only [isPlain, Option.any_eq_true, Bool.and_eq_true, beq_iff_eq, decide_eq_true_eq]
  constructor
  · intro h
    obtain ⟨p, hp, ⟨hl, c, hc, hn⟩, ha⟩ := h
    exact ⟨p, c, hp, hl.trans hc, hc, hn, ha⟩
  · intro h
    obtain ⟨p, c, hp, hl, hc, hn, ha⟩ := h
    exact ⟨p, hp, ⟨hl.trans hc.symm, c, hc, hn⟩, ha⟩

theorem accepts_compiled_iff (h : compiles r.pattern.toList = true)
    (hr : isPlain r.pattern.toList = true) :
    (r.compiled h).accepts mnemonic = true ↔ r.Matches mnemonic := by
  obtain ⟨p, _, hp, _, _, _, hanchored⟩ := isPlain_iff.1 hr
  obtain ⟨q, hq⟩ := Option.isSome_iff_exists.1 (Bool.and_eq_true_iff.1 h).2
  obtain rfl := Option.some.inj ((Pattern.parse?_of_ofText? hq).symm.trans hanchored)
  have hmatcher : (r.compiled h).matcher = _ := congrArg Pattern.matcher (Option.get_of_eq_some _ hq)
  rw [CompiledRule.accepts, hmatcher, ← Pattern.occursIn, Pattern.occursIn_iff,
    Pattern.occursIn_anchored_iff, Matches]
  simp [hp]

theorem key?_eq {pattern : List Char} {k c : Char} (hk : key? pattern = some k)
    (hc : pattern.head? = some c) : k = c.toUpper := by
  cases pattern with
  | nil => cases hc
  | cons d rest =>
    rw [List.head?_cons, Option.some.injEq] at hc
    rw [key?] at hk
    split at hk
    · rw [← Option.some.inj hk, hc]
    · cases hk

/-- A rule that matches is filed under the first character of the mnemonic. -/
theorem key_compiled_of_matches (h : compiles r.pattern.toList = true)
    (hr : isPlain r.pattern.toList = true) (hm : r.Matches mnemonic)
    (hb : BeginsInAscii mnemonic) :
    ∃ first, mnemonic.toList.head? = some first ∧ (r.compiled h).key = first.toUpper := by
  obtain ⟨p, c, hp, hl, hc, hn, _⟩ := isPlain_iff.1 hr
  obtain ⟨p', hp', hspans⟩ := hm
  obtain rfl := Option.some.inj (hp'.symm.trans hp)
  obtain ⟨d, hd, hf⟩ := Pattern.fold_head_of_spans hl hspans
  refine ⟨d, hd, ?_⟩
  rw [Text.toUpper_eq_of_fold_eq (hb d hd) hn hf]
  exact key?_eq (Option.some_get _).symm hc

end Rule

namespace Table

variable {t : Table} {mnemonic : String}

/-- The first rule of the table that matches decides, if it is filed where it is looked for. -/
theorem classify_eq_cost {before after : List CompiledRule} {r : CompiledRule} {first : Char}
    (ht : t.rules = before ++ r :: after) (hf : mnemonic.toList.head? = some first)
    (hk : r.key = first.toUpper) (hr : r.accepts mnemonic = true)
    (hb : ∀ q ∈ before, ¬ q.accepts mnemonic = true) : t.classify mnemonic = r.cost := by
  obtain ⟨rest, hrest⟩ := List.head?_eq_some_iff.1 hf
  have hfront : (before.filter (·.key == first.toUpper)).find? (·.accepts mnemonic) = none := by
    rw [List.find?_eq_none]
    intro q hq
    exact hb q (List.mem_filter.1 hq).1
  have hfind : (t.candidates first).find? (·.accepts mnemonic) = some r := by
    rw [candidates, ht, List.filter_append, List.find?_append, hfront, Option.none_or,
      List.filter_cons_of_pos (by simp [hk])]
    exact List.find?_cons_of_pos hr
  rw [classify, hrest]
  simp only [hfind]

/-- A mnemonic that no rule matches has no cost. -/
theorem classify_eq_none (h : ∀ r ∈ t.rules, ¬ r.accepts mnemonic = true) :
    t.classify mnemonic = .none := by
  have hfind (first : Char) : (t.candidates first).find? (·.accepts mnemonic) = none := by
    rw [List.find?_eq_none]
    intro r hr
    exact h r (List.mem_filter.1 hr).1
  rw [classify]
  cases mnemonic.toList with
  | nil => rfl
  | cons first rest => simp only [hfind]

theorem classify_eq_none_or (t : Table) (mnemonic : String) :
    t.classify mnemonic = .none ∨ ∃ r ∈ t.rules, t.classify mnemonic = r.cost := by
  rw [classify]
  split
  · exact .inl rfl
  · split
    · rename_i r hr
      exact .inr ⟨r, (List.mem_filter.1 (List.mem_of_find?_eq_some hr)).1, rfl⟩
    · exact .inl rfl

/-- In a table of plain rules that all cost something, the lookup finds what a scan finds. -/
theorem scanFinds_classify {name : String} {rules : List Rule}
    (h : ∀ r ∈ rules, Rule.compiles r.pattern.toList = true)
    (hp : ∀ r ∈ rules, Rule.isPlain r.pattern.toList = true) (hc : ∀ r ∈ rules, r.cost ≠ .none)
    (hb : BeginsInAscii mnemonic) :
    ScanFinds rules mnemonic ((ofRules name rules h).classify mnemonic) := by
  have hfirst : ∀ before r after, rules = before ++ r :: after → r.Matches mnemonic →
      (∀ q ∈ before, ¬ q.Matches mnemonic) →
      (ofRules name rules h).classify mnemonic = r.cost := by
    intro before r after hrules hr hbefore
    subst hrules
    have hmem : r ∈ before ++ r :: after := List.mem_append_right _ List.mem_cons_self
    obtain ⟨first, hf, hk⟩ := Rule.key_compiled_of_matches (h r hmem) (hp r hmem) hr hb
    have haccepts := (Rule.accepts_compiled_iff (h r hmem) (hp r hmem)).2 hr
    refine classify_eq_cost (List.pmap_append h) hf hk haccepts ?_
    intro q hq
    obtain ⟨q, hm, rfl⟩ := List.mem_pmap.1 hq
    rw [Rule.accepts_compiled_iff _ (hp q (List.mem_append_left _ hm))]
    exact hbefore q hm
  refine ⟨hfirst, ?_, ?_⟩
  · intro hnone r hr hmatches
    classical
    have hsome : (rules.find? (·.Matches mnemonic)).isSome := by
      rw [List.find?_isSome]
      exact ⟨r, hr, by simpa using hmatches⟩
    obtain ⟨q, hq⟩ := Option.isSome_iff_exists.1 hsome
    obtain ⟨hq, before, after, hsplit, hbefore⟩ := List.find?_eq_some_iff_append.1 hq
    have hcost := hfirst before q after hsplit (by simpa using hq) (by simpa using hbefore)
    exact hc q (hsplit ▸ List.mem_append_right _ List.mem_cons_self) (hcost.symm.trans hnone)
  · intro hnone
    apply classify_eq_none
    intro q hq
    obtain ⟨r, hr, rfl⟩ := List.mem_pmap.1 hq
    rw [Rule.accepts_compiled_iff _ (hp r hr)]
    exact hnone r hr

end Table

namespace CortexR52

theorem isPlain_of_mem_rules : ∀ r ∈ rules, Rule.isPlain r.pattern.toList = true := by
  rw [← List.all_eq_true]
  simp only [rules, branches, loads, stores, integer, multiplication, floatingPoint, system, rule,
    List.all_append, List.all_cons, List.all_nil, toList_conditional, toList_typed]
  decide +kernel

theorem cost_of_mem_rules : ∀ r ∈ rules, r.cost.isCounted = true ∧ 0 < r.cost.cycles := by
  decide +kernel

end CortexR52

namespace CortexA57

theorem isPlain_of_mem_rules : ∀ r ∈ rules, Rule.isPlain r.pattern.toList = true := by
  rw [← List.all_eq_true]
  decide +kernel

theorem cost_of_mem_rules : ∀ r ∈ rules, r.cost.isCounted = true ∧ 0 < r.cost.cycles := by
  decide +kernel

end CortexA57

/-- No rule counts an instruction without cycles. -/
def Table.Priced (t : Table) : Prop := ∀ r ∈ t.rules, r.cost.isCounted = true → 0 < r.cost.cycles

theorem Table.Priced.cycles_classify_pos {t : Table} (ht : t.Priced) {mnemonic : String}
    (h : (t.classify mnemonic).isCounted = true) : 0 < (t.classify mnemonic).cycles := by
  rcases t.classify_eq_none_or mnemonic with hnone | ⟨r, hr, hcost⟩
  · rw [hnone] at h
    cases h
  · rw [hcost] at h ⊢
    exact ht r hr h

theorem builtin_priced : ∀ t ∈ Catalog.builtin.tables, t.Priced := by
  intro t ht r hr _
  have ht : t = CortexR52.table ∨ t = CortexA57.table := by
    simpa [Catalog.builtin] using ht
  rcases ht with rfl | rfl
  · obtain ⟨q, hq, rfl⟩ := List.mem_pmap.1 hr
    exact (CortexR52.cost_of_mem_rules q hq).2
  · obtain ⟨q, hq, rfl⟩ := List.mem_pmap.1 hr
    exact (CortexA57.cost_of_mem_rules q hq).2

/-- With the built-in tables, no instruction that is counted is free. -/
theorem cycles_classify_pos {t : Table} (ht : t ∈ Catalog.builtin.tables) {mnemonic : String}
    (h : (t.classify mnemonic).isCounted = true) : 0 < (t.classify mnemonic).cycles :=
  (builtin_priced t ht).cycles_classify_pos h

theorem Cost.ne_none_of_isCounted {c : Cost} (h : c.isCounted = true) : c ≠ .none := by
  intro hc
  subst hc
  cases h

namespace Listing.Line

theorem instruction?_of_read {s : List Char} {mnemonic : String}
    (h : read s = .instruction mnemonic) : instruction? s = some mnemonic := by
  rw [read] at h
  repeat' split at h
  all_goals cases h
  assumption

/-- A mnemonic begins with a letter or an underscore and goes on with word characters and full
stops. -/
theorem exists_of_instruction? {s : List Char} {mnemonic : String}
    (h : instruction? s = some mnemonic) :
    ∃ c more, mnemonic = String.ofList (c :: more) ∧ (c.isAlpha = true ∨ c = '_') ∧
      ∀ d ∈ more, Text.isWordChar d = true ∨ d = '.' := by
  rw [instruction?, Option.bind_eq_bind, Option.bind_eq_some_iff] at h
  obtain ⟨t, _, h⟩ := h
  cases t with
  | nil => cases h
  | cons c rest =>
    simp only at h
    have hmore : ∀ d ∈ rest.takeWhile (fun c => Text.isWordChar c || c = '.'),
        Text.isWordChar d = true ∨ d = '.' := by
      intro d hd
      simpa using List.all_eq_true.1 List.all_takeWhile d hd
    split at h
    · rename_i hc
      have hc : c.isAlpha = true ∨ c = '_' := by simpa using hc
      split at h
      · exact ⟨c, _, (Option.some.inj h).symm, hc, hmore⟩
      · split at h
        · exact ⟨c, _, (Option.some.inj h).symm, hc, hmore⟩
        · cases h
    · cases h

theorem toNat_lt_of_isAlpha {c : Char} (h : c.isAlpha = true) : c.toNat < 128 := by
  have hcase : c.isUpper = true ∨ c.isLower = true := Bool.or_eq_true_iff.1 h
  rcases hcase with hupper | hlower
  · have hz : c.toNat ≤ 90 := (of_decide_eq_true hupper).2
    omega
  · have hz : c.toNat ≤ 122 := of_decide_eq_true (Bool.and_eq_true_iff.1 hlower).2
    omega

theorem beginsInAscii_of_read {s : List Char} {mnemonic : String}
    (h : read s = .instruction mnemonic) : BeginsInAscii mnemonic := by
  obtain ⟨c, more, rfl, hc, -⟩ := exists_of_instruction? (instruction?_of_read h)
  intro d hd
  rw [String.toList_ofList, List.head?_cons, Option.some.injEq] at hd
  subst hd
  rcases hc with hc | rfl
  · exact toNat_lt_of_isAlpha hc
  · decide

end Listing.Line

/-- For mnemonics that begin in ASCII, as those of a listing do, the built-in tables give the cost
of the first of all their rules that matches. -/
theorem builtin_scanFinds_classify :
    (∀ mnemonic, BeginsInAscii mnemonic →
      ScanFinds CortexR52.rules mnemonic (CortexR52.table.classify mnemonic) ∧
      ScanFinds CortexA57.rules mnemonic (CortexA57.table.classify mnemonic)) ∧
    ∀ s mnemonic, Listing.Line.read s = .instruction mnemonic → BeginsInAscii mnemonic := by
  refine ⟨?_, fun s mnemonic h => Listing.Line.beginsInAscii_of_read h⟩
  intro mnemonic h
  constructor
  · exact Table.scanFinds_classify _ CortexR52.isPlain_of_mem_rules
      (fun r hr => Cost.ne_none_of_isCounted (CortexR52.cost_of_mem_rules r hr).1) h
  · exact Table.scanFinds_classify _ CortexA57.isPlain_of_mem_rules
      (fun r hr => Cost.ne_none_of_isCounted (CortexA57.cost_of_mem_rules r hr).1) h

/-- A mnemonic that ends in a long s, which is an `S` like any other. -/
theorem builtin_scanFinds_classify_folded :
    BeginsInAscii "addſ" ∧ ScanFinds CortexR52.rules "addſ" ⟨.arithmetic, 1⟩ ∧
      ScanFinds CortexA57.rules "addſ" ⟨.arithmetic, 1⟩ := by
  have hascii : BeginsInAscii "addſ" := by
    intro c hc
    obtain rfl := Option.some.inj hc
    decide
  obtain ⟨hr52, ha57⟩ := builtin_scanFinds_classify.1 "addſ" hascii
  have hcost : CortexR52.table.classify "addſ" = ⟨.arithmetic, 1⟩ ∧
      CortexA57.table.classify "addſ" = ⟨.arithmetic, 1⟩ := by
    decide +kernel
  exact ⟨hascii, hcost.1 ▸ hr52, hcost.2 ▸ ha57⟩

/-- One that begins with it is looked up under a character that no rule is filed under. -/
example : CortexA57.table.classify "ſub" = .none ∧ ∃ r ∈ CortexA57.rules, r.Matches "ſub" := by
  refine ⟨by decide +kernel, CortexA57.rule "SUBS?" .arithmetic 1, by decide +kernel, ?_⟩
  exact (Rule.accepts_compiled_iff (by decide +kernel) (by decide +kernel)).1 (by decide +kernel)

end LineCost
