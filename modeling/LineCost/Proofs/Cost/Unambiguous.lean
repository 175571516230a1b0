import LineCost.Proofs.Cost.CaseBlind
import LineCost.Proofs.Cost.Filing
import LineCost.Proofs.Pattern.Beginnings
import Mathlib.Data.List.Perm.Basic

/-!
Tables in which it makes no difference in what order the rules stand. They are those in which no
mnemonic is matched by two rules that are tried for it and cost differently (`reorderable_iff`).
That can be checked by following the patterns of all rules at once, letter by letter, for as long as
those that are left do not cost the same (`undisputed`). The built-in tables are of that kind.
-/

namespace LineCost

/-- A pattern that is being followed, and what costs the mnemonic that it matches. -/
structure Contender where
  pattern : Pattern
  cost : Cost

namespace Pattern.CharSet

/-- The fold of the letter, for a set that is one. -/
def letter? : CharSet → Option Nat
  | .letter c => some (Text.fold c)
  | _ => Option.none

theorem letter?_eq_some {a : CharSet} {c : Char} (h : a.letter?.isSome = true)
    (hc : a.contains c = true) : a.letter? = some (Text.fold c) := by
  cases a with
  | letter d =>
    rw [contains, beq_iff_eq] at hc
    rw [letter?, hc]
  | _ => cases h

end Pattern.CharSet

namespace Contender

def agree : List Contender → Bool
  | [] => true
  | a :: rest => rest.all (·.cost == a.cost)

/-- The contender may end here, where nothing stands before if `atStart`. -/
def mayEnd (atStart : Bool) (a : Contender) : Bool := a.pattern.skips.allow atStart true

/-- What each way to go on leaves of a contender, with the letter that it begins with. -/
def moves (atStart : Bool) (l : List Contender) : List (Option Nat × Contender) :=
  l.flatMap fun a => (a.pattern.beginnings atStart).map fun b => (b.set.letter?, ⟨b.rest, a.cost⟩)

/-- No text is matched by two contenders that cost differently. That is found out by looking at so
many letters of the text; other sets than letters are not followed. -/
def undisputed : (ahead : Nat) → (atStart : Bool) → List Contender → Bool
  | 0, _, l => agree l
  | n + 1, s, l =>
    agree l || agree (l.filter (·.mayEnd s)) &&
      ((moves s l).map (·.1)).eraseDups.all fun letter => letter.isSome &&
        undisputed n false (((moves s l).filter (·.1 == letter)).map (·.2))

variable {l : List Contender} {a b : Contender} {s : Bool} {c : Char} {v : List Char}

theorem cost_eq_of_agree (h : agree l = true) (ha : a ∈ l) (hb : b ∈ l) : a.cost = b.cost := by
  cases l with
  | nil => cases ha
  | cons first rest =>
    rw [agree, List.all_eq_true] at h
    have hfirst : ∀ d ∈ first :: rest, d.cost = first.cost := by
      intro d hd
      rcases List.mem_cons.1 hd with rfl | hd
      · rfl
      · exact beq_iff_eq.1 (h d hd)
    rw [hfirst a ha, hfirst b hb]

theorem mayEnd_of_spans (h : a.pattern.Spans s [] true) : a.mayEnd s = true :=
  Pattern.allow_skips_iff.2 h

/-- A contender that spans a text goes on with the first letter of the text, if it goes on with
letters only. -/
theorem exists_move (h : a.pattern.Spans s (c :: v) true) (ha : a ∈ l)
    (hletters : ∀ m ∈ moves s l, m.1.isSome = true) :
    ∃ b, (some (Text.fold c), b) ∈ moves s l ∧ b.cost = a.cost ∧
      b.pattern.Spans false v true := by
  obtain ⟨b, hb, hset, hrest⟩ := Pattern.spans_cons_iff.1 h
  have hmove : (b.set.letter?, ⟨b.rest, a.cost⟩) ∈ moves s l :=
    List.mem_flatMap.2 ⟨a, ha, List.mem_map.2 ⟨b, hb, rfl⟩⟩
  have hletter := Pattern.CharSet.letter?_eq_some (hletters _ hmove) hset
  exact ⟨⟨b.rest, a.cost⟩, hletter ▸ hmove, rfl, hrest⟩

/-- The check is right: contenders that span the same text cost the same. -/
theorem cost_eq_of_undisputed {ahead : Nat} (h : undisputed ahead s l = true) (ha : a ∈ l)
    (hb : b ∈ l) (hva : a.pattern.Spans s v true) (hvb : b.pattern.Spans s v true) :
    a.cost = b.cost := by
  induction ahead generalizing s l a b v with
  | zero => exact cost_eq_of_agree h ha hb
  | succ n ih =>
    rw [undisputed, Bool.or_eq_true, Bool.and_eq_true, List.all_eq_true] at h
    rcases h with hagree | ⟨hends, hmoves⟩
    · exact cost_eq_of_agree hagree ha hb
    · cases v with
      | nil =>
        exact cost_eq_of_agree hends (List.mem_filter.2 ⟨ha, mayEnd_of_spans hva⟩)
          (List.mem_filter.2 ⟨hb, mayEnd_of_spans hvb⟩)
      | cons c v =>
        have hletter {m : Option Nat × Contender} (hm : m ∈ moves s l) :
            m.1.isSome = true ∧
              undisputed n false (((moves s l).filter (·.1 == m.1)).map (·.2)) = true :=
          Bool.and_eq_true_iff.1 (hmoves m.1 (List.mem_eraseDups.2 (List.mem_map_of_mem hm)))
        obtain ⟨a', ha', hacost, haspans⟩ := exists_move hva ha fun m hm => (hletter hm).1
        obtain ⟨b', hb', hbcost, hbspans⟩ := exists_move hvb hb fun m hm => (hletter hm).1
        have hmem {d : Contender} (hd : (some (Text.fold c), d) ∈ moves s l) :
            d ∈ ((moves s l).filter (·.1 == some (Text.fold c))).map (·.2) :=
          List.mem_map.2 ⟨_, List.mem_filter.2 ⟨hd, beq_self_eq_true _⟩, rfl⟩
        rw [← hacost, ← hbcost]
        exact ih (hletter ha').2 (hmem ha') (hmem hb') haspans hbspans

end Contender

/-- The patterns of the rules, as they are declared, with their costs. -/
def contenders (rules : List Rule) : List Contender :=
  rules.flatMap fun r => (Pattern.parse? r.pattern.toList).toList.map (⟨·, r.cost⟩)

namespace FirstCost

variable {P : Rule → Prop} {rules : List Rule} {cost : Cost}

/-- Where all rules with the property cost the same, the first of them costs what any of them does.
-/
theorem eq_cost {r : Rule} (h : FirstCost P rules cost) (hr : r ∈ rules) (hP : P r)
    (hagree : ∀ q ∈ rules, P q → q.cost = r.cost) : cost = r.cost := by
  induction h with
  | none => cases hr
  | here hq => exact hagree _ List.mem_cons_self hq
  | there hq _ ih =>
    refine ih (List.mem_of_ne_of_mem ?_ hr) fun q hq => hagree q (List.mem_cons_of_mem _ hq)
    rintro rfl
    exact hq hP

theorem eq_none (h : FirstCost P rules cost) (hnone : ∀ r ∈ rules, ¬ P r) : cost = .none := by
  induction h with
  | none => rfl
  | here hr => exact absurd hr (hnone _ List.mem_cons_self)
  | there _ _ ih => exact ih fun r hr => hnone r (List.mem_cons_of_mem _ hr)

end FirstCost

theorem Text.toNat_toUpper_lt_iff {c : Char} : c.toUpper.toNat < 128 ↔ c.toNat < 128 :=
  decide_eq_decide.1 (toUpper_invariant (fun c => decide (c.toNat < 128)) (by decide +kernel) c)

section Order

variable {name mnemonic : String} {rules : List Rule} {r : Rule} {t : Table}

namespace Rule

theorem compiles_of_compile {c : CompiledRule} (h : r.compile = .ok c) :
    compiles r.pattern.toList = true := by
  obtain ⟨key, p, hkey, hp, -⟩ := compile_eq_ok_iff.1 h
  rw [compiles, hkey, hp]
  rfl

theorem cost_of_compile {c : CompiledRule} (h : r.compile = .ok c) : c.cost = r.cost := by
  obtain ⟨key, p, -, -, rfl⟩ := compile_eq_ok_iff.1 h
  rfl

/-- The rule matches the mnemonic and is tried for it. -/
def Serves (mnemonic : String) (r : Rule) : Prop := r.Accepts mnemonic ∧ r.FiledUnder mnemonic

theorem toNat_key_lt {pattern : List Char} {key : Char} (h : key? pattern = some key) :
    key.toNat < 128 := by
  cases pattern with
  | nil => cases h
  | cons c rest =>
    rw [key?_eq h List.head?_cons, Text.toNat_toUpper_lt_iff]
    exact toNat_lt_of_key? h List.head?_cons

/-- Rules are filed under ASCII characters only. -/
theorem FiledUnder.beginsInAscii (h : r.FiledUnder mnemonic) : BeginsInAscii mnemonic := by
  obtain ⟨first, hfirst, hkey⟩ := h
  intro c hc
  obtain rfl := Option.some.inj (hfirst.symm.trans hc)
  exact Text.toNat_toUpper_lt_iff.1 (toNat_key_lt hkey)

end Rule

/-- No mnemonic is served by two of the rules that cost differently. -/
def Settled (rules : List Rule) : Prop :=
  ∀ mnemonic, ∀ r ∈ rules, ∀ q ∈ rules, r.Serves mnemonic → q.Serves mnemonic → r.cost = q.cost

theorem Settled.perm {order : List Rule} (h : Settled rules) (hperm : order.Perm rules) :
    Settled order := fun mnemonic r hr q hq =>
  h mnemonic r (hperm.mem_iff.1 hr) q (hperm.mem_iff.1 hq)

namespace Table

/-- Of settled rules, any that serves a mnemonic tells its cost. -/
theorem classify_eq_cost_of_serves (h : compile name rules = .ok t) (hsettled : Settled rules)
    (hr : r ∈ rules) (hserves : r.Serves mnemonic) : t.classify mnemonic = r.cost :=
  (firstCost_filed h mnemonic).eq_cost hr hserves fun q hq hqs =>
    hsettled mnemonic q hq r hr hqs hserves

theorem classify_eq_none_of_not_serves (h : compile name rules = .ok t)
    (hnone : ∀ r ∈ rules, ¬ r.Serves mnemonic) : t.classify mnemonic = .none :=
  (firstCost_filed h mnemonic).eq_none hnone

/-- A rule at the front decides on all that it serves. -/
theorem classify_eq_cost_of_front {rest : List Rule} (h : compile name (r :: rest) = .ok t)
    (hserves : r.Serves mnemonic) : t.classify mnemonic = r.cost := by
  have hfirst := firstCost_filed h mnemonic
  generalize t.classify mnemonic = cost at hfirst
  cases hfirst with
  | here => rfl
  | there hnot => exact absurd hserves hnot

theorem exists_compile_of_perm {order : List Rule} (h : compile name rules = .ok t)
    (hperm : order.Perm rules) : ∃ u, compile name order = .ok u := by
  refine ⟨_, compile_eq_ok fun r hr => ?_⟩
  obtain ⟨c, -, hc⟩ := exists_of_mem h (hperm.mem_iff.1 hr)
  exact Rule.compiles_of_compile hc

/-- The rules of a table can be put in any order without a change of what mnemonics cost, exactly
if no mnemonic is served by two of them that cost differently. -/
theorem reorderable_iff (h : compile name rules = .ok t) :
    (∀ order : List Rule, order.Perm rules →
      ∃ u, compile name order = .ok u ∧ ∀ mnemonic, u.classify mnemonic = t.classify mnemonic) ↔
    Settled rules := by
  constructor
  · intro hsame mnemonic r hr q hq hrs hqs
    -- with either of the two in front, the table gives its cost
    have hcost {r : Rule} (hr : r ∈ rules) (hserves : r.Serves mnemonic) :
        r.cost = t.classify mnemonic := by
      obtain ⟨u, hu, hclassify⟩ := hsame _ (List.perm_cons_erase hr).symm
      rw [← hclassify, classify_eq_cost_of_front hu hserves]
    rw [hcost hr hrs, hcost hq hqs]
  · intro hsettled order hperm
    obtain ⟨u, hu⟩ := exists_compile_of_perm h hperm
    refine ⟨u, hu, fun mnemonic => ?_⟩
    by_cases hserved : ∃ r ∈ rules, r.Serves mnemonic
    · obtain ⟨r, hr, hserves⟩ := hserved
      rw [classify_eq_cost_of_serves h hsettled hr hserves,
        classify_eq_cost_of_serves hu (hsettled.perm hperm) (hperm.mem_iff.2 hr) hserves]
    · have hnone : ∀ r ∈ rules, ¬ r.Serves mnemonic := fun r hr hserves =>
        hserved ⟨r, hr, hserves⟩
      rw [classify_eq_none_of_not_serves h hnone,
        classify_eq_none_of_not_serves hu fun r hr => hnone r (hperm.mem_iff.1 hr)]

end Table

/-- The rules of a table do not get in each other's way: rules that match the same mnemonic cost the
same. So a mnemonic that begins in ASCII costs what any rule that matches it says, all others cost
nothing, and the rules can be put in any order. -/
structure Unambiguous (t : Table) (rules : List Rule) : Prop where
  compiled : Table.compile t.name rules = .ok t
  agree : ∀ mnemonic, ∀ a ∈ t.rules, ∀ b ∈ t.rules,
    a.accepts mnemonic = true → b.accepts mnemonic = true → a.cost = b.cost
  unshadowed : ∀ mnemonic, BeginsInAscii mnemonic →
    ∀ a ∈ t.rules, a.accepts mnemonic = true → t.classify mnemonic = a.cost
  unmatched : ∀ mnemonic,
    ¬ BeginsInAscii mnemonic ∨ (∀ a ∈ t.rules, ¬ a.accepts mnemonic = true) →
    t.classify mnemonic = .none
  reordered : ∀ order : List Rule, order.Perm rules →
    ∃ u, Table.compile t.name order = .ok u ∧ ∀ mnemonic, u.classify mnemonic = t.classify mnemonic

/-- What a plain rule matches is spanned by its contender. -/
theorem exists_contender {c : CompiledRule} (hc : r.compile = .ok c)
    (hplain : Rule.isPlain r.pattern.toList = true) (hr : r ∈ rules) (h : r.Accepts mnemonic) :
    ∃ a ∈ contenders rules, a.cost = r.cost ∧ a.pattern.Spans true mnemonic.toList true := by
  obtain ⟨p, -, hp, -⟩ := Rule.isPlain_iff.1 hplain
  refine ⟨⟨p, r.cost⟩, List.mem_flatMap.2 ⟨r, hr, by simp [hp]⟩, rfl, ?_⟩
  exact (Rule.accepts_iff_spans hc hp).1 h

/-- Tables of plain rules are unambiguous if the patterns of the rules are not in dispute. -/
theorem unambiguous_of_undisputed {ahead : Nat} (h : Table.compile name rules = .ok t)
    (hplain : ∀ r ∈ rules, Rule.isPlain r.pattern.toList = true)
    (hcheck : Contender.undisputed ahead true (contenders rules) = true) :
    Unambiguous t rules := by
  have hcompiled : ∀ r ∈ rules, ∃ c, r.compile = .ok c := fun r hr =>
    (Table.exists_of_mem h hr).imp fun c hc => hc.2
  have hagree : ∀ mnemonic, ∀ r ∈ rules, ∀ q ∈ rules, r.Accepts mnemonic → q.Accepts mnemonic →
      r.cost = q.cost := by
    intro mnemonic r hr q hq hrm hqm
    obtain ⟨_, hcr⟩ := hcompiled r hr
    obtain ⟨_, hcq⟩ := hcompiled q hq
    obtain ⟨a, ha, hacost, haspans⟩ := exists_contender hcr (hplain r hr) hr hrm
    obtain ⟨b, hb, hbcost, hbspans⟩ := exists_contender hcq (hplain q hq) hq hqm
    rw [← hacost, ← hbcost]
    exact Contender.cost_eq_of_undisputed hcheck ha hb haspans hbspans
  have hsettled : Settled rules := fun mnemonic r hr q hq hrs hqs =>
    hagree mnemonic r hr q hq hrs.1 hqs.1
  have hdeclared : ∀ a ∈ t.rules, ∃ r ∈ rules, r.compile = .ok a ∧ a.cost = r.cost ∧
      ∀ mnemonic, a.accepts mnemonic = true ↔ r.Accepts mnemonic := by
    intro a ha
    obtain ⟨r, hr, hra⟩ := Table.exists_of_mem_rules h ha
    exact ⟨r, hr, hra, Rule.cost_of_compile hra, fun _ => CompiledRule.accepts_iff hra⟩
  obtain ⟨rfl, -⟩ := Table.compile_eq_ok_iff.1 h
  refine ⟨h, ?_, ?_, ?_, (Table.reorderable_iff h).2 hsettled⟩
  · intro mnemonic a ha b hb hma hmb
    obtain ⟨r, hr, -, hrcost, hrm⟩ := hdeclared a ha
    obtain ⟨q, hq, -, hqcost, hqm⟩ := hdeclared b hb
    rw [hrcost, hqcost]
    exact hagree mnemonic r hr q hq ((hrm _).1 hma) ((hqm _).1 hmb)
  · intro mnemonic hascii a ha hma
    obtain ⟨r, hr, hra, hrcost, hrm⟩ := hdeclared a ha
    obtain ⟨p, k, hp, hl, hk, -, -⟩ := Rule.isPlain_iff.1 (hplain r hr)
    have haccepts := (hrm _).1 hma
    have hfiled := Rule.filedUnder_of_leading? hra hp hl hk hascii haccepts
    rw [hrcost]
    exact Table.classify_eq_cost_of_serves h hsettled hr ⟨haccepts, hfiled⟩
  · intro mnemonic hnone
    refine Table.classify_eq_none_of_not_serves h fun r hr hserves => ?_
    rcases hnone with hascii | hnone
    · exact hascii hserves.2.beginsInAscii
    · obtain ⟨a, ha, hra⟩ := Table.exists_of_mem h hr
      exact hnone a ha ((CompiledRule.accepts_iff hra).2 hserves.1)

end Order

namespace CortexR52

theorem undisputed_rules : Contender.undisputed 5 true (contenders rules) = true := by
  simp only [contenders, rules, branches, loads, stores, integer, multiplication, floatingPoint,
    system, rule, List.flatMap_append, List.flatMap_cons, List.flatMap_nil, toList_conditional,
    toList_typed]
  decide +kernel

end CortexR52

namespace CortexA57

theorem undisputed_rules : Contender.undisputed 7 true (contenders rules) = true := by
  decide +kernel

end CortexA57

/-- The built-in tables are unambiguous. -/
theorem builtin_unambiguous :
    Catalog.builtin.tables = [CortexR52.table, CortexA57.table] ∧
      Unambiguous CortexR52.table CortexR52.rules ∧ Unambiguous CortexA57.table CortexA57.rules :=
  ⟨rfl,
    unambiguous_of_undisputed (Table.compile_eq_ok CortexR52.compiles_of_mem_rules)
      CortexR52.isPlain_of_mem_rules CortexR52.undisputed_rules,
    unambiguous_of_undisputed (Table.compile_eq_ok CortexA57.compiles_of_mem_rules)
      CortexA57.isPlain_of_mem_rules CortexA57.undisputed_rules⟩

end LineCost
