import LineCost.Cost.Table
import LineCost.Pattern.Lemmas
import LineCost.Proofs.Results
import Mathlib.Data.List.Forall2

/-!
Rules that compile, told by what they are compiled from.
-/

namespace LineCost

variable {r : Rule} {c : CompiledRule} {mnemonic : String}

/-- The rule matches the mnemonic: its pattern, between the anchors, occurs there. -/
def Rule.Accepts (r : Rule) (mnemonic : String) : Prop :=
  ∃ p, Pattern.ofText? (Rule.anchored r.pattern.toList) = some p ∧ p.OccursIn mnemonic.toList

theorem Rule.compile_eq_ok_iff : r.compile = .ok c ↔
    ∃ key p, key? r.pattern.toList = some key ∧
      Pattern.ofText? (anchored r.pattern.toList) = some p ∧
      c = { r with key := key, matcher := p.matcher } := by
  cases hk : key? r.pattern.toList with
  | none => simp [compile, hk]
  | some key =>
    cases hp : Pattern.ofText? (anchored r.pattern.toList) with
    | none => simp [compile, hk, hp]
    | some p => simp [compile, hk, hp, eq_comm]

theorem CompiledRule.accepts_iff (h : r.compile = .ok c) :
    c.accepts mnemonic = true ↔ r.Accepts mnemonic := by
  obtain ⟨key, p, -, hp, rfl⟩ := Rule.compile_eq_ok_iff.1 h
  have hoccurs : p.matcher.occursIn mnemonic.toList = true ↔ p.OccursIn mnemonic.toList :=
    Pattern.occursIn_iff
  rw [accepts, hoccurs, Rule.Accepts]
  simp [hp]

namespace Table

variable {name : String} {rules : List Rule} {t : Table}

theorem mapM_compile_eq_ok_iff {compiled : List CompiledRule} :
    rules.mapM Rule.compile = .ok compiled ↔
      List.Forall₂ (fun r c => r.compile = .ok c) rules compiled := by
  induction rules generalizing compiled with
  | nil =>
    rw [List.mapM_nil, List.forall₂_nil_left_iff]
    exact ⟨fun h => (Except.ok.inj h).symm, fun h => h ▸ rfl⟩
  | cons r rest ih =>
    rw [List.mapM_cons, List.forall₂_cons_left_iff]
    constructor
    · intro h
      obtain ⟨c, hc, h⟩ := bind_eq_ok h
      obtain ⟨cs, hcs, h⟩ := bind_eq_ok h
      exact ⟨c, cs, hc, ih.1 hcs, (Except.ok.inj h).symm⟩
    · intro h
      obtain ⟨c, cs, hc, hcs, rfl⟩ := h
      rw [hc, ih.2 hcs]
      rfl

theorem compile_eq_ok_iff : compile name rules = .ok t ↔
    t.name = name ∧ List.Forall₂ (fun r c => r.compile = .ok c) rules t.rules := by
  rw [← mapM_compile_eq_ok_iff]
  constructor
  · intro h
    obtain ⟨compiled, hc, h⟩ := bind_eq_ok h
    obtain rfl := Except.ok.inj h
    exact ⟨rfl, hc⟩
  · intro h
    obtain ⟨rfl, hc⟩ := h
    rw [compile, hc]
    rfl

/-- Every rule of a table has been compiled from one that it was made of. -/
theorem exists_of_mem_rules (h : compile name rules = .ok t) (hc : c ∈ t.rules) :
    ∃ r ∈ rules, r.compile = .ok c := by
  obtain ⟨i, hi, rfl⟩ := List.mem_iff_getElem.1 hc
  obtain ⟨-, hrules⟩ := compile_eq_ok_iff.1 h
  have hlt : i < rules.length := hrules.length_eq ▸ hi
  exact ⟨rules[i], List.getElem_mem hlt, hrules.get hlt hi⟩

/-- Every rule that a table was made of is in it, compiled. -/
theorem exists_of_mem (h : compile name rules = .ok t) (hr : r ∈ rules) :
    ∃ c ∈ t.rules, r.compile = .ok c := by
  obtain ⟨i, hi, rfl⟩ := List.mem_iff_getElem.1 hr
  obtain ⟨-, hrules⟩ := compile_eq_ok_iff.1 h
  have hlt : i < t.rules.length := hrules.length_eq ▸ hi
  exact ⟨t.rules[i], List.getElem_mem hlt, hrules.get hi hlt⟩

end Table

end LineCost
