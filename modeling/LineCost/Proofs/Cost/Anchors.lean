import LineCost.Proofs.Cost.Compiled
import LineCost.Proofs.Cost.Lookup
import LineCost.Proofs.Pattern.Embedding

/-!
The anchors around a pattern. They are pasted to its text, so that a rule matches whole mnemonics as
long as the text leaves the group open that it is pasted into. A text that closes this group is no
pattern by itself, and can match by a part of a mnemonic.
-/

namespace LineCost

variable {r : Rule} {c : CompiledRule}

theorem Pattern.depth_le_of_ofText? {text : List Char} {p : Pattern}
    (h : ofText? text = some p) : p.depth ≤ depthLimit := by
  rw [ofText?, Option.bind_eq_bind, Option.bind_eq_some_iff] at h
  obtain ⟨q, -, h⟩ := h
  rw [Option.ite_none_right_eq_some, Bool.and_eq_true, decide_eq_true_eq] at h
  obtain ⟨⟨hdepth, -⟩, hp⟩ := h
  exact Option.some.inj hp ▸ hdepth

/-- A pattern is nested more deeply between the anchors than alone. -/
theorem Pattern.depth_le_anchored (p : Pattern) :
    p.depth ≤ (Pattern.seq .textStart (.seq (.group none p) .textEnd)).depth := by
  simp only [depth, isSeq, if_true]
  omega

/-- A rule matches what its pattern spans as a whole, if that is one by itself. -/
theorem Rule.accepts_iff_spans {p : Pattern} {mnemonic : String} (h : r.compile = .ok c)
    (hp : Pattern.parse? r.pattern.toList = some p) :
    r.Accepts mnemonic ↔ p.Spans true mnemonic.toList true := by
  obtain ⟨key, q, -, hq, -⟩ := Rule.compile_eq_ok_iff.1 h
  have hanchored := (Pattern.parse?_of_ofText? hq).symm.trans (Pattern.parse?_anchored hp)
  rw [Rule.Accepts, hq, hanchored, ← Pattern.occursIn_anchored_iff]
  simp

/-- Either the pattern of a rule that compiles is one by itself, nested within the limit, and the
rule matches exactly the mnemonics that it spans as a whole; or its text closes the group around it,
and is no pattern by itself. -/
theorem Rule.spans_whole_or_closesAround (h : r.compile = .ok c) :
    (¬ Pattern.ClosesAround r.pattern.toList ∧
      ∃ p, Pattern.parse? r.pattern.toList = some p ∧ p.depth ≤ Pattern.depthLimit ∧
        ∀ mnemonic, c.accepts mnemonic = true ↔ p.Spans true mnemonic.toList true) ∨
    Pattern.ClosesAround r.pattern.toList ∧ Pattern.parse? r.pattern.toList = none := by
  obtain ⟨key, q, -, hq, -⟩ := Rule.compile_eq_ok_iff.1 h
  have hread := Pattern.parse?_of_ofText? hq
  by_cases hcloses : Pattern.ClosesAround r.pattern.toList
  · exact .inr ⟨hcloses, Pattern.parse?_of_closesAround hcloses⟩
  · obtain ⟨p, hp⟩ := (Pattern.parse?_of_anchored hread).resolve_right hcloses
    obtain rfl := Option.some.inj (hread.symm.trans (Pattern.parse?_anchored hp))
    exact .inl ⟨hcloses, p, hp,
      Nat.le_trans p.depth_le_anchored (Pattern.depth_le_of_ofText? hq),
      fun mnemonic => (CompiledRule.accepts_iff h).trans (Rule.accepts_iff_spans h hp)⟩

/-- A text that closes the group around it, and opens another one at its end. -/
theorem Rule.spans_whole_or_closesAround_alternatives :
    ∃ c, Rule.compile ⟨"A)|(?:B", ⟨.branch, 1⟩⟩ = .ok c ∧ c.accepts "AX" = true ∧
      Pattern.parse? "A)|(?:B".toList = none := by
  have haccepts : (Rule.compile ⟨"A)|(?:B", ⟨.branch, 1⟩⟩).toOption.map (·.accepts "AX") =
      some true := by
    decide +kernel
  obtain ⟨c, hc, haccepts⟩ := toOption_map_eq_some haccepts
  refine ⟨c, hc, haccepts, ?_⟩
  rcases Rule.spans_whole_or_closesAround hc with ⟨hopen, -⟩ | ⟨-, hnone⟩
  · exact absurd ⟨['A'], "|(?:B".toList, .one (.letter 'A'), by decide, by decide⟩ hopen
  · exact hnone

end LineCost
