import LineCost.Proofs.Cost.Compiled
import LineCost.Proofs.Cost.Lookup
import Mathlib.Data.List.Find

/-!
The case of ASCII letters makes no difference. A set that a pattern names contains a letter in both
cases or in none, also where it is the complement of another set. So a pattern spans a piece in
whatever case it is written.
-/

namespace LineCost

namespace Text

/-- What keeps the upper case of ASCII characters keeps that of all, since no others have one. -/
theorem toUpper_invariant {α : Type} (f : Char → α)
    (h : ∀ n < 128, f (Char.ofNat n).toUpper = f (Char.ofNat n)) (c : Char) :
    f c.toUpper = f c := by
  by_cases hc : c.toNat < 128
  · exact forall_ascii (P := fun c => f c.toUpper = f c) h hc
  · have hsame : c.toUpper = c := by
      unfold Char.toUpper
      refine dif_neg fun hz => hc ?_
      have hz : c.toNat ≤ 122 := hz.2
      omega
    rw [hsame]

theorem fold_toUpper (c : Char) : fold c.toUpper = fold c :=
  toUpper_invariant fold (by decide +kernel) c

theorem variants_toUpper (c : Char) : variants c.toUpper = variants c := by
  rw [variants, variants, fold_toUpper]

end Text

namespace Pattern

theorem Kind.contains_toUpper (k : Kind) (c : Char) : k.contains c.toUpper = k.contains c := by
  cases k with
  | digit => exact Text.toUpper_invariant Text.isDigit (by decide +kernel) c
  | word => exact Text.toUpper_invariant Text.isWordChar (by decide +kernel) c
  | blank => exact Text.toUpper_invariant Text.isBlank (by decide +kernel) c

/-- A set contains a letter in both cases or in none. -/
theorem CharSet.contains_toUpper (s : CharSet) (c : Char) :
    s.contains c.toUpper = s.contains c := by
  induction s with
  | none => rfl
  | letter d => rw [contains, contains, Text.fold_toUpper]
  | range first last => rw [contains, contains, Text.variants_toUpper]
  | kind k negated => rw [contains, contains, k.contains_toUpper]
  | ascii a negated => rw [contains, contains, Text.variants_toUpper]
  | dot => exact Text.toUpper_invariant (· != '\n') (by decide +kernel) c
  | union s t hs ht => rw [contains, contains, hs, ht]
  | combined o s t hs ht => rw [contains, contains, hs, ht]
  | bracketed negated s hs => rw [contains, contains, hs]

theorem CharSet.contains_congr (s : CharSet) {c d : Char} (h : c.toUpper = d.toUpper) :
    s.contains c = s.contains d := by
  rw [← s.contains_toUpper c, h, s.contains_toUpper]

variable {p : Pattern} {s e : Bool} {v w : List Char}

/-- What differs from a piece in its case only has parts that differ from the parts of the piece in
their case only. -/
theorem exists_parts {a b w : List Char}
    (hw : w.map Char.toUpper = (a ++ b).map Char.toUpper) :
    ∃ c d, w = c ++ d ∧ c.map Char.toUpper = a.map Char.toUpper ∧
      d.map Char.toUpper = b.map Char.toUpper ∧ c.isEmpty = a.isEmpty ∧ d.isEmpty = b.isEmpty := by
  have hempty {c a : List Char} (h : c.map Char.toUpper = a.map Char.toUpper) :
      c.isEmpty = a.isEmpty := by
    simpa using congrArg List.isEmpty h
  rw [List.map_append] at hw
  obtain ⟨c, d, rfl, hc, hd⟩ := List.map_eq_append_iff.1 hw
  exact ⟨c, d, rfl, hc, hd, hempty hc, hempty hd⟩

/-- A pattern spans a piece in whatever case it is written. -/
theorem Spans.recase (h : p.Spans s v e) (hw : w.map Char.toUpper = v.map Char.toUpper) :
    p.Spans s w e := by
  induction h generalizing w with
  | empty =>
    obtain rfl := List.map_eq_nil_iff.1 hw
    exact .empty
  | one ha =>
    obtain ⟨d, rfl, hd⟩ := List.map_eq_singleton_iff.1 hw
    exact .one ((CharSet.contains_congr _ hd).trans ha)
  | textStart =>
    obtain rfl := List.map_eq_nil_iff.1 hw
    exact .textStart
  | textEnd =>
    obtain rfl := List.map_eq_nil_iff.1 hw
    exact .textEnd
  | seq _ _ ihp ihq =>
    obtain ⟨c, d, rfl, hc, hd, hce, hde⟩ := exists_parts hw
    exact .seq (hde ▸ ihp hc) (hce ▸ ihq hd)
  | left _ ih => exact .left (ih hw)
  | right _ ih => exact .right (ih hw)
  | stop =>
    obtain rfl := List.map_eq_nil_iff.1 hw
    exact .stop
  | owed _ _ ihp ihr =>
    obtain ⟨c, d, rfl, hc, hd, hce, hde⟩ := exists_parts hw
    exact .owed (hde ▸ ihp hc) (hce ▸ ihr hd)
  | more hx _ _ ihp ihr =>
    obtain ⟨c, d, rfl, hc, hd, hce, hde⟩ := exists_parts hw
    exact .more hx (hde ▸ ihp hc) (hce ▸ ihr hd)
  | group _ ih => exact .group (ih hw)

theorem OccursIn.recase {text other : List Char} (h : p.OccursIn text)
    (ho : other.map Char.toUpper = text.map Char.toUpper) : p.OccursIn other := by
  obtain ⟨u, v, w, rfl, hspans⟩ := h
  obtain ⟨uv, w', rfl, huv, hw, -, hwe⟩ := exists_parts ho
  obtain ⟨u', v', rfl, hu, hv, hue, -⟩ := exists_parts huv
  exact ⟨u', v', w', rfl, hue ▸ hwe ▸ hspans.recase hv⟩

end Pattern

section Mnemonics

variable {m n : String}

theorem map_toUpper_toList (h : m.toUpper = n.toUpper) :
    m.toList.map Char.toUpper = n.toList.map Char.toUpper := by
  rw [← String.toList_map, ← String.toList_map]
  exact congrArg String.toList h

theorem Rule.Accepts.recase {r : Rule} (h : r.Accepts m) (hmn : m.toUpper = n.toUpper) :
    r.Accepts n := by
  obtain ⟨p, hp, hm⟩ := h
  exact ⟨p, hp, hm.recase (map_toUpper_toList hmn.symm)⟩

theorem CompiledRule.accepts_eq {r : Rule} {c : CompiledRule} (h : r.compile = .ok c)
    (hmn : m.toUpper = n.toUpper) : c.accepts m = c.accepts n := by
  rw [Bool.eq_iff_iff, accepts_iff h, accepts_iff h]
  exact ⟨fun hm => hm.recase hmn, fun hn => hn.recase hmn.symm⟩

namespace Table

/-- Mnemonics that differ in the case of ASCII letters only cost the same. -/
theorem classify_eq_of_toUpper_eq {name : String} {rules : List Rule} {t : Table}
    (h : compile name rules = .ok t) (hmn : m.toUpper = n.toUpper) :
    t.classify m = t.classify n := by
  have hfind (first : Char) :
      (t.candidates first).find? (·.accepts m) = (t.candidates first).find? (·.accepts n) := by
    refine List.find?_congr fun c hc => ?_
    obtain ⟨r, -, hr⟩ := exists_of_mem_rules h (List.mem_filter.1 hc).1
    exact CompiledRule.accepts_eq hr hmn
  have hchars := map_toUpper_toList hmn
  rw [classify, classify]
  cases hm : m.toList with
  | nil =>
    rw [hm] at hchars
    rw [List.map_eq_nil_iff.1 hchars.symm]
  | cons a front =>
    cases hn : n.toList with
    | nil =>
      rw [hm, hn] at hchars
      cases hchars
    | cons b back =>
      rw [hm, hn, List.map_cons, List.map_cons, List.cons.injEq] at hchars
      have hfiled : t.candidates a = t.candidates b := by
        rw [candidates, candidates, hchars.1]
      simp only [hfind, hfiled]

/-- The complement of a range, which leaves out its letters in both cases, and a letter that is
written as its code in a group with a name. -/
theorem classify_recased : ∃ t, compile "cpu" [⟨"AD[^A-C]", ⟨.arithmetic, 1⟩⟩,
      ⟨"B(?P<cond>\\x45Q)\\z", ⟨.branch, 2⟩⟩] = .ok t ∧
    t.classify "adD" = t.classify "ADd" ∧ t.classify "ADd" = ⟨.arithmetic, 1⟩ ∧
    t.classify "adC" = t.classify "ADc" ∧ t.classify "ADc" = .none ∧
    t.classify "bEq" = t.classify "BeQ" ∧ t.classify "BeQ" = ⟨.branch, 2⟩ := by
  have hcosts : (compile "cpu" [⟨"AD[^A-C]", ⟨.arithmetic, 1⟩⟩,
      ⟨"B(?P<cond>\\x45Q)\\z", ⟨.branch, 2⟩⟩]).toOption.map
      (fun t => (t.classify "ADd", t.classify "ADc", t.classify "BeQ")) =
        some (⟨.arithmetic, 1⟩, .none, ⟨.branch, 2⟩) := by
    decide +kernel
  obtain ⟨t, ht, hcosts⟩ := toOption_map_eq_some hcosts
  obtain ⟨hd, hcosts⟩ := Prod.mk.inj hcosts
  obtain ⟨hc, hq⟩ := Prod.mk.inj hcosts
  exact ⟨t, ht, classify_eq_of_toUpper_eq ht (by simp [String.toUpper, ← String.toList_inj]), hd,
    classify_eq_of_toUpper_eq ht (by simp [String.toUpper, ← String.toList_inj]), hc,
    classify_eq_of_toUpper_eq ht (by simp [String.toUpper, ← String.toList_inj]), hq⟩

end Table

end Mnemonics

end LineCost
