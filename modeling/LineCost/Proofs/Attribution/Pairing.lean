import LineCost.Attribution.Merge

/-!
Which assembly function a function of the outline is paired with.
-/

namespace LineCost.Attribution

open Outline

/-- The assembly function of a function of the outline. -/
def partner? (asm : List Listing.Func) (f : Func) : Option Listing.Func :=
  asm.find? fun a => key a == (f.name, f.decl.line)

theorem duplicate?_eq_none_iff {seen : List (String × Nat)} {asm : List Listing.Func} :
    duplicate? seen asm = none ↔ (asm.map key).Nodup ∧ ∀ a ∈ asm, key a ∉ seen := by
  induction asm generalizing seen with
  | nil => simp [duplicate?]
  | cons a rest ih =>
    rw [duplicate?]
    split
    · rename_i ha
      simp only [reduceCtorEq, false_iff]
      intro h
      exact h.2 a List.mem_cons_self ha
    · rename_i ha
      rw [ih, List.map_cons, List.nodup_cons]
      constructor
      · intro h
        obtain ⟨hn, hs⟩ := h
        refine ⟨⟨?_, hn⟩, ?_⟩
        · intro hm
          obtain ⟨b, hb, hk⟩ := List.mem_map.1 hm
          exact hs b hb (hk ▸ List.mem_cons_self)
        · intro b hb
          rcases List.mem_cons.1 hb with h | h
          · exact h ▸ ha
          · exact fun hk => hs b h (List.mem_cons_of_mem _ hk)
      · intro h
        obtain ⟨⟨ha', hn⟩, hs⟩ := h
        refine ⟨hn, ?_⟩
        intro b hb hk
        rcases List.mem_cons.1 hk with h | h
        · exact ha' (h ▸ List.mem_map_of_mem hb)
        · exact hs b (List.mem_cons_of_mem _ hb) h

theorem merge_eq_ok_iff {skips : List String} {asm : List Listing.Func} {fs fs' : List Func}
    {report : Report} :
    merge skips asm fs = .ok (fs', report) ↔
      (asm.map key).Nodup ∧ fs' = fs.map (fun f => (mergeOne skips asm f).1) ∧
        report = Report.sum (fs.map fun f => (mergeOne skips asm f).2) := by
  have hd : duplicate? [] asm = none ↔ (asm.map key).Nodup := by
    simp [duplicate?_eq_none_iff]
  cases h : duplicate? [] asm with
  | some d =>
    have hn : ¬ (asm.map key).Nodup := by simp [← hd, h]
    simp [merge, h, hn]
  | none =>
    have hn := hd.1 h
    simp only [merge, h, hn, true_and, Except.ok.injEq, Prod.mk.injEq, List.map_map]
    constructor
    · intro he
      exact ⟨he.1.symm, he.2.symm⟩
    · intro he
      exact ⟨he.1.symm, he.2.symm⟩

/-- Keys that occur once lead to the functions that have them. -/
theorem partner?_eq_some_iff {asm : List Listing.Func} (hn : (asm.map key).Nodup) {f : Func}
    {a : Listing.Func} :
    partner? asm f = some a ↔ a ∈ asm ∧ key a = (f.name, f.decl.line) := by
  constructor
  · intro h
    exact ⟨List.mem_of_find?_eq_some h, by simpa using List.find?_some h⟩
  · intro h
    obtain ⟨ha, hk⟩ := h
    induction asm with
    | nil => simp at ha
    | cons b rest ih =>
      obtain ⟨hb, hr⟩ := List.nodup_cons.1 hn
      rw [partner?, List.find?_cons]
      rcases List.mem_cons.1 ha with h | h
      · subst h
        simp [hk]
      · have hne : (key b == (f.name, f.decl.line)) = false := by
          apply beq_eq_false_iff_ne.2
          intro he
          exact hb (he.trans hk.symm ▸ List.mem_map_of_mem h)
        rw [hne]
        exact ih hr h

/-- The blocks of a function, those marked that are left out. -/
def marked (skips : List String) (f : Func) : List Block := (markSkipped skips f).blocks

theorem mergeOne_eq (skips : List String) (asm : List Listing.Func) (f : Func) :
    mergeOne skips asm f = match partner? asm f with
      | some a => mergeFunc (markSkipped skips f) a
      | none => (markSkipped skips f, .ofUnmatched ((marked skips f).countP (·.skip))) := rfl

theorem mergeOne_of_none {skips : List String} {asm : List Listing.Func} {f : Func}
    (h : partner? asm f = none) :
    (mergeOne skips asm f).1 = { f with blocks := marked skips f } := by
  rw [mergeOne_eq, h]
  rfl

theorem mergeOne_of_line {skips : List String} {asm : List Listing.Func} {f : Func}
    {a : Listing.Func} (h : partner? asm f = some a) (hl : f.layout = .line) :
    (mergeOne skips asm f).1 =
      { f with blocks := (mergeLines a (marked skips f)).map Prod.fst } := by
  have hl' : (markSkipped skips f).layout = .line := hl
  rw [mergeOne_eq, h]
  simp only [mergeFunc, hl']
  rw [← hl]
  rfl

/-- What a merge makes of a function in line layout that has assembly. -/
theorem merge_getElem?_of_line {skips : List String} {asm : List Listing.Func} {fs fs' : List Func}
    {report : Report} {p : Nat} {f : Func} {a : Listing.Func}
    (hm : merge skips asm fs = .ok (fs', report)) (hf : fs[p]? = some f) (hl : f.layout = .line)
    (ha : a ∈ asm) (hk : key a = (f.name, f.decl.line)) :
    fs'[p]? = some { f with blocks := (mergeLines a (marked skips f)).map Prod.fst } := by
  obtain ⟨hn, hfs, _⟩ := merge_eq_ok_iff.1 hm
  have hp := (partner?_eq_some_iff hn).2 ⟨ha, hk⟩
  rw [hfs, List.getElem?_map, hf, Option.map_some, mergeOne_of_line hp hl]

theorem mergeOne_of_block {skips : List String} {asm : List Listing.Func} {f : Func}
    {a : Listing.Func} (h : partner? asm f = some a) (hl : f.layout = .block) :
    (mergeOne skips asm f).1 =
      { f with blocks := (marked skips f).map fun b => (mergeBlock a.blocks b).1 } := by
  have hl' : (markSkipped skips f).layout = .block := hl
  rw [mergeOne_eq, h]
  simp only [mergeFunc, hl', List.map_map]
  rw [← hl]
  rfl

end LineCost.Attribution
