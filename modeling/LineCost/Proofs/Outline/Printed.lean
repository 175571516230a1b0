import LineCost.Proofs.Outline.RoundTrip

/-!
Where the entries of an outline stand in its text: each under the header of its block, and that under
the header of its function.
-/

namespace LineCost.Outline

/-- The lines of the text have the entry of a line with this tally, under the headers of the block
and the function. Headers of other functions would not be indented, and headers of other blocks by
one space only. -/
def Prints (text : String) (f : Func) (b : Block) (n : Nat) (t : Tally) : Prop :=
  ∃ above between under below, Text.lines text.toList =
      above ++ ("func: " ++ f.name).toList :: (" at: " ++ f.decl.text).toList :: between ++
        (" block: " ++ b.name).toList :: under ++
        ("  " ++ n.repr ++ ": " ++ t.text).toList :: below ∧
    (∀ l ∈ between, [' '] <+: l) ∧ ∀ l ∈ under, [' ', ' '] <+: l

theorem Block.indented_lineTexts (b : Block) : ∀ t ∈ b.lineTexts, [' ', ' '] <+: t.toList := by
  intro t ht
  obtain ⟨e, _, rfl⟩ := List.mem_map.1 ht
  simp [String.toList_append]

theorem Block.indented_texts (b : Block) : ∀ t ∈ b.texts .line, [' '] <+: t.toList := by
  intro t ht
  rcases List.mem_cons.1 ht with rfl | ht
  · simp [String.toList_append]
  · obtain ⟨rest, hrest⟩ := b.indented_lineTexts t ht
    exact ⟨' ' :: rest, hrest⟩

/-- The entries with cycles of the blocks that are not skipped are written. -/
theorem prints_write {fs : List Func} (hf : ∀ f ∈ fs, f.Writable) {f : Func} {b : Block} {n : Nat}
    {t : Tally} (hfm : f ∈ fs) (hl : f.layout = .line) (hb : b ∈ f.blocks) (hs : b.skip = false)
    (hn : b.lines.get? n = some t) (ht : t.cycles ≠ 0) : Prints (write fs) f b n t := by
  have hkept : b ∈ f.kept := List.mem_filter.2 ⟨hb, by simp [hs]⟩
  have hentry : (n, t) ∈ b.lines.entries.filter (!·.2.isEmpty) :=
    List.mem_filter.2 ⟨LineMap.get?_eq_some_iff.1 hn, by simp [Tally.isEmpty, ht]⟩
  obtain ⟨fs₁, fs₂, hfs⟩ := List.append_of_mem hfm
  obtain ⟨bs₁, bs₂, hbs⟩ := List.append_of_mem hkept
  obtain ⟨es₁, es₂, hes⟩ := List.append_of_mem hentry
  let entryText (e : Nat × Tally) := "  " ++ e.1.repr ++ ": " ++ e.2.text
  have hlines : Text.lines (write fs).toList = (fs₁.flatMap Func.texts ++ ("func: " ++ f.name) ::
      (" at: " ++ f.decl.text) :: bs₁.flatMap (·.texts .line) ++ (" block: " ++ b.name) ::
      es₁.map entryText ++ entryText (n, t) :: (es₂.map entryText ++ bs₂.flatMap (·.texts .line) ++
      fs₂.flatMap Func.texts)).map String.toList := by
    rw [lines_write hf, hfs]
    simp [Func.texts, hbs, hl, Block.texts, Block.lineTexts, hes, entryText]
  simp only [List.map_append, List.map_cons] at hlines
  refine ⟨_, _, _, _, hlines, ?_, ?_⟩
  · intro l hlm
    obtain ⟨s, hs, rfl⟩ := List.mem_map.1 hlm
    obtain ⟨c, _, hc⟩ := List.mem_flatMap.1 hs
    exact c.indented_texts s hc
  · intro l hlm
    obtain ⟨s, hs, rfl⟩ := List.mem_map.1 hlm
    obtain ⟨e, _, rfl⟩ := List.mem_map.1 hs
    simp [entryText, String.toList_append]

end LineCost.Outline
