import LineCost.Proofs.Attribution.Checked
import LineCost.Proofs.Attribution.Frame
import LineCost.Proofs.Outline.Emitted

/-!
An outline that is written and read again. What comes back is all that has been written, and it is
written in the same way.
-/

namespace LineCost.Outline

open Progress

/-- A line that is not blank and is read back from its text. -/
def Written (s : String) : Prop := '\n' ∉ s.toList ∧ Line.Ended s.toList

theorem Written.append {s : String} (h : Written s) (before : String)
    (hb : '\n' ∉ before.toList) : Written (before ++ s) := by
  constructor
  · rw [String.toList_append, List.mem_append, not_or]
    exact ⟨hb, h.1⟩
  · exact h.2.append_toList before

theorem Written.ne_blank {s : String} (h : Written s) : Line.read s.toList ≠ .ok .blank := by
  intro hblank
  rcases Line.readable_of_read h.1 hblank with hr | he
  · exact hr
  · have htrim := he.2
    rw [h.2.withoutReturn, h.2.trim_isEmpty] at htrim
    cases htrim

theorem written_name {name : String} (h : ReadableName name) : Written name :=
  ⟨h.oneLine, Line.ended_name h⟩

theorem written_repr (n : Nat) : Written n.repr := by
  rw [Written, Nat.toList_repr]
  exact ⟨Text.not_mem_toDigits (by decide) n, Line.ended_toDigits n⟩

theorem written_location {l : Location} (h : l.Readable) : Written l.text := by
  refine ⟨?_, Line.ended_location l⟩
  have hdigits := Text.not_mem_toDigits (c := '\n') (by decide) l.line
  simp [Location.toList_text, h.1, hdigits]

theorem written_tally (t : Tally) : Written t.text := by
  refine ⟨?_, Line.ended_tally t⟩
  have hdigits := Text.not_mem_toDigits (c := '\n') (by decide)
  simp [Tally.toList_text, Tally.fields, List.intercalate_cons_cons, hdigits]

theorem Block.written_texts {b : Block} (hb : b.Writable) (layout : Layout) :
    ∀ t ∈ b.texts layout, Written t := by
  have hname : Written (" block: " ++ b.name) := (written_name hb.name).append _ (by simp)
  have hlines : ∀ t ∈ b.lineTexts, Written t := by
    intro t ht
    obtain ⟨e, _, he⟩ := List.mem_map.1 ht
    rw [← he]
    apply (written_tally e.2).append
    have hdigits := Text.not_mem_toDigits (c := '\n') (by decide) e.1
    simp [hdigits]
  have hspan : ∀ t ∈ b.spanTexts, Written t := by
    intro t ht
    rw [spanTexts] at ht
    cases hs : b.span with
    | none => simp [hs] at ht
    | some s =>
      obtain ⟨_, hstart, hstop⟩ := hb.span s hs
      have hsize := (written_repr s.size).append "  size: " (by simp)
      have hfrom := (written_location hstart).append "  from: " (by simp)
      have hto := (written_location hstop).append "  to: " (by simp)
      have hstat := (written_tally b.tally).append "  stat: " (by simp)
      rw [hs] at ht
      rcases List.mem_append.1 ht with ht | ht
      · simp only [List.mem_cons, List.not_mem_nil, or_false] at ht
        rcases ht with h | h | h
        · exact h ▸ hsize
        · exact h ▸ hfrom
        · exact h ▸ hto
      · split at ht
        · simp at ht
        · exact List.mem_singleton.1 ht ▸ hstat
  intro t ht
  cases layout with
  | line =>
    rcases List.mem_cons.1 ht with h | h
    · exact h ▸ hname
    · exact hlines t h
  | block =>
    rcases List.mem_cons.1 ht with h | h
    · exact h ▸ hname
    · exact hspan t h

theorem Func.written_texts {f : Func} (hf : f.Writable) : ∀ t ∈ f.texts, Written t := by
  intro t ht
  rcases List.mem_cons.1 ht with h | ht
  · exact h ▸ (written_name hf.name).append _ (by simp)
  · rcases List.mem_cons.1 ht with h | ht
    · exact h ▸ (written_location hf.decl).append _ (by simp)
    · obtain ⟨b, hb, ht⟩ := List.mem_flatMap.1 ht
      exact Block.written_texts (hf.blocks b (mem_kept hb)) f.layout t ht

theorem lines_write {fs : List Func} (hf : ∀ f ∈ fs, f.Writable) :
    Text.lines (write fs).toList = (fs.flatMap Func.texts).map String.toList := by
  have htext : (write fs).toList =
      ((fs.flatMap Func.texts).map String.toList).flatMap fun l => l ++ ['\n'] := by
    simp [write, String.toList_join, List.flatMap_map]
  rw [htext]
  apply Text.lines_flatMap
  intro l hl
  obtain ⟨t, ht, hl⟩ := List.mem_map.1 hl
  obtain ⟨f, hfm, ht⟩ := List.mem_flatMap.1 ht
  obtain ⟨hn, he⟩ := Func.written_texts (hf f hfm) t ht
  exact hl ▸ ⟨hn, he.getLast?_ne⟩

theorem read_write {fs : List Func} (hf : ∀ f ∈ fs, f.Writable) (hfit : ∀ f ∈ fs, f.emitted.Fits) :
    read (write fs) = .ok (fs.map Func.emitted) := by
  obtain ⟨q, hq, hs⟩ := leads_funcs (p := .start) rfl hf hfit
  apply read_eq_ok_iff.2
  refine ⟨(fs.flatMap Func.texts).map String.toList, [], q, ?_, hq, ?_, by simp⟩
  · rw [lines_write hf, List.append_nil]
  · rw [hs]
    simp [Progress.start]

theorem Progress.Leads.readable {p q : Progress} {ls : List (List Char)} (h : Leads p ls q) :
    ∀ l ∈ ls, ∃ line, Line.read l = .ok line := by
  induction h with
  | nil => simp
  | cons hl _ _ _ ih =>
    intro l hm
    rcases List.mem_cons.1 hm with h | h
    · exact ⟨_, h ▸ hl⟩
    · exact ih l h

theorem fits_of_read_tally {t : Tally} {line : Line}
    (h : Line.read ("  stat: " ++ t.text).toList = .ok line) : t.Fits := by
  rw [Line.read_tally] at h
  split at h
  · rename_i hfit
    exact hfit
  · cases h

theorem fits_of_read_entry {n : Nat} (hn : n ≤ Text.lineLimit) {t : Tally} {line : Line}
    (h : Line.read ("  " ++ n.repr ++ ": " ++ t.text).toList = .ok line) : t.Fits := by
  rw [Line.read_entry hn] at h
  split at h
  · rename_i hfit
    exact hfit
  · cases h

theorem Block.fits_of_readable {b : Block} {layout : Layout} (hb : b.Writable)
    (hshape : b.Shaped layout)
    (h : ∀ t ∈ b.texts layout, ∃ line, Line.read t.toList = .ok line) : b.emitted.Fits := by
  have hzero : Tally.zero.isEmpty = true := rfl
  have htally : b.tally.isEmpty = true → b.emitted.tally.Fits := by
    intro he
    rw [Block.emitted, he]
    exact Tally.fits_zero
  cases layout with
  | line =>
    obtain ⟨_, ht⟩ := hshape
    refine ⟨htally (ht ▸ hzero), ?_⟩
    intro e he
    have hm : e ∈ b.lines.entries := (List.mem_filter.1 he).1
    obtain ⟨line, hl⟩ := h _ (List.mem_cons_of_mem _ (List.mem_map_of_mem he))
    exact fits_of_read_entry (hb.lines e.1 (List.mem_map_of_mem hm)) hl
  | block =>
    obtain ⟨hlines, ht⟩ := hshape
    constructor
    · cases he : b.tally.isEmpty with
      | true => exact htally he
      | false =>
        cases hs : b.span with
        | none =>
          rw [ht hs, hzero] at he
          cases he
        | some s =>
          obtain ⟨line, hl⟩ := h ("  stat: " ++ b.tally.text) (by simp [texts, spanTexts, hs, he])
          rw [Block.emitted, he]
          exact fits_of_read_tally hl
    · intro e he
      have hm : e ∈ b.lines.entries := (List.mem_filter.1 he).1
      rw [hlines] at hm
      cases hm

/-- What is too large to be read is not read back. -/
theorem fits_of_read_write {fs gs : List Func} (hf : ∀ f ∈ fs, f.Writable)
    (h : read (write fs) = .ok gs) : ∀ f ∈ fs, f.emitted.Fits := by
  obtain ⟨front, rest, q, hls, hq, _, hrest⟩ := read_eq_ok_iff.1 h
  rw [lines_write hf] at hls
  -- nothing that is written is blank, so the reader does not stop before the end
  have hwritten : ∀ l ∈ front ++ rest, Line.read l ≠ .ok .blank := by
    intro l hl
    rw [← hls] at hl
    obtain ⟨t, ht, hl⟩ := List.mem_map.1 hl
    obtain ⟨f, hfm, ht⟩ := List.mem_flatMap.1 ht
    exact hl ▸ (Func.written_texts (hf f hfm) t ht).ne_blank
  have hfront : (fs.flatMap Func.texts).map String.toList = front := by
    cases rest with
    | nil => rw [hls, List.append_nil]
    | cons l rest => exact absurd (hrest l rfl) (hwritten l (by simp))
  have hread : ∀ f ∈ fs, ∀ t ∈ f.texts, ∃ line, Line.read t.toList = .ok line := by
    intro f hfm t ht
    apply hq.readable
    rw [← hfront]
    exact List.mem_map_of_mem (List.mem_flatMap.2 ⟨f, hfm, ht⟩)
  intro f hfm b hb
  obtain ⟨c, hc, hcb⟩ := List.mem_map.1 hb
  have htexts : ∀ t ∈ c.texts f.layout, ∃ line, Line.read t.toList = .ok line := by
    intro t ht
    apply hread f hfm t
    exact List.mem_cons_of_mem _ (List.mem_cons_of_mem _ (List.mem_flatMap.2 ⟨c, hc, ht⟩))
  exact hcb ▸ Block.fits_of_readable ((hf f hfm).blocks c (mem_kept hc))
    ((hf f hfm).shaped c (mem_kept hc)) htexts

theorem kept_emitted (f : Func) : f.emitted.kept = f.kept.map Block.emitted := by
  rw [Func.kept, Func.emitted, List.filter_eq_self]
  intro b hb
  obtain ⟨c, _, hc⟩ := List.mem_map.1 hb
  rw [← hc]
  rfl

/-- What has been read back is written in the same lines. -/
theorem texts_emitted {f : Func} (hf : f.Writable) : f.emitted.texts = f.texts := by
  have hblocks : ∀ b ∈ f.kept, b.emitted.texts f.emitted.layout = b.texts f.layout := by
    intro b hb
    have hshape := hf.shaped b (mem_kept hb)
    rw [Func.emitted]
    cases hl : f.layout with
    | line =>
      simp only [reduceCtorEq, false_and, if_false, Block.texts, Block.lineTexts_emitted]
      rfl
    | block =>
      rw [hl] at hshape
      by_cases h : ∃ b ∈ f.kept, b.span.isSome = true
      · simp only [true_and, if_pos h, Block.texts, Block.spanTexts_emitted]
        rfl
      · have hspan : b.span = none := by
          cases hs : b.span with
          | none => rfl
          | some s => exact absurd ⟨b, hb, by rw [hs]; rfl⟩ h
        have hlineTexts : b.emitted.lineTexts = [] := by
          rw [Block.lineTexts_emitted, Block.lineTexts, hshape.1]
          rfl
        have hspanTexts : b.spanTexts = [] := by
          rw [Block.spanTexts, hspan]
        simp only [true_and, if_neg h, Block.texts, hlineTexts, hspanTexts]
        rfl
  have hkept : f.emitted.kept.flatMap (·.texts f.emitted.layout) =
      f.kept.flatMap (·.texts f.layout) := by
    rw [kept_emitted, List.flatMap_map]
    exact List.flatMap_congr hblocks
  rw [Func.texts, hkept]
  rfl

theorem write_emitted {fs : List Func} (hf : ∀ f ∈ fs, f.Writable) :
    write (fs.map Func.emitted) = write fs := by
  have htexts : (fs.map Func.emitted).flatMap Func.texts = fs.flatMap Func.texts := by
    rw [List.flatMap_map]
    exact List.flatMap_congr fun f hfm => texts_emitted (hf f hfm)
  rw [write, htexts, write]

theorem exists_of_forall₂_of_mem {α β : Type} {r : α → β → Prop} {as : List α} {bs : List β}
    (h : List.Forall₂ r as bs) {b : β} (hb : b ∈ bs) : ∃ a ∈ as, r a b := by
  induction h with
  | nil => cases hb
  | cons hr _ ih =>
    rcases List.mem_cons.1 hb with h | h
    · exact ⟨_, List.mem_cons_self, h ▸ hr⟩
    · obtain ⟨a, ha, hr⟩ := ih h
      exact ⟨a, List.mem_cons_of_mem _ ha, hr⟩

theorem Block.writable_of_retallied {layout : Layout} {b c : Block}
    (h : Attribution.Retallied layout b c) (hb : b.Writable) : c.Writable where
  name := h.name ▸ hb.name
  span := h.span ▸ hb.span
  lines := h.recorded ▸ hb.lines

theorem Block.shaped_of_retallied {layout : Layout} {b c : Block}
    (h : Attribution.Retallied layout b c) (hb : b.Shaped layout) : c.Shaped layout := by
  cases layout with
  | line => exact ⟨h.span.trans hb.1, (h.line rfl).trans hb.2⟩
  | block =>
    obtain ⟨hl, ht⟩ := h.block rfl
    refine ⟨hl.trans hb.1, ?_⟩
    intro hs
    have hspan : b.span = none := h.span ▸ hs
    have hrange : b.range? = none := by
      rw [Block.range?, hspan, Block.recordedRange?, hb.1]
      rfl
    exact (ht hrange).trans (hb.2 hspan)

/-- A merge leaves an outline one that can be written and read again. -/
theorem writable_of_merge {skips : List String} {asm : List Listing.Func} {fs fs' : List Func}
    {report : Attribution.Report} (h : Attribution.merge skips asm fs = .ok (fs', report))
    (hf : ∀ f ∈ fs, f.Writable) : ∀ f ∈ fs', f.Writable := by
  obtain ⟨_, hfs, _⟩ := Attribution.merge_eq_ok_iff.1 h
  intro g hg
  obtain ⟨f, hfm, he⟩ := List.mem_map.1 (hfs ▸ hg)
  subst he
  obtain ⟨hname, hdecl, hlayout⟩ := Attribution.mergeOne_name skips asm f
  have hblocks := Attribution.mergeOne_retallied skips asm f
  obtain ⟨hn, hd, hb, hs⟩ := hf f hfm
  refine ⟨hname ▸ hn, hdecl ▸ hd, ?_, ?_⟩
  · intro c hc
    obtain ⟨b, hbm, hr⟩ := exists_of_forall₂_of_mem hblocks hc
    exact Block.writable_of_retallied hr (hb b hbm)
  · intro c hc
    obtain ⟨b, hbm, hr⟩ := exists_of_forall₂_of_mem hblocks hc
    rw [hlayout]
    exact Block.shaped_of_retallied hr (hs b hbm)

/-- What is written of counters within the limit is within the limit. -/
theorem Block.Fits.emitted {b : Block} (h : b.Fits) : b.emitted.Fits := by
  constructor
  · rw [Block.emitted]
    cases b.tally.isEmpty with
    | true => exact Tally.fits_zero
    | false => exact h.1
  · intro e he
    exact h.2 e (List.mem_filter.1 he).1

theorem Func.Fits.emitted {f : Func} (h : f.Fits) : f.emitted.Fits := by
  rw [Func.Fits, Func.emitted, List.forall_mem_map]
  intro b hb
  exact (h b (mem_kept hb)).emitted

/-- An outline that has been read, with or without costs attributed to it, comes back from its text
as it has been written, and is written in the same text again. -/
theorem checkedRead_write {text : String} {fs₀ fs : List Func}
    (h : checkedRead text = .ok (.ok fs₀))
    (hm : fs = fs₀ ∨ ∃ skips asm report, (∀ a ∈ asm, a.Fits) ∧
      Attribution.checkedMerge skips asm fs₀ = .ok (.ok (fs, report))) :
    checkedRead (write fs) = .ok (.ok (fs.map Func.emitted)) ∧
      write (fs.map Func.emitted) = write fs := by
  obtain ⟨hread, hfit₀⟩ := checkedRead_eq_ok_iff.1 h
  have hfs : (∀ f ∈ fs, f.Writable) ∧ ∀ f ∈ fs, f.Fits := by
    rcases hm with he | hmerge
    · exact he ▸ ⟨writable_of_read hread, hfit₀⟩
    · obtain ⟨skips, asm, report, hasm, hmerge⟩ := hmerge
      obtain ⟨hmerge, hfit, _⟩ := (Attribution.checkedMerge_eq_ok_iff hasm hfit₀).1 hmerge
      exact ⟨writable_of_merge hmerge (writable_of_read hread), hfit⟩
  obtain ⟨hf, hfit⟩ := hfs
  have hemitted : ∀ f ∈ fs, f.emitted.Fits := fun f hfm => (hfit f hfm).emitted
  refine ⟨checkedRead_eq_ok_iff.2 ⟨read_write hf hemitted, ?_⟩, write_emitted hf⟩
  rwa [List.forall_mem_map]

/-- A file name with blanks and a colon, a block that is left out, and both layouts. -/
def colonText : String :=
  "func: f g\n at: a b:c.c:9\n block: body\n  10:\n  12: 1, 0, 0, 0, 0, 0, 2\n block: cleanup\n" ++
  "func: h\n at: h.h:3\n block: entry\n  size: 4\n  from: h.h:4\n  to: h.h:6\n\nnot read"

def colonFuncs : List Func :=
  [⟨"f g", ⟨"a b:c.c", 9⟩, .line,
      [{ Block.named "body" with
          lines := .ofList [(10, .zero), (12, ⟨1, 0, 0, 0, 0, 0, 2⟩)] }, .named "cleanup"]⟩,
    ⟨"h", ⟨"h.h", 3⟩, .block,
      [{ Block.named "entry" with span := some ⟨4, ⟨"h.h", 4⟩, ⟨"h.h", 6⟩⟩ }]⟩]

def colonAsm : List Listing.Func :=
  [⟨"h", ⟨"h.h", 3⟩, [⟨none, "entry", some (.between 4 6), ⟨0, 1, 0, 0, 0, 0, 4⟩⟩], .empty⟩]

theorem checkedRead_write_colons :
    checkedRead colonText = .ok (.ok colonFuncs) ∧
      ∃ fs report, Attribution.checkedMerge Attribution.defaultSkips colonAsm colonFuncs =
          .ok (.ok (fs, report)) ∧
        checkedRead (write fs) = .ok (.ok (fs.map Func.emitted)) ∧
        write (fs.map Func.emitted) = write fs := by
  have hread : checkedRead colonText = .ok (.ok colonFuncs) := by decide +kernel
  have hasm : ∀ a ∈ colonAsm, a.Fits := by decide
  refine ⟨hread, _, _, rfl, ?_⟩
  exact checkedRead_write hread (.inr ⟨Attribution.defaultSkips, colonAsm, _, hasm, rfl⟩)

end LineCost.Outline
