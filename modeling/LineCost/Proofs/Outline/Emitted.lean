import LineCost.Outline.Writer
import LineCost.Proofs.Outline.Checked
import LineCost.Proofs.Outline.Loaded

/-!
How a reader gets through what is written of an outline: entry by entry, block by block and function
by function, each time coming to what has been written. Blocks that are skipped and tallies without
cycles are not written.
-/

namespace LineCost.Outline

/-- A block as it is written, without tallies that carry no cycles. -/
def Block.emitted (b : Block) : Block where
  name := b.name
  skip := false
  span := b.span
  tally := if b.tally.isEmpty then .zero else b.tally
  lines := b.lines.filter fun _ t => !t.isEmpty

/-- A function as it is written. Its layout shows in what its blocks hold. -/
def Func.emitted (f : Func) : Func where
  name := f.name
  decl := f.decl
  layout := if f.layout = .block ∧ ∃ b ∈ f.kept, b.span.isSome = true then .block else .line
  blocks := f.kept.map Block.emitted

/-- Whether what is written under a block shows the layout of its function. -/
def Block.shows (b : Block) : Bool := b.span.isSome || !b.lines.entries.isEmpty

/-- A tally without cycles is left out, and so is what is put in its place. -/
theorem Block.spanTexts_emitted (b : Block) : b.emitted.spanTexts = b.spanTexts := by
  have hzero : Tally.zero.isEmpty = true := rfl
  simp only [spanTexts, emitted]
  by_cases h : b.tally.isEmpty = true
  · simp only [h, if_true, hzero]
  · simp only [h, if_false, Bool.false_eq_true]

theorem Block.lineTexts_emitted (b : Block) : b.emitted.lineTexts = b.lineTexts := by
  simp [lineTexts, emitted, LineMap.filter, List.filter_filter]

open Progress

theorem leads_entries (done : List Func) (f : OpenFunc) (name : String) (l : List (Nat × Tally))
    (m : LineMap) (hn : ∀ e ∈ l, e.1 ≤ Text.lineLimit) (ht : ∀ e ∈ l, e.2.Fits) :
    Leads ⟨done, .lines f name m⟩
      (l.map fun e => ("  " ++ e.1.repr ++ ": " ++ e.2.text).toList)
      ⟨done, .lines f name (l.foldl (fun m e => m.addAt e.1 e.2) m)⟩ := by
  induction l generalizing m with
  | nil => exact .nil
  | cons e l ih =>
    obtain ⟨hline, hlines⟩ := List.forall_mem_cons.1 hn
    obtain ⟨hfit, hfits⟩ := List.forall_mem_cons.1 ht
    have hread := Line.read_entry hline e.2
    rw [if_pos hfit] at hread
    have hrest := ih (m.addAt e.1 e.2) hlines hfits
    exact .cons hread (by simp) .nextEntry hrest

/-- The lines of a block are read back from their entries. -/
theorem leads_lines (done : List Func) {f : OpenFunc} (name : String) {m : LineMap}
    (hf : f.layout.getD .line = .line) (hn : ∀ e ∈ m.entries, e.1 ≤ Text.lineLimit)
    (ht : ∀ e ∈ m.entries, e.2.Fits) :
    ∃ q, Leads ⟨done, .block f name⟩
        (m.entries.map fun e => ("  " ++ e.1.repr ++ ": " ++ e.2.text).toList) ⟨done, q⟩ ∧
      q.settled? = some (OpenFunc.push
        { f with layout := if m.entries.isEmpty then f.layout else some .line }
        { Block.named name with lines := m }) := by
  obtain ⟨entries, ascending⟩ := m
  cases entries with
  | nil => exact ⟨.block f name, .nil, rfl⟩
  | cons e l =>
    obtain ⟨hline, hlines⟩ := List.forall_mem_cons.1 hn
    obtain ⟨hfit, hfits⟩ := List.forall_mem_cons.1 ht
    have hread := Line.read_entry hline e.2
    rw [if_pos hfit] at hread
    have hrest := leads_entries done { f with layout := some .line } name l
      (LineMap.empty.addAt e.1 e.2) hlines hfits
    have hm : l.foldl (fun m e => m.addAt e.1 e.2) (LineMap.empty.addAt e.1 e.2) =
        ⟨e :: l, ascending⟩ :=
      LineMap.eq_of_entries (LineMap.entries_foldl_addAt (m := .empty) (l := e :: l) ascending)
    rw [hm] at hrest
    exact ⟨_, .cons hread (by simp) (.firstEntry hf) hrest, rfl⟩

/-- The span of a block and its tally are read back from their lines. -/
theorem leads_span (done : List Func) {f : OpenFunc} (name : String) {s : Span} {t : Tally}
    (hf : f.layout.getD .block = .block) (hs : s.Readable) (ht : t.Fits)
    (hzero : t.isEmpty = true → t = .zero) :
    ∃ q, Leads ⟨done, .block f name⟩
        ((["  size: " ++ s.size.repr, "  from: " ++ s.start.text, "  to: " ++ s.stop.text] ++
          if t.isEmpty then [] else ["  stat: " ++ t.text]).map String.toList) ⟨done, q⟩ ∧
      q.settled? = some (OpenFunc.push { f with layout := some .block }
        { Block.named name with span := some s, tally := t }) := by
  have hspan : Leads ⟨done, .block f name⟩
      (["  size: " ++ s.size.repr, "  from: " ++ s.start.text, "  to: " ++ s.stop.text].map
        String.toList) ⟨done, .span { f with layout := some .block } name s⟩ :=
    .cons (Line.read_size hs.size) (by simp) (.size hf) <|
      .cons (Line.read_start hs.start) (by simp) .start <|
      .cons (Line.read_stop hs.stop) (by simp) .stop .nil
  rw [List.map_append]
  cases he : t.isEmpty with
  | true =>
    refine ⟨_, hspan.append .nil, ?_⟩
    rw [hzero he]
    rfl
  | false =>
    have hread := Line.read_tally t
    rw [if_pos ht] at hread
    exact ⟨_, hspan.append (.cons hread (by simp) .tally .nil), rfl⟩

theorem Block.emitted_of_line {b : Block} (h : b.Shaped .line) :
    b.emitted = { named b.name with lines := b.emitted.lines } := by
  obtain ⟨hspan, htally⟩ := h
  rw [emitted, hspan, htally]
  rfl

theorem Block.emitted_of_no_span {b : Block} (h : b.Shaped .block) (hs : b.span = none) :
    b.emitted = named b.name := by
  obtain ⟨hlines, htally⟩ := h
  rw [emitted, hs, htally hs, hlines]
  rfl

theorem Block.emitted_of_span {b : Block} {s : Span} (h : b.Shaped .block) (hs : b.span = some s) :
    b.emitted = { named b.name with span := some s, tally := b.emitted.tally } := by
  obtain ⟨hlines, _⟩ := h
  rw [emitted, hs, hlines]
  rfl

theorem Block.emitted_tally_of_isEmpty {b : Block} (h : b.emitted.tally.isEmpty = true) :
    b.emitted.tally = .zero := by
  rw [emitted] at h ⊢
  cases hb : b.tally.isEmpty with
  | true => simp
  | false => simp [hb] at h

theorem leads_named (done : List Func) {position : Position} {f : OpenFunc} {name : String}
    (hs : position.settled? = some f) (hn : ReadableName name) {texts : List String} {q : Progress}
    (h : Leads ⟨done, .block f name⟩ (texts.map String.toList) q) :
    Leads ⟨done, position⟩ (((" block: " ++ name) :: texts).map String.toList) q :=
  .cons (Line.read_block hn) (by simp) (.block hs) h

theorem leads_line_block (done : List Func) {position : Position} {f : OpenFunc} {b : Block}
    (hs : position.settled? = some f) (hf : f.layout.getD .line = .line) (hb : b.Writable)
    (hshape : b.Shaped .line) (hfit : b.emitted.Fits) :
    ∃ q, Leads ⟨done, position⟩ ((b.texts .line).map String.toList) ⟨done, q⟩ ∧
      q.settled? = some (OpenFunc.push
        { f with layout := if b.emitted.shows then some .line else f.layout } b.emitted) := by
  have hemitted := Block.emitted_of_line hshape
  have htexts : b.lineTexts.map String.toList =
      b.emitted.lines.entries.map fun e => ("  " ++ e.1.repr ++ ": " ++ e.2.text).toList := by
    rw [Block.lineTexts, List.map_map]
    rfl
  have hkeys : ∀ e ∈ b.emitted.lines.entries, e.1 ≤ Text.lineLimit := by
    intro e he
    exact hb.lines e.1 (List.mem_map_of_mem (List.mem_filter.1 he).1)
  have hshows : b.emitted.shows = !b.emitted.lines.entries.isEmpty := by
    rw [hemitted]
    rfl
  obtain ⟨q, hq, hsettled⟩ := leads_lines done b.name hf hkeys hfit.2
  refine ⟨q, leads_named done hs hb.name (htexts ▸ hq), ?_⟩
  rw [hsettled, ← hemitted, hshows]
  cases b.emitted.lines.entries.isEmpty <;> rfl

theorem leads_span_block (done : List Func) {position : Position} {f : OpenFunc} {b : Block}
    (hs : position.settled? = some f) (hf : f.layout.getD .block = .block) (hb : b.Writable)
    (hshape : b.Shaped .block) (hfit : b.emitted.Fits) :
    ∃ q, Leads ⟨done, position⟩ ((b.texts .block).map String.toList) ⟨done, q⟩ ∧
      q.settled? = some (OpenFunc.push
        { f with layout := if b.emitted.shows then some .block else f.layout } b.emitted) := by
  cases hspan : b.span with
  | none =>
    have htexts : b.spanTexts = [] := by
      rw [Block.spanTexts, hspan]
    refine ⟨.block f b.name, leads_named done hs hb.name (htexts ▸ .nil), ?_⟩
    rw [Block.emitted_of_no_span hshape hspan]
    rfl
  | some s =>
    have hemitted := Block.emitted_of_span hshape hspan
    have htexts : b.spanTexts =
        ["  size: " ++ s.size.repr, "  from: " ++ s.start.text, "  to: " ++ s.stop.text] ++
          if b.emitted.tally.isEmpty then [] else ["  stat: " ++ b.emitted.tally.text] := by
      rw [← b.spanTexts_emitted, Block.spanTexts, hemitted]
    have hshows : b.emitted.shows = true := by
      rw [hemitted]
      rfl
    obtain ⟨q, hq, hsettled⟩ :=
      leads_span done b.name hf (hb.span s hspan) hfit.1 Block.emitted_tally_of_isEmpty
    refine ⟨q, leads_named done hs hb.name (htexts ▸ hq), ?_⟩
    rw [hsettled, ← hemitted, hshows]
    rfl

/-- A block is read back from its lines, and the function goes on after it. -/
theorem leads_block (done : List Func) {position : Position} {f : OpenFunc} {layout : Layout}
    {b : Block} (hs : position.settled? = some f) (hf : f.layout.getD layout = layout)
    (hb : b.Writable) (hshape : b.Shaped layout) (hfit : b.emitted.Fits) :
    ∃ q, Leads ⟨done, position⟩ ((b.texts layout).map String.toList) ⟨done, q⟩ ∧
      q.settled? = some (OpenFunc.push
        { f with layout := if b.emitted.shows then some layout else f.layout } b.emitted) := by
  cases layout with
  | line => exact leads_line_block done hs hf hb hshape hfit
  | block => exact leads_span_block done hs hf hb hshape hfit

theorem leads_blocks (done : List Func) {position : Position} {f : OpenFunc} {layout : Layout}
    {bs : List Block} (hs : position.settled? = some f) (hf : f.layout.getD layout = layout)
    (hb : ∀ b ∈ bs, b.Writable) (hshape : ∀ b ∈ bs, b.Shaped layout)
    (hfit : ∀ b ∈ bs, b.emitted.Fits) :
    ∃ q, Leads ⟨done, position⟩ ((bs.flatMap (·.texts layout)).map String.toList) ⟨done, q⟩ ∧
      q.settled? = some ⟨f.name, f.decl,
        if bs.any (·.emitted.shows) then some layout else f.layout,
        (bs.map Block.emitted).reverse ++ f.blocks⟩ := by
  induction bs generalizing position f with
  | nil => exact ⟨position, .nil, hs⟩
  | cons b bs ih =>
    obtain ⟨hb, hbs⟩ := List.forall_mem_cons.1 hb
    obtain ⟨hshape, hshapes⟩ := List.forall_mem_cons.1 hshape
    obtain ⟨hfit, hfits⟩ := List.forall_mem_cons.1 hfit
    obtain ⟨p, hp, hsettled⟩ := leads_block done hs hf hb hshape hfit
    -- a block that shows nothing leaves the layout open for those after it
    have hf' : (if b.emitted.shows then some layout else f.layout).getD layout = layout := by
      cases b.emitted.shows
      · exact hf
      · rfl
    obtain ⟨q, hq, hsettled'⟩ := ih hsettled hf' hbs hshapes hfits
    refine ⟨q, ?_, ?_⟩
    · rw [List.flatMap_cons, List.map_append]
      exact hp.append hq
    · rw [hsettled', List.any_cons, List.map_cons, List.reverse_cons, List.append_assoc]
      cases b.emitted.shows <;> cases bs.any (·.emitted.shows) <;> rfl

theorem mem_kept {f : Func} {b : Block} (h : b ∈ f.kept) : b ∈ f.blocks :=
  (List.mem_filter.1 h).1

/-- The layout of what is written is that of the function if anything shows it. -/
theorem emitted_layout {f : Func} (hf : f.Writable) : f.emitted.layout =
    (if f.kept.any (·.emitted.shows) then some f.layout else none).getD .line := by
  rw [Func.emitted]
  cases hl : f.layout with
  | line => cases f.kept.any (·.emitted.shows) <;> simp
  | block =>
    have hshows : ∀ b ∈ f.kept, b.emitted.shows = b.span.isSome := by
      intro b hb
      have hshape := hf.shaped b (mem_kept hb)
      rw [hl] at hshape
      rw [Block.shows, Block.emitted, hshape.1]
      simp [LineMap.filter, LineMap.empty]
    have hany : (f.kept.any (·.emitted.shows) = true) ↔ ∃ b ∈ f.kept, b.span.isSome = true := by
      rw [List.any_eq_true]
      constructor
      · intro h
        obtain ⟨b, hb, hs⟩ := h
        exact ⟨b, hb, hshows b hb ▸ hs⟩
      · intro h
        obtain ⟨b, hb, hs⟩ := h
        exact ⟨b, hb, (hshows b hb).symm ▸ hs⟩
    by_cases h : ∃ b ∈ f.kept, b.span.isSome = true
    · rw [if_pos ⟨rfl, h⟩, if_pos (hany.2 h)]
      rfl
    · rw [if_neg fun hb => h hb.2, if_neg fun ha => h (hany.1 ha)]
      rfl

/-- A function is read back from its lines, after those that have been read. -/
theorem leads_func {p : Progress} {done : List Func} {f : Func} (hs : p.settled? = some done)
    (hf : f.Writable) (hfit : f.emitted.Fits) :
    ∃ q, Leads p (f.texts.map String.toList) q ∧ q.settled? = some (f.emitted :: done) := by
  have hbody : (Position.body ⟨f.name, f.decl, none, []⟩).settled? =
      some ⟨f.name, f.decl, none, []⟩ := rfl
  have hlayout : (none : Option Layout).getD f.layout = f.layout := rfl
  obtain ⟨position, hq, hsettled⟩ := leads_blocks done hbody hlayout
    (fun b hb => hf.blocks b (mem_kept hb)) (fun b hb => hf.shaped b (mem_kept hb))
    fun b hb => hfit b.emitted (List.mem_map_of_mem hb)
  refine ⟨⟨done, position⟩, ?_, ?_⟩
  · exact .cons (Line.read_func hf.name) (by simp) (.func hs) <|
      .cons (Line.read_decl hf.decl) (by simp) .decl hq
  · rw [settled?_of_position hsettled, OpenFunc.close, List.append_nil, List.reverse_reverse,
      ← emitted_layout hf]
    rfl

theorem leads_funcs {p : Progress} {done fs : List Func} (hs : p.settled? = some done)
    (hf : ∀ f ∈ fs, f.Writable) (hfit : ∀ f ∈ fs, f.emitted.Fits) :
    ∃ q, Leads p ((fs.flatMap Func.texts).map String.toList) q ∧
      q.settled? = some ((fs.map Func.emitted).reverse ++ done) := by
  induction fs generalizing p done with
  | nil => exact ⟨p, .nil, hs⟩
  | cons f fs ih =>
    obtain ⟨hf, hfs⟩ := List.forall_mem_cons.1 hf
    obtain ⟨hfit, hfits⟩ := List.forall_mem_cons.1 hfit
    obtain ⟨r, hr, hsettled⟩ := leads_func hs hf hfit
    obtain ⟨q, hq, hsettled'⟩ := ih hsettled hfs hfits
    refine ⟨q, ?_, ?_⟩
    · rw [List.flatMap_cons, List.map_append]
      exact hr.append hq
    · rw [hsettled', List.map_cons, List.reverse_cons, List.append_assoc]
      rfl

end LineCost.Outline
