import LineCost.Proofs.Outline.Steps
import LineCost.Proofs.Totals

/-!
What is known of an outline that has been read: its names, places and numbers can be written and
read again, and each block holds only what the layout of its function provides for.
-/

namespace LineCost.Outline

/-- What is known of the span of a block that has been read. -/
structure Span.Readable (s : Span) : Prop where
  size : s.size ≤ Text.lineLimit
  start : s.start.Readable
  stop : s.stop.Readable

/-- A block whose lines can be read again. -/
structure Block.Writable (b : Block) : Prop where
  name : ReadableName b.name
  span : ∀ s, b.span = some s → s.Readable
  lines : ∀ n ∈ b.lines.lines, n ≤ Text.lineLimit

/-- A block that holds nothing that its layout leaves out. -/
def Block.Shaped : Layout → Block → Prop
  | .line, b => b.span = none ∧ b.tally = .zero
  | .block, b => b.lines = .empty ∧ (b.span = none → b.tally = .zero)

structure Func.Writable (f : Func) : Prop where
  name : ReadableName f.name
  decl : f.decl.Readable
  blocks : ∀ b ∈ f.blocks, b.Writable
  shaped : ∀ b ∈ f.blocks, b.Shaped f.layout

/-- A function that is still open may yet come to either layout that its blocks fit. -/
structure OpenFunc.Writable (f : OpenFunc) : Prop where
  name : ReadableName f.name
  decl : f.decl.Readable
  blocks : ∀ b ∈ f.blocks, b.Writable
  shaped : ∀ layout, f.layout.getD layout = layout → ∀ b ∈ f.blocks, b.Shaped layout

/-- What is known at each position of a reader. -/
def Position.Writable : Position → Prop
  | .outside => True
  | .func name => ReadableName name
  | .body f => f.Writable
  | .block f name => f.Writable ∧ ReadableName name
  | .size f name k => f.Writable ∧ f.layout = some .block ∧ ReadableName name ∧ k ≤ Text.lineLimit
  | .start f name k l =>
    f.Writable ∧ f.layout = some .block ∧ ReadableName name ∧ k ≤ Text.lineLimit ∧ l.Readable
  | .span f name s => f.Writable ∧ f.layout = some .block ∧ ReadableName name ∧ s.Readable
  | .tally f name s _ => f.Writable ∧ f.layout = some .block ∧ ReadableName name ∧ s.Readable
  | .lines f name m =>
    f.Writable ∧ f.layout = some .line ∧ ReadableName name ∧ ∀ n ∈ m.lines, n ≤ Text.lineLimit

structure Progress.Writable (p : Progress) : Prop where
  done : ∀ f ∈ p.done, f.Writable
  position : p.position.Writable

theorem OpenFunc.Writable.push {f : OpenFunc} {b : Block} (hf : f.Writable) (hb : b.Writable)
    (hs : ∀ layout, f.layout.getD layout = layout → b.Shaped layout) : (f.push b).Writable where
  name := hf.name
  decl := hf.decl
  blocks := by
    intro c hc
    rcases List.mem_cons.1 hc with h | h
    · exact h ▸ hb
    · exact hf.blocks c h
  shaped := by
    intro layout hl c hc
    rcases List.mem_cons.1 hc with h | h
    · exact h ▸ hs layout hl
    · exact hf.shaped layout hl c h

theorem OpenFunc.Writable.pushIn {f : OpenFunc} {b : Block} {layout : Layout} (hf : f.Writable)
    (hl : f.layout = some layout) (hb : b.Writable) (hs : b.Shaped layout) :
    (f.push b).Writable := by
  apply hf.push hb
  intro layout' he
  have h : layout = layout' := by simpa [hl] using he
  exact h ▸ hs

theorem OpenFunc.Writable.withLayout {f : OpenFunc} {layout : Layout} (hf : f.Writable)
    (h : f.layout.getD layout = layout) : { f with layout := some layout }.Writable where
  name := hf.name
  decl := hf.decl
  blocks := hf.blocks
  shaped := by
    intro layout' hl
    have he : layout = layout' := hl
    exact he ▸ hf.shaped layout h

theorem OpenFunc.Writable.close {f : OpenFunc} (hf : f.Writable) : f.close.Writable where
  name := hf.name
  decl := hf.decl
  blocks := by
    intro b hb
    exact hf.blocks b (List.mem_reverse.1 hb)
  shaped := by
    intro b hb
    apply hf.shaped (f.layout.getD .line)
    · cases f.layout <;> rfl
    · exact List.mem_reverse.1 hb

/-- A block under which nothing stands goes with either layout. -/
theorem Block.shaped_named (name : String) (layout : Layout) : (named name).Shaped layout := by
  cases layout with
  | line => exact ⟨rfl, rfl⟩
  | block => exact ⟨rfl, fun _ => rfl⟩

theorem Block.writable_named {name : String} (h : ReadableName name) : (named name).Writable where
  name := h
  span := by
    intro s hs
    cases hs
  lines := by
    intro n hn
    cases hn

theorem Block.writable_spanned {name : String} {s : Span} (h : ReadableName name) (hs : s.Readable)
    (t : Tally) : { named name with span := some s, tally := t }.Writable :=
  { writable_named h with span := fun _ he => Option.some.inj he ▸ hs }

theorem Position.Writable.settled {position : Position} {f : OpenFunc} (h : position.Writable)
    (hs : position.settled? = some f) : f.Writable := by
  cases position with
  | body g =>
    cases hs
    exact h
  | block g name =>
    cases hs
    exact h.1.push (Block.writable_named h.2) fun layout _ => Block.shaped_named name layout
  | span g name s =>
    cases hs
    obtain ⟨hg, hl, hn, hr⟩ := h
    exact hg.pushIn hl (Block.writable_spanned hn hr .zero) ⟨rfl, fun _ => rfl⟩
  | tally g name s t =>
    cases hs
    obtain ⟨hg, hl, hn, hr⟩ := h
    apply hg.pushIn hl (Block.writable_spanned hn hr t)
    exact ⟨rfl, fun hnone => absurd hnone (by simp)⟩
  | lines g name m =>
    cases hs
    obtain ⟨hg, hl, hn, hm⟩ := h
    apply hg.pushIn hl
    · exact { Block.writable_named hn with lines := hm }
    · exact ⟨rfl, rfl⟩
  | _ => cases hs

theorem Progress.Writable.settled {p : Progress} {done : List Func} (h : p.Writable)
    (hs : p.settled? = some done) : ∀ f ∈ done, f.Writable := by
  rcases settled?_eq_some hs with ⟨_, hd⟩ | ⟨g, hg, hd⟩
  · exact hd ▸ h.done
  · intro f hf
    rcases List.mem_cons.1 (hd ▸ hf) with he | hf
    · exact he ▸ (h.position.settled hg).close
    · exact h.done f hf

theorem Progress.Writable.advances {p q : Progress} {line : Line} (hp : p.Writable)
    (hl : line.Readable) (h : Advances p line q) : q.Writable := by
  obtain ⟨hd, hpos⟩ := hp
  cases h with
  | func h => exact ⟨Progress.Writable.settled ⟨hd, hpos⟩ h, hl⟩
  | decl => exact ⟨hd, hpos, hl, by simp, by simp⟩
  | block h => exact ⟨hd, hpos.settled h, hl⟩
  | size h => exact ⟨hd, hpos.1.withLayout h, rfl, hpos.2, hl⟩
  | start => exact ⟨hd, hpos.1, hpos.2.1, hpos.2.2.1, hpos.2.2.2, hl⟩
  | stop =>
    obtain ⟨hf, hlayout, hname, hk, hfirst⟩ := hpos
    exact ⟨hd, hf, hlayout, hname, hk, hfirst, hl⟩
  | tally => exact ⟨hd, hpos⟩
  | firstEntry h =>
    refine ⟨hd, hpos.1.withLayout h, rfl, hpos.2, ?_⟩
    intro n hn
    rcases LineMap.mem_lines_addAt.1 hn with h | h
    · exact h ▸ hl
    · cases h
  | nextEntry =>
    refine ⟨hd, hpos.1, hpos.2.1, hpos.2.2.1, ?_⟩
    intro n hn
    rcases LineMap.mem_lines_addAt.1 hn with h | h
    · exact h ▸ hl
    · exact hpos.2.2.2 n h

theorem Progress.Writable.leads {p q : Progress} {ls : List (List Char)} (hp : p.Writable)
    (hls : ∀ l ∈ ls, '\n' ∉ l) (h : Leads p ls q) : q.Writable := by
  induction h with
  | nil => exact hp
  | cons hl hb ha _ ih =>
    rcases Line.readable_of_read (hls _ List.mem_cons_self) hl with hline | hblank
    · exact ih (hp.advances hline ha) fun l hm => hls l (List.mem_cons_of_mem _ hm)
    · exact absurd hblank.1 hb

/-- Whatever has been read can be written and read again. -/
theorem writable_of_read {text : String} {fs : List Func} (h : read text = .ok fs) :
    ∀ f ∈ fs, f.Writable := by
  obtain ⟨front, rest, q, hls, hleads, hs, _⟩ := read_eq_ok_iff.1 h
  have hstart : Progress.start.Writable := ⟨by simp [Progress.start], trivial⟩
  have hfront : ∀ l ∈ front, '\n' ∉ l := by
    intro l hl
    exact Text.newline_not_mem_of_mem_lines (hls ▸ List.mem_append_left _ hl)
  intro f hf
  exact (hstart.leads hfront hleads).settled hs f (List.mem_reverse.2 hf)

end LineCost.Outline
