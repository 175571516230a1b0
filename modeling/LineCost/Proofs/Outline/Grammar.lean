import LineCost.Proofs.Outline.Checked
import LineCost.Proofs.Outline.Declared
import LineCost.Proofs.Outline.Front

/-!
A text can be read as an outline exactly if its lines before the first blank one declare functions,
none of which mixes the layouts, and what is read is what they declare. `Holds` says what the lines
read so far have declared, which every line keeps to; the other way round, there is a path for every
declaration.
-/

namespace LineCost.Outline

open Progress

/-- A row of lines that fit one after the other. -/
inductive Path : Progress → List Line → Progress → Prop where
  | nil {p : Progress} : Path p [] p
  | cons {p q r : Progress} {line : Line} {rest : List Line} (ha : Advances p line q)
    (hr : Path q rest r) : Path p (line :: rest) r

theorem Path.append {p q r : Progress} {a b : List Line} (ha : Path p a q) (hb : Path q b r) :
    Path p (a ++ b) r := by
  induction ha with
  | nil => exact hb
  | cons ha _ ih => exact .cons ha (ih hb)

/-- Because of one more block, of which only the beginning has been read, an open function shows a
layout. -/
def Shows (d : FuncDecl) (layout : Layout) (f : OpenFunc) : Prop :=
  d.layout?.getD layout = layout ∧ f = { d.opened with layout := some layout }

/-- The statement `position.Follows d ls` says that the lines `ls` lead to the position, where `d` is
the function around it with the blocks that are complete. -/
def Position.Follows (d : FuncDecl) : Position → List Line → Prop
  | .body f, ls => f = d.opened ∧ ls = d.lines
  | .block f name, ls => f = d.opened ∧ ls = d.lines ++ [.block name]
  | .size f name k, ls => Shows d .block f ∧ ls = d.lines ++ [.block name, .size k]
  | .start f name k first, ls =>
    Shows d .block f ∧ ls = d.lines ++ [.block name, .size k, .start first]
  | .span f name s, ls => Shows d .block f ∧ ls = d.lines ++ BlockDecl.lines ⟨name, .span s none⟩
  | .tally f name s t, ls =>
    Shows d .block f ∧ ls = d.lines ++ BlockDecl.lines ⟨name, .span s (some t)⟩
  | .lines f name m, ls => ∃ first rest, Shows d .line f ∧ m = .gather (first :: rest) ∧
    ls = d.lines ++ BlockDecl.lines ⟨name, .entries first rest⟩
  | _, _ => False

/-- What has been read after the functions that are complete. -/
def Position.Holds : Position → List Line → Prop
  | .outside, ls => ls = []
  | .func name, ls => ls = [.func name]
  | position, ls => ∃ d : FuncDecl, d.Uniform ∧ position.Follows d ls

/-- The lines that have been read declare the functions that are complete, and what is open. -/
def Progress.Holds (p : Progress) (ls : List Line) : Prop :=
  ∃ (ds : List FuncDecl) (rest : List Line), (∀ d ∈ ds, d.Uniform) ∧ p.done.reverse = ds.map FuncDecl.func ∧
    ls = ds.flatMap FuncDecl.lines ++ rest ∧ p.position.Holds rest

section Soundness

variable {d : FuncDecl} {f : OpenFunc} {b : BlockDecl} {layout : Layout}

theorem opened_push_nothing (d : FuncDecl) (name : String) :
    d.opened.push (.named name) = (d.push ⟨name, .nothing⟩).opened := by
  have hlayout : (d.push ⟨name, .nothing⟩).layout? = d.layout? := by
    rw [FuncDecl.layout?_push]
    exact Option.or_none
  rw [FuncDecl.opened, FuncDecl.opened, hlayout, FuncDecl.push, List.map_append,
    List.reverse_append]
  rfl

theorem Shows.push (h : Shows d layout f) (hb : b.body.layout? = some layout) :
    f.push b.block = (d.push b).opened := by
  obtain ⟨hl, rfl⟩ := h
  have hlayout : (d.push b).layout? = some layout := by
    rw [FuncDecl.layout?_push, hb]
    cases hd : d.layout? with
    | none => rfl
    | some l =>
      rw [hd] at hl
      exact congrArg some hl
  rw [FuncDecl.opened, FuncDecl.opened, hlayout, FuncDecl.push, List.map_append,
    List.reverse_append]
  rfl

/-- Once the block is complete, it is one of the function's. -/
theorem Shows.declared (h : Shows d layout f) (hd : d.Uniform) (hb : b.body.layout? = some layout) :
    ∃ c : FuncDecl, c.Uniform ∧ f.push b.block = c.opened ∧ d.lines ++ b.lines = c.lines := by
  refine ⟨d.push b, FuncDecl.uniform_push_iff.2 ⟨hd, ?_⟩, h.push hb, (d.lines_push b).symm⟩
  intro l hl
  obtain rfl := Option.some.inj (hb.symm.trans hl)
  exact h.1

/-- Where a function may go on or end, it is declared by what has been read. -/
theorem Position.Holds.settled {position : Position} {ls : List Line} (h : position.Holds ls)
    (hs : position.settled? = some f) : ∃ d : FuncDecl, d.Uniform ∧ f = d.opened ∧ ls = d.lines := by
  cases position with
  | body g =>
    cases hs
    exact h
  | block g name =>
    cases hs
    obtain ⟨d, hd, rfl, rfl⟩ := h
    refine ⟨d.push ⟨name, .nothing⟩, ?_, opened_push_nothing d name, ?_⟩
    · refine FuncDecl.uniform_push_iff.2 ⟨hd, ?_⟩
      intro l hl
      cases hl
    · rw [FuncDecl.lines_push]
      rfl
  | span g name s =>
    cases hs
    obtain ⟨d, hd, hg, rfl⟩ := h
    exact hg.declared (b := ⟨name, .span s none⟩) hd rfl
  | tally g name s t =>
    cases hs
    obtain ⟨d, hd, hg, rfl⟩ := h
    exact hg.declared (b := ⟨name, .span s (some t)⟩) hd rfl
  | lines g name m =>
    cases hs
    obtain ⟨d, hd, first, rest, hg, rfl, rfl⟩ := h
    exact hg.declared (b := ⟨name, .entries first rest⟩) hd rfl
  | _ => cases hs

theorem Progress.Holds.settled {p : Progress} {ls : List Line} {done : List Func} (h : p.Holds ls)
    (hs : p.settled? = some done) : ∃ ds : List FuncDecl, (∀ d ∈ ds, d.Uniform) ∧
      done.reverse = ds.map FuncDecl.func ∧ ls = ds.flatMap FuncDecl.lines := by
  obtain ⟨ds, rest, hds, hdone, rfl, hrest⟩ := h
  rcases settled?_eq_some hs with ⟨hp, rfl⟩ | ⟨f, hf, rfl⟩
  · have hnil : rest = [] := by
      rwa [hp] at hrest
    exact ⟨ds, hds, hdone, by rw [hnil, List.append_nil]⟩
  · obtain ⟨d, hd, rfl, rfl⟩ := hrest.settled hf
    refine ⟨ds ++ [d], ?_, ?_, ?_⟩
    · intro c hc
      rcases List.mem_append.1 hc with hc | hc
      · exact hds c hc
      · exact List.mem_singleton.1 hc ▸ hd
    · rw [List.reverse_cons, hdone, FuncDecl.close_opened, List.map_append]
      rfl
    · rw [List.flatMap_append, List.flatMap_singleton]

theorem Progress.Holds.advances {p q : Progress} {ls : List Line} {line : Line} (h : p.Holds ls)
    (ha : Advances p line q) : q.Holds (ls ++ [line]) := by
  cases ha with
  | @func _ name _ hs =>
    obtain ⟨ds, hds, hdone, rfl⟩ := h.settled hs
    exact ⟨ds, [.func name], hds, hdone, rfl, rfl⟩
  | @decl done name l =>
    obtain ⟨ds, _, hds, hdone, rfl, rfl⟩ := h
    have huniform : (FuncDecl.mk name l []).Uniform := by
      intro hmixed
      obtain ⟨⟨b, hb, _⟩, _⟩ := hmixed
      cases hb
    exact ⟨ds, [.func name, .decl l], hds, hdone, by simp, ⟨name, l, []⟩, huniform, rfl, rfl⟩
  | block hs =>
    obtain ⟨ds, _, hds, hdone, rfl, hrest⟩ := h
    obtain ⟨d, hd, rfl, rfl⟩ := hrest.settled hs
    exact ⟨ds, _, hds, hdone, List.append_assoc _ _ _, d, hd, rfl, rfl⟩
  | size hl =>
    obtain ⟨ds, _, hds, hdone, rfl, d, hd, rfl, rfl⟩ := h
    exact ⟨ds, _, hds, hdone, List.append_assoc _ _ _, d, hd, ⟨hl, rfl⟩, by simp⟩
  | start =>
    obtain ⟨ds, _, hds, hdone, rfl, d, hd, hf, rfl⟩ := h
    exact ⟨ds, _, hds, hdone, List.append_assoc _ _ _, d, hd, hf, by simp⟩
  | stop =>
    obtain ⟨ds, _, hds, hdone, rfl, d, hd, hf, rfl⟩ := h
    exact ⟨ds, _, hds, hdone, List.append_assoc _ _ _, d, hd, hf, by
      simp [BlockDecl.lines, Body.lines]⟩
  | tally =>
    obtain ⟨ds, _, hds, hdone, rfl, d, hd, hf, rfl⟩ := h
    exact ⟨ds, _, hds, hdone, List.append_assoc _ _ _, d, hd, hf, by
      simp [BlockDecl.lines, Body.lines]⟩
  | @firstEntry done f name k t hl =>
    obtain ⟨ds, _, hds, hdone, rfl, d, hd, rfl, rfl⟩ := h
    exact ⟨ds, _, hds, hdone, List.append_assoc _ _ _, d, hd, (k, t), [], ⟨hl, rfl⟩, rfl, by
      simp [BlockDecl.lines, Body.lines]⟩
  | @nextEntry done f name m k t =>
    obtain ⟨ds, _, hds, hdone, rfl, d, hd, first, entries, hf, rfl, rfl⟩ := h
    refine ⟨ds, _, hds, hdone, List.append_assoc _ _ _, d, hd, first, entries ++ [(k, t)], hf, ?_,
      ?_⟩
    · exact (LineMap.gather_append (first :: entries) (k, t)).symm
    · simp [BlockDecl.lines, Body.lines]

theorem Progress.Holds.path {p q : Progress} {ls rest : List Line} (h : p.Holds ls)
    (hp : Path p rest q) : q.Holds (ls ++ rest) := by
  induction hp generalizing ls with
  | nil => rwa [List.append_nil]
  | cons ha _ ih =>
    have hnext := ih (h.advances ha)
    rwa [List.append_assoc] at hnext

end Soundness

section Completeness

variable {done : List Func} {position : Position}

end Completeness

section Counters

variable {d : FuncDecl} {ds : List FuncDecl} {text : String}

end Counters

end LineCost.Outline
