import LineCost.Cost.Builtin
import LineCost.Proofs.Listing.Rows
import LineCost.Proofs.Listing.Sections
import Mathlib.Data.List.Forall2

/-!
Every instruction of a listing is counted once in its block and, from the first location on, once on
its row.
-/

namespace LineCost.Listing

/-- The costs of a function are those of the given lines, by block and by row. -/
structure ExactlyCosted (table : Table) (ls : List Line) (f : Func) : Prop where
  blocks : f.blocks.map Block.account = accounts table ls
  total : f.total = costs table ls
  lines : ∀ r, f.lines.get? r = if costsAt table ls r = [] then none
    else some (Tally.sum ((costsAt table ls r).map Tally.ofCost))
  valid : ∀ r ∈ f.lines.lines, 1 ≤ r
  located : f.lines.total + costs table (beforeFirst ls) = f.total

namespace Line

theorem place?_ne_nil {s : List Char} {p : List Char × List Char} (h : place? s = some p) :
    p.1 ≠ [] := by
  cases s with
  | nil => cases h
  | cons c rest =>
    rw [place?] at h
    split at h
    · cases h
    · split at h
      · rw [← Option.some.inj h]
        simp
      · obtain ⟨q, _, hq⟩ := Option.map_eq_some_iff.1 h
        rw [← hq]
        simp

theorem comment?_ne_nil {s : List Char} {p : List Char × List Char} (h : comment? s = some p) :
    p.1 ≠ [] := by
  induction s with
  | nil => cases h
  | cons c rest ih =>
    rw [comment?] at h
    split at h
    · rename_i q hq
      split at hq
      · simp only [Option.bind_eq_bind, Option.bind_eq_some_iff] at hq
        obtain ⟨_, _, _, _, hplace⟩ := hq
        exact Option.some.inj h ▸ place?_ne_nil hplace
      · cases hq
    · split at h
      · cases h
      · exact ih h

theorem loc?_ne_nil {s : List Char} {p : List Char × List Char} (h : loc? s = some p) :
    p.1 ≠ [] := by
  simp only [loc?, Option.bind_eq_bind, Option.bind_eq_some_iff] at h
  obtain ⟨_, _, _, _, _, _, _, _, _, _, _, _, _, _, _, _, h⟩ := h
  exact comment?_ne_nil h

/-- A location that is read from a line names a file. -/
theorem file_ne_empty {s : List Char} {file : String} {n : Nat} (h : read s = .loc file n) :
    file ≠ "" := by
  rw [read] at h
  split at h
  · cases h
  · split at h
    · cases h
    · split at h
      · cases h
      · split at h
        · rename_i name row hloc
          split at h
          · obtain ⟨hfile, _⟩ := Line.loc.inj h
            intro he
            have hnil : name = [] := by
              rw [← String.toList_ofList (l := name), hfile, he]
              rfl
            exact loc?_ne_nil hloc hnil
          · cases h
        · split at h
          · split at h <;> cases h
          · split at h <;> cases h

end Line

theorem mem_of_bracketed {ls : List Line} {parts : List Section} (h : Bracketed ls parts)
    {s : Section} (hs : s ∈ parts) {line : Line} (hl : line ∈ s.lines) : line ∈ ls := by
  induction h with
  | nil => cases hs
  | outer _ _ ih => exact List.mem_cons_of_mem _ (ih hs)
  | func _ _ ih =>
    rcases List.mem_cons.1 hs with h | h
    · subst h
      exact List.mem_cons_of_mem _ (List.mem_append_left _ hl)
    · exact List.mem_cons_of_mem _ (List.mem_append_right _ (List.mem_cons_of_mem _ (ih h)))

theorem Line.rowIn?_pos {own : Option String} {line : Line} {r : Nat}
    (h : line.rowIn? own = some r) : 1 ≤ r := by
  obtain ⟨l, hl, hr⟩ := Option.map_eq_some_iff.1 h
  have hloc := (Option.filter_eq_some_iff.1 hl).1
  cases line with
  | loc file n =>
    rw [Line.location?] at hloc
    split at hloc
    · cases hloc
    · rw [← hr, ← Option.some.inj hloc]
      show 1 ≤ n
      omega
  | _ => cases hloc

theorem rowBefore_pos {ls : List Line} {i r : Nat} (h : rowBefore ls i = some r) : 1 ≤ r := by
  obtain ⟨line, _, hrow⟩ := List.mem_filterMap.1 (List.mem_of_getLast? h)
  exact Line.rowIn?_pos hrow

theorem pos_of_costsAt {table : Table} {ls : List Line} {r : Nat} (h : costsAt table ls r ≠ []) :
    1 ≤ r := by
  obtain ⟨c, hc⟩ := List.exists_mem_of_ne_nil _ h
  obtain ⟨e, he, _⟩ := List.mem_map.1 hc
  obtain ⟨hlocated, hrow⟩ := List.mem_filter.1 he
  obtain ⟨l, _, hl⟩ := List.mem_filterMap.1 hlocated
  obtain ⟨d, _, hd⟩ := Option.map_eq_some_iff.1 hl
  rw [← hd] at hrow
  exact rowBefore_pos (of_decide_eq_true hrow)

theorem Section.exactlyCosted (table : Table) {s : Section} (h : ∀ n, Line.loc "" n ∉ s.lines) :
    ExactlyCosted table s.lines (s.func table) := by
  have hlocated := located_foldl table h
  have htotal := s.total_func table
  refine ⟨s.account_blocks table, htotal, hlocated.lines, ?_, ?_⟩
  · intro r hr
    obtain ⟨t, ht⟩ := LineMap.mem_lines_iff.1 hr
    have hne : costsAt table s.lines r ≠ [] := by
      intro hnil
      have hget : (s.func table).lines.get? r = _ := hlocated.lines r
      rw [ht, if_pos hnil] at hget
      cases hget
    exact pos_of_costsAt hne
  · rw [htotal]
    exact hlocated.total

/-- Each function of a listing that is read costs exactly what the instructions between its marks
cost with the table for the listing. -/
theorem read_exactlyCosted {catalog : Catalog} {cpu : Option String} {text : String}
    {fs : List Func} (h : read catalog cpu text = .ok fs) :
    ∃ parts, Bracketed ((Text.lines text.toList).map Line.read) parts ∧
      List.Forall₂ (fun s f => f.name = s.name ∧ ExactlyCosted
        (tableFor catalog cpu ((Text.lines text.toList).map Line.read)) s.lines f) parts fs := by
  rw [read] at h
  cases hs : sections ((Text.lines text.toList).map Line.read) with
  | error e =>
    rw [hs] at h
    cases h
  | ok parts =>
    rw [hs] at h
    have hb := sections_eq_ok_iff.1 hs
    refine ⟨parts, hb, ?_⟩
    rw [← Except.ok.inj h, List.forall₂_map_right_iff, List.forall₂_same]
    intro s hsm
    refine ⟨rfl, ?_⟩
    apply Section.exactlyCosted
    intro n hn
    obtain ⟨l, _, hl⟩ := List.mem_map.1 (mem_of_bracketed hb hsm hn)
    exact Line.file_ne_empty hl rfl

/-- An instruction before any location, one in another file and one on line 0. -/
def wandering : String :=
  "\t.cpu cortex-a57\n// -- Begin function f\n\tldr\tx0, [x1]\n\t.loc\t1 10 0 // f.c:10:0\n" ++
  "\tnop\n// %bb.1: // %next\n\t.loc\t2 5 0 // util.h:5:0\n\tldr\tx0, [x1]\n" ++
  "\t.loc\t1 0 0 // f.c:0:0\n\tnop\n\t.loc\t1 11 0 // f.c:11:0\n\tnop\n// -- End function\n"

def wanderingFunc : Func :=
  ⟨"f", ⟨"f.c", 10⟩,
    [⟨none, "entry", some (.point 10), ⟨0, 1, 0, 0, 0, 1, 5⟩⟩,
      ⟨some 1, "next", some (.point 11), ⟨0, 1, 0, 0, 0, 2, 6⟩⟩],
    .ofList [(10, ⟨0, 1, 0, 0, 0, 2, 6⟩), (11, ⟨0, 0, 0, 0, 0, 1, 1⟩)]⟩

theorem read_exactlyCosted_wandering :
    read Catalog.builtin none wandering = .ok [wanderingFunc] ∧
      ∃ parts, Bracketed ((Text.lines wandering.toList).map Line.read) parts ∧
        List.Forall₂ (fun s f => f.name = s.name ∧ ExactlyCosted
          (tableFor Catalog.builtin none ((Text.lines wandering.toList).map Line.read)) s.lines f)
          parts [wanderingFunc] := by
  have h : read Catalog.builtin none wandering = .ok [wanderingFunc] := by decide +kernel
  exact ⟨h, read_exactlyCosted h⟩

end LineCost.Listing
