import LineCost.Proofs.Listing.RowCosts

/-!
The blocks of a function and the source lines that they cover. A block covers the rows of the
locations in the function's own file that stand between its opening and the next one. A first block
without any covers the line of the declaration.
-/

namespace LineCost.Listing

/-- Where a block opens: its number and its name, and the lines from there up to the next
opening. -/
structure Opening where
  id : Option Nat
  name : String
  lines : List Line

/-- The lines before the first label open a block at their first instruction. -/
def implicitOpening? (ls : List Line) : Option Opening :=
  match ls.dropWhile (!·.isInstruction) with
  | [] => none
  | line :: rest => some ⟨none, "entry", line :: rest⟩

def Stretch.opening (s : Stretch) : Opening :=
  ⟨some s.id, s.name.getD ("bb." ++ s.id.repr), s.lines⟩

def openings (ls : List Line) : List Opening :=
  (implicitOpening? (stretches ls).1).toList ++ (stretches ls).2.map Stretch.opening

/-- The rows of the locations in a file. -/
def rowsIn (own : Option String) (ls : List Line) : List Nat := ls.filterMap (Line.rowIn? own)

/-- The smallest interval that includes all rows, and none if there are no rows. -/
def Spans (rows : List Nat) : Option Interval → Prop
  | none => rows = []
  | some i => rows ≠ [] ∧ (∀ r ∈ rows, i.includes r = true) ∧
    ∀ j : Interval, (∀ r ∈ rows, j.includes r = true) → j.contains i = true

/-- The blocks of a function cover what the given lines say. -/
structure Extents (ls : List Line) (f : Func) : Prop where
  decl : f.decl = (firstLocation? ls).getD ⟨"", 0⟩
  blocks : f.blocks.map (fun b => (b.id, b.name)) = (openings ls).map fun o => (o.id, o.name)
  ranges : ∀ k o b, (openings ls)[k]? = some o → f.blocks[k]? = some b →
    if k = 0 ∧ rowsIn (ownFile? ls) o.lines = [] ∧ 0 < f.decl.line
    then b.range = some (.point f.decl.line) else Spans (rowsIn (ownFile? ls) o.lines) b.range
  valid : ∀ b ∈ f.blocks, ∀ i, b.range = some i → 1 ≤ i.first ∧ i.first ≤ i.last

/-- A range that has grown by a row. -/
def covered (range : Option Interval) (n : Nat) : Option Interval :=
  some ((range.map (·.extend n)).getD (.point n))

/-- What is said of a block apart from its costs. -/
abbrev Extent := Option Nat × String × Option Interval

def Block.extent (b : Block) : Extent := (b.id, b.name, b.range)

def Opening.extent (own : Option String) (o : Opening) : Extent :=
  (o.id, o.name, (rowsIn own o.lines).foldl covered none)

/-- What more lines without labels do to the extents: the block that stands last covers their rows,
or is made if there is none and an instruction asks for it. -/
def spread (own : Option String) (ls : List Line) : List Extent → List Extent
  | [] => (implicitOpening? ls).toList.map (Opening.extent own)
  | (id, name, range) :: before => (id, name, (rowsIn own ls).foldl covered range) :: before

theorem spread_nil (own : Option String) (es : List Extent) : spread own [] es = es := by
  cases es <;> rfl

theorem implicitOpening?_of_instruction {line : Line} (h : line.isInstruction = true)
    (ls : List Line) : implicitOpening? (line :: ls) = some ⟨none, "entry", line :: ls⟩ := by
  simp [implicitOpening?, h]

theorem implicitOpening?_of_not_instruction {line : Line} (h : line.isInstruction = false)
    (ls : List Line) : implicitOpening? (line :: ls) = implicitOpening? ls := by
  simp [implicitOpening?, h]

theorem rowsIn_cons (own : Option String) (line : Line) (ls : List Line) :
    rowsIn own (line :: ls) = rowsIn own [line] ++ rowsIn own ls :=
  List.filterMap_append (l := [line])

theorem rowsIn_instruction {line : Line} (h : line.isInstruction = true) (own : Option String) :
    rowsIn own [line] = [] := by
  cases line with
  | instruction mnemonic => rfl
  | _ => cases h

theorem spread_cons (own : Option String) (line : Line) (ls : List Line) (es : List Extent) :
    spread own (line :: ls) es = spread own ls (spread own [line] es) := by
  cases es with
  | cons e es => rw [spread, spread, spread, rowsIn_cons, List.foldl_append]
  | nil =>
    cases h : line.isInstruction with
    | true =>
      have hrows := rowsIn_instruction h own
      simp [spread, implicitOpening?_of_instruction h, Opening.extent, rowsIn_cons own line ls,
        hrows]
    | false =>
      have hnone : implicitOpening? [line] = none := implicitOpening?_of_not_instruction h []
      simp [spread, implicitOpening?_of_not_instruction h ls, hnone]

/-- A line that is neither an instruction nor a location in the own file changes no extent. -/
theorem spread_idle {own : Option String} {line : Line} (hi : line.isInstruction = false)
    (hr : rowsIn own [line] = []) (es : List Extent) : spread own [line] es = es := by
  have hnone : implicitOpening? [line] = none := implicitOpening?_of_not_instruction hi []
  cases es <;> simp [spread, hnone, hr]

namespace Trace

def extents (t : Trace) : List Extent := t.blocks.map Block.extent

/-- The file that is the function's own for a trace with some lines to come. Before the first
location that is not known yet, but which file it will be is settled by the lines. -/
def ownFrom (t : Trace) (ls : List Line) : Option String :=
  if t.decl.file.isEmpty then ownFile? ls else some t.decl.file

/-- The lines to come name files, and the own file is the given one. -/
def Fits (own : Option String) (t : Trace) (ls : List Line) : Prop :=
  (∀ n, Line.loc "" n ∉ ls) ∧ t.ownFrom ls = own

variable {own : Option String} {t : Trace} {line : Line} {ls : List Line}

theorem ownFrom_of_none (h : line.location? = none) : t.ownFrom (line :: ls) = t.ownFrom ls := by
  simp [ownFrom, ownFile?, firstLocation?, h]

theorem decl_step_of_none (table : Table) (h : line.location? = none) :
    (t.step table line).decl = t.decl := by
  cases line with
  | loc file n =>
    have hn : n = 0 := by simpa [Line.location?] using h
    rw [step, locate, if_pos hn]
  | instruction mnemonic => exact (t.count_fields _).1
  | _ => rfl

theorem decl_locate (t : Trace) (file : String) {n : Nat} (h : n ≠ 0) :
    (t.locate file n).decl = t.declAt file n := by
  rw [locate_eq t file h]
  split
  · rw [decl_onCurrent]
  · rfl

/-- From the first location on, its file is the own one, and before that it is still to come. -/
theorem ownFrom_loc {file : String} {n : Nat} (hfile : file ≠ "") (h : n ≠ 0) :
    t.ownFrom (.loc file n :: ls) = some (t.declAt file n).file ∧
      (t.declAt file n).file ≠ "" := by
  have hloc : (Line.loc file n).location? = some ⟨file, n⟩ := by
    rw [Line.location?, if_neg h]
  by_cases hd : t.decl.file = ""
  · simp [ownFrom, ownFile?, firstLocation?, declAt, hloc, hd, hfile]
  · simp [ownFrom, declAt, hd]

theorem Fits.step (table : Table) (h : Fits own t (line :: ls)) :
    Fits own (t.step table line) ls := by
  obtain ⟨hfiles, hown⟩ := h
  refine ⟨fun n hn => hfiles n (List.mem_cons_of_mem _ hn), ?_⟩
  cases hloc : line.location? with
  | none =>
    rw [← hown, ownFrom_of_none hloc, ownFrom, decl_step_of_none table hloc, ownFrom]
  | some l =>
    cases line with
    | loc file n =>
      have hn : n ≠ 0 := by
        rintro rfl
        cases hloc
      have hfile : file ≠ "" := fun he => hfiles n (he ▸ List.mem_cons_self)
      obtain ⟨hdecl, hne⟩ := ownFrom_loc hfile hn
      rw [← hown, hdecl, Trace.step, ownFrom, decl_locate t file hn, if_neg (by simpa using hne)]
    | _ => cases hloc

/-- A location in the own file grows the block that stands last. -/
theorem extents_cover {n : Nat} (hi : line.isInstruction = false) (hr : rowsIn own [line] = [n])
    (t : Trace) : (t.onCurrent (·.cover n)).extents = spread own [line] t.extents := by
  have hnone : implicitOpening? [line] = none := implicitOpening?_of_not_instruction hi []
  cases hb : t.blocks with
  | nil => simp [onCurrent, extents, hb, spread, hnone]
  | cons b before =>
    simp only [onCurrent, extents, hb, List.map_cons, Block.extent, spread, hr]
    rfl

theorem extents_locate {file : String} {n : Nat} (h : Fits own t (.loc file n :: ls)) :
    (t.locate file n).extents = spread own [.loc file n] t.extents := by
  by_cases hn : n = 0
  · subst hn
    rw [locate, if_pos rfl, spread_idle rfl rfl]
  · obtain ⟨hfiles, hown⟩ := h
    have hfile : file ≠ "" := fun he => hfiles n (he ▸ List.mem_cons_self)
    have hrows : rowsIn own [.loc file n] = if (t.declAt file n).file = file then [n] else [] := by
      rw [← hown, (ownFrom_loc hfile hn).1]
      by_cases he : (t.declAt file n).file = file <;>
        simp [rowsIn, Line.rowIn?, Line.location?, hn, Option.filter, he]
    rw [locate_eq t file hn]
    split
    · rename_i he
      rw [if_pos he] at hrows
      rw [extents_cover rfl hrows]
      rfl
    · rename_i he
      rw [if_neg he] at hrows
      rw [spread_idle rfl hrows]
      rfl

theorem extents_count (t : Trace) (c : Cost) :
    (t.count c).extents = if t.extents.isEmpty then [(none, "entry", none)] else t.extents := by
  rw [extents, blocks_count, extents, opened]
  cases hb : t.blocks with
  | nil => rfl
  | cons b before =>
    simp only [List.isEmpty_cons, Bool.false_eq_true, if_false, onCurrent, hb]
    rfl

theorem extents_step (table : Table) (h : Fits own t (line :: ls))
    (hl : ∀ id name, line ≠ .label id name) :
    (t.step table line).extents = spread own [line] t.extents := by
  cases line with
  | loc file n => exact extents_locate h
  | instruction mnemonic =>
    rw [step, extents_count]
    cases t.extents with
    | nil => rfl
    | cons e es => rfl
  | label id name => exact absurd rfl (hl id name)
  | _ => exact (spread_idle rfl rfl t.extents).symm

/-- Each label opens a block of its own, and what comes before the first goes to the last of those
that are there. -/
theorem extents_foldl (table : Table) (h : Fits own t ls) :
    (ls.foldl (step table) t).extents =
      ((stretches ls).2.map fun s => s.opening.extent own).reverse ++
        spread own (stretches ls).1 t.extents := by
  refine foldl_stretches (Fits own) (spread_nil own) (spread_cons own) ?_ ?_ ?_ ls h
  · intro t id name ls
    rfl
  · intro t line ls h hl
    exact extents_step table h hl
  · intro t line ls h
    exact h.step table

end Trace

/-- The range of a first block that covers nothing is the line of the declaration, if there is
one. -/
def backfill (row : Nat) : List Extent → List Extent
  | (id, name, none) :: rest => (id, name, if 0 < row then some (.point row) else none) :: rest
  | es => es

theorem backfill_getElem? (row : Nat) (es : List Extent) (k : Nat) :
    (backfill row es)[k]? = es[k]?.map fun e =>
      if k = 0 ∧ e.2.2 = none ∧ 0 < row then (e.1, e.2.1, some (.point row)) else e := by
  cases es with
  | nil => rfl
  | cons e es =>
    obtain ⟨id, name, range⟩ := e
    cases k with
    | zero => cases range <;> simp [backfill]; split <;> rfl
    | succ k => cases range <;> simp [backfill]

theorem Trace.extents_closedBlocks (t : Trace) :
    t.closedBlocks.map Block.extent = backfill t.decl.line t.extents.reverse := by
  rw [extents, ← List.map_reverse, closedBlocks]
  cases t.blocks.reverse with
  | nil => rfl
  | cons b rest =>
    obtain ⟨id, name, range, tally⟩ := b
    cases range with
    | none =>
      by_cases h : 0 < t.decl.line <;> simp [backfill, Block.extent, Block.cover, h]
    | some i => simp [backfill, Block.extent]

theorem Section.extent_blocks (table : Table) {s : Section} (h : ∀ n, Line.loc "" n ∉ s.lines) :
    (s.func table).blocks.map Block.extent = backfill (s.func table).decl.line
      ((openings s.lines).map (Opening.extent (ownFile? s.lines))) := by
  have hfits : Trace.start.Fits (ownFile? s.lines) s.lines := ⟨h, rfl⟩
  have hone : (spread (ownFile? s.lines) (stretches s.lines).1 []).reverse =
      spread (ownFile? s.lines) (stretches s.lines).1 [] := by
    rw [spread]
    cases implicitOpening? (stretches s.lines).1 <;> rfl
  have hfoldl := Trace.extents_foldl table hfits
  have hstart : Trace.start.extents = [] := rfl
  show (Trace.closedBlocks _).map Block.extent = _
  rw [Trace.extents_closedBlocks, hfoldl, hstart, List.reverse_append, List.reverse_reverse, hone,
    openings, List.map_append, List.map_map, spread]
  rfl

theorem contains_iff_le {outer inner : Interval} : outer.contains inner = true ↔
    outer.first ≤ inner.first ∧ inner.last ≤ outer.last := by
  simp [Interval.contains]

theorem Spans.covered {rows : List Nat} {range : Option Interval} (h : Spans rows range) (n : Nat) :
    Spans (rows ++ [n]) (covered range n) := by
  cases range with
  | none =>
    obtain rfl : rows = [] := h
    refine ⟨by simp, ?_, ?_⟩
    · simp [Interval.includes_iff, Interval.point]
    · intro j hj
      exact contains_iff_le.2 (Interval.includes_iff.1 (hj n (by simp)))
  | some i =>
    obtain ⟨-, hincl, hleast⟩ := h
    refine ⟨by simp, ?_, ?_⟩
    · intro r hr
      apply Interval.includes_extend
      simpa using (List.mem_append.1 hr).imp_left (hincl r)
    · intro j hj
      have hn := Interval.includes_iff.1 (hj n (by simp))
      have hi := contains_iff_le.1 (hleast j fun r hr => hj r (List.mem_append_left _ hr))
      rw [contains_iff_le]
      show j.first ≤ min i.first n ∧ max i.last n ≤ j.last
      omega

theorem spans_foldl {before : List Nat} {range : Option Interval} (h : Spans before range)
    (rows : List Nat) : Spans (before ++ rows) (rows.foldl Listing.covered range) := by
  induction rows generalizing before range with
  | nil => rwa [List.append_nil]
  | cons n rows ih =>
    have hrest := ih (h.covered n)
    rwa [List.append_assoc] at hrest

theorem Spans.eq_none_iff {rows : List Nat} {range : Option Interval} (h : Spans rows range) :
    range = none ↔ rows = [] := by
  cases range with
  | none => exact iff_of_true rfl h
  | some i => exact iff_of_false nofun h.1

/-- An interval that spans valid rows is valid. -/
theorem Spans.valid {rows : List Nat} {i : Interval} (h : Spans rows (some i))
    (hpos : ∀ r ∈ rows, 1 ≤ r) : 1 ≤ i.first := by
  obtain ⟨hne, hincl, hleast⟩ := h
  obtain ⟨r, hr⟩ := List.exists_mem_of_ne_nil rows hne
  have hlast : 1 ≤ i.last := Nat.le_trans (hpos r hr) (Interval.includes_iff.1 (hincl r hr)).2
  have hfrom := hleast ⟨1, i.last, hlast⟩ fun r hr =>
    Interval.includes_iff.2 ⟨hpos r hr, (Interval.includes_iff.1 (hincl r hr)).2⟩
  exact (contains_iff_le.1 hfrom).1

/-- A block has the range that its opening says, or the line of the declaration if it is the first
and has none. -/
theorem Section.range_block (table : Table) {s : Section} (h : ∀ n, Line.loc "" n ∉ s.lines)
    {k : Nat} {o : Opening} {b : Block} (ho : (openings s.lines)[k]? = some o)
    (hb : (s.func table).blocks[k]? = some b) :
    if k = 0 ∧ rowsIn (ownFile? s.lines) o.lines = [] ∧ 0 < (s.func table).decl.line
    then b.range = some (.point (s.func table).decl.line)
    else Spans (rowsIn (ownFile? s.lines) o.lines) b.range := by
  have hnone : Spans [] none := rfl
  have hspans := spans_foldl hnone (rowsIn (ownFile? s.lines) o.lines)
  rw [List.nil_append] at hspans
  have hextent := congrArg (·[k]?) (s.extent_blocks table h)
  simp only [backfill_getElem?, List.getElem?_map, ho, hb, Option.map_some, Option.some.injEq,
    Opening.extent, hspans.eq_none_iff] at hextent
  split
  · rename_i hfirst
    rw [if_pos hfirst] at hextent
    exact congrArg (·.2.2) hextent
  · rename_i hfirst
    rw [if_neg hfirst] at hextent
    have hrange : b.range = _ := congrArg (·.2.2) hextent
    rwa [hrange]

theorem map_backfill (row : Nat) (es : List Extent) :
    (backfill row es).map (fun e => (e.1, e.2.1)) = es.map fun e => (e.1, e.2.1) := by
  rw [backfill.eq_def]
  split <;> rfl

/-- A block that is there has an opening. -/
theorem Section.exists_opening (table : Table) {s : Section} (h : ∀ n, Line.loc "" n ∉ s.lines)
    {k : Nat} {b : Block} (hb : (s.func table).blocks[k]? = some b) :
    ∃ o, (openings s.lines)[k]? = some o := by
  have hextent := congrArg (·[k]?) (s.extent_blocks table h)
  cases ho : (openings s.lines)[k]? with
  | some o => exact ⟨o, rfl⟩
  | none => simp [backfill_getElem?, hb, ho] at hextent

theorem Section.extents (table : Table) {s : Section} (h : ∀ n, Line.loc "" n ∉ s.lines) :
    Extents s.lines (s.func table) where
  decl := (located_foldl table h).decl
  blocks := by
    have hextent := congrArg (List.map fun e => (e.1, e.2.1)) (s.extent_blocks table h)
    rwa [map_backfill, List.map_map, List.map_map] at hextent
  ranges := fun _ _ _ ho hb => s.range_block table h ho hb
  valid := by
    intro b hb i hi
    refine ⟨?_, i.ordered⟩
    obtain ⟨k, hk⟩ := List.mem_iff_getElem?.1 hb
    obtain ⟨o, ho⟩ := s.exists_opening table h hk
    have hrange := s.range_block table h ho hk
    rw [hi] at hrange
    split at hrange
    · rename_i hfirst
      obtain rfl := Option.some.inj hrange
      exact hfirst.2.2
    · apply hrange.valid
      intro r hr
      obtain ⟨line, _, hline⟩ := List.mem_filterMap.1 hr
      exact Line.rowIn?_pos hline

/-- The functions of a listing that is read have the blocks that the lines between their marks open,
and each block covers the rows of the locations that stand in it. -/
theorem read_extents {catalog : Catalog} {cpu : Option String} {text : String} {fs : List Func}
    (h : read catalog cpu text = .ok fs) : ∃ parts, Bracketed (readLines text) parts ∧
      List.Forall₂ (fun s f => f.name = s.name ∧ Extents s.lines f) parts fs := by
  obtain ⟨parts, hparts, rfl⟩ := read_eq_ok h
  refine ⟨parts, hparts, ?_⟩
  rw [List.forall₂_map_right_iff, List.forall₂_same]
  intro s hs
  exact ⟨rfl, s.extents _ (files_of_bracketed hparts hs)⟩

/-- A location before the first instruction, lines of another file and on line 0 between those of the
own file, and a label without a name or a location. -/
def interleaved : String :=
  "\t.cpu cortex-a57\n// -- Begin function f\n\t.loc\t1 10 0 // f.c:10:0\n\tnop\n" ++
  "// %bb.1: // %next\n\t.loc\t1 14 0 // f.c:14:0\n\tnop\n\t.loc\t2 5 0 // util.h:5:0\n" ++
  "\t.loc\t1 0 0 // f.c:0:0\n\t.loc\t1 12 0 // f.c:12:0\n.LBB0_2:\n\tnop\n// -- End function\n"

def interleavedFunc : Func :=
  ⟨"f", ⟨"f.c", 10⟩,
    [⟨none, "entry", some (.point 10), ⟨0, 0, 0, 0, 0, 1, 1⟩⟩,
      ⟨some 1, "next", some (.between 12 14), ⟨0, 0, 0, 0, 0, 1, 1⟩⟩,
      ⟨some 2, "bb.2", none, ⟨0, 0, 0, 0, 0, 1, 1⟩⟩],
    .ofList [(10, ⟨0, 0, 0, 0, 0, 1, 1⟩), (12, ⟨0, 0, 0, 0, 0, 1, 1⟩),
      (14, ⟨0, 0, 0, 0, 0, 1, 1⟩)]⟩

theorem read_extents_interleaved :
    read Catalog.builtin none interleaved = .ok [interleavedFunc] ∧
      ∃ parts, Bracketed (readLines interleaved) parts ∧
        List.Forall₂ (fun s f => f.name = s.name ∧ Extents s.lines f) parts [interleavedFunc] := by
  have h : read Catalog.builtin none interleaved = .ok [interleavedFunc] := by decide +kernel
  exact ⟨h, read_extents h⟩

end LineCost.Listing
