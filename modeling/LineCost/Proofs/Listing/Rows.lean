import LineCost.Proofs.Listing.Blocks
import Mathlib.Data.List.Basic
import Mathlib.Data.List.Induction

/-!
What the source lines of a function cost: each has the instructions whose last location in the
function's own file is on it.
-/

namespace LineCost.Listing

/-- The location that a line names, unless it is on line 0. -/
def Line.location? : Line → Option Location
  | .loc file n => if n = 0 then none else some ⟨file, n⟩
  | _ => none

def firstLocation? (ls : List Line) : Option Location := ls.findSome? Line.location?

/-- The file of the first location, which is a function's own. -/
def ownFile? (ls : List Line) : Option String := (firstLocation? ls).map Location.file

/-- The row that a line moves to, if it names a location in the given file. -/
def Line.rowIn? (own : Option String) (line : Line) : Option Nat :=
  (line.location?.filter fun l => own = some l.file).map Location.line

/-- The row of the last location in the function's own file before a position. -/
def rowBefore (ls : List Line) (i : Nat) : Option Nat :=
  ((ls.take i).filterMap (Line.rowIn? (ownFile? ls))).getLast?

/-- The instructions that are counted, each with its row and its cost. -/
def located (table : Table) (ls : List Line) : List (Option Nat × Cost) :=
  ls.zipIdx.filterMap fun e => (countedCost? table e.1).map fun c => (rowBefore ls e.2, c)

/-- The costs of the instructions on a row. -/
def costsAt (table : Table) (ls : List Line) (r : Nat) : List Cost :=
  ((located table ls).filter fun e => e.1 = some r).map Prod.snd

/-- The lines before the first location. -/
def beforeFirst (ls : List Line) : List Line := ls.takeWhile fun line => line.location?.isNone

theorem firstLocation?_append (a b : List Line) :
    firstLocation? (a ++ b) = (firstLocation? a).or (firstLocation? b) :=
  List.findSome?_append

theorem rows_eq_nil {ls : List Line} (h : ∀ line ∈ ls, line.location? = none)
    (own : Option String) : ls.filterMap (Line.rowIn? own) = [] := by
  apply List.filterMap_eq_nil_iff.2
  intro line hl
  rw [Line.rowIn?, h line hl]
  rfl

/-- The rows of the lines before a position do not depend on what comes after. -/
theorem rowBefore_append (a b : List Line) {i : Nat} (hi : i ≤ a.length) :
    rowBefore (a ++ b) i = rowBefore a i := by
  rw [rowBefore, rowBefore, List.take_append_of_le_length hi]
  cases h : firstLocation? a with
  | none =>
    have hnone : ∀ line ∈ a.take i, line.location? = none := by
      intro line hl
      exact List.findSome?_eq_none_iff.1 h line (List.mem_of_mem_take hl)
    rw [rows_eq_nil hnone, rows_eq_nil hnone]
  | some l =>
    have hown : ownFile? (a ++ b) = ownFile? a := by
      rw [ownFile?, firstLocation?_append, h, Option.some_or, ownFile?, h]
    rw [hown]

theorem rowBefore_concat (ls : List Line) (line : Line) :
    rowBefore (ls ++ [line]) (ls.length + 1) =
      (line.rowIn? (ownFile? (ls ++ [line]))).or (rowBefore ls ls.length) := by
  have hbefore := rowBefore_append ls [line] (Nat.le_refl ls.length)
  rw [rowBefore, List.take_append_of_le_length (Nat.le_refl _)] at hbefore
  have htake : (ls ++ [line]).take (ls.length + 1) = ls.take ls.length ++ [line] := by
    rw [List.take_length, List.take_of_length_le (by simp)]
  rw [rowBefore, htake, List.filterMap_append, List.getLast?_append, hbefore]
  cases h : line.rowIn? (ownFile? (ls ++ [line])) <;> simp [h]

/-- There is a row as soon as there is a location. -/
theorem rowBefore_eq_none_iff (ls : List Line) :
    rowBefore ls ls.length = none ↔ firstLocation? ls = none := by
  rw [rowBefore, List.take_length, List.getLast?_eq_none_iff]
  constructor
  · intro h
    cases hf : firstLocation? ls with
    | none => rfl
    | some l =>
      obtain ⟨before, line, after, hls, hl, _⟩ := List.findSome?_eq_some_iff.1 hf
      have hrow : line.rowIn? (ownFile? ls) = some l.line := by
        rw [Line.rowIn?, hl, ownFile?, hf]
        simp [Option.filter]
      have hnone := List.filterMap_eq_nil_iff.1 h line (hls ▸ by simp)
      rw [hrow] at hnone
      cases hnone
  · intro h
    exact rows_eq_nil (List.findSome?_eq_none_iff.1 h) _

theorem located_concat (table : Table) (ls : List Line) (line : Line) :
    located table (ls ++ [line]) = located table ls ++
      ((countedCost? table line).map fun c => (rowBefore ls ls.length, c)).toList := by
  have hfront : (ls.zipIdx.filterMap fun e =>
      (countedCost? table e.1).map fun c => (rowBefore (ls ++ [line]) e.2, c)) =
      located table ls := by
    apply List.filterMap_congr
    intro e he
    have hlt : e.2 < ls.length := by
      have h := (List.mem_zipIdx he).2.1
      omega
    rw [rowBefore_append ls [line] (Nat.le_of_lt hlt)]
  rw [located, List.zipIdx_append, List.filterMap_append, hfront]
  congr 1
  have hrow := rowBefore_append ls [line] (Nat.le_refl ls.length)
  cases h : countedCost? table line <;> simp [h, hrow]

theorem costsAt_concat (table : Table) (ls : List Line) (line : Line) (r : Nat) :
    costsAt table (ls ++ [line]) r = costsAt table ls r ++
      if rowBefore ls ls.length = some r then (countedCost? table line).toList else [] := by
  rw [costsAt, located_concat, List.filter_append, List.map_append, costsAt]
  congr 1
  cases countedCost? table line with
  | none => simp
  | some c =>
    by_cases h : rowBefore ls ls.length = some r <;> simp [h]

theorem costs_beforeFirst_concat (table : Table) (ls : List Line) (line : Line) :
    costs table (beforeFirst (ls ++ [line])) = costs table (beforeFirst ls) +
      if firstLocation? ls = none then costs table [line] else .zero := by
  induction ls with
  | nil =>
    cases h : line.location? with
    | none => simp [beforeFirst, firstLocation?, h]
    | some l =>
      have hzero : costs table [line] = .zero := by
        cases line with
        | instruction mnemonic => cases h
        | _ => rfl
      simp [beforeFirst, firstLocation?, h, hzero]
  | cons a ls ih =>
    cases h : a.location? with
    | none =>
      have hfirst : firstLocation? (a :: ls) = firstLocation? ls := by
        simp [firstLocation?, h]
      have hbefore : ∀ rest, beforeFirst (a :: rest) = a :: beforeFirst rest := by
        intro rest
        simp [beforeFirst, h]
      rw [List.cons_append, hbefore, hbefore, hfirst, costs_cons, ih, ← Tally.add_assoc,
        ← costs_cons]
    | some l =>
      simp [beforeFirst, firstLocation?, h]

/-- What a trace holds once it has been through some lines. -/
structure Located (table : Table) (ls : List Line) (t : Trace) : Prop where
  decl : t.decl = (firstLocation? ls).getD ⟨"", 0⟩
  row : t.row = rowBefore ls ls.length
  lines : ∀ r, t.lines.get? r = if costsAt table ls r = [] then none
    else some (Tally.sum ((costsAt table ls r).map Tally.ofCost))
  total : t.lines.total + costs table (beforeFirst ls) = costs table ls

theorem located_start (table : Table) : Located table [] .start where
  decl := rfl
  row := rfl
  lines := fun _ => rfl
  total := rfl

theorem Line.rowIn?_of_none {line : Line} (h : line.location? = none) (own : Option String) :
    line.rowIn? own = none := by
  rw [Line.rowIn?, h]
  rfl

theorem firstLocation?_concat_of_none {line : Line} (h : line.location? = none) (ls : List Line) :
    firstLocation? (ls ++ [line]) = firstLocation? ls := by
  simp [firstLocation?, h]

namespace Trace

theorem opened_fields (t : Trace) :
    t.opened.decl = t.decl ∧ t.opened.row = t.row ∧ t.opened.lines = t.lines := by
  rw [opened]
  split <;> exact ⟨rfl, rfl, rfl⟩

/-- An instruction is counted on the current row, and changes nothing else there. -/
theorem count_fields (t : Trace) (c : Cost) :
    (t.count c).decl = t.decl ∧ (t.count c).row = t.row ∧ (t.count c).lines = match t.row with
      | some n => if c.isCounted then t.lines.addAt n (Tally.ofCost c) else t.lines
      | none => t.lines := by
  obtain ⟨hd, hr, hl⟩ := t.opened_fields
  rw [count_eq, row_onCurrent, lines_onCurrent, hr, hl]
  cases ht : t.row with
  | none => simp [hd, hr, hl, ht]
  | some n => cases c.isCounted <;> simp [hd, hr, hl, ht]

end Trace

/-- A line that is neither a location nor an instruction changes nothing. -/
theorem Located.idle {table : Table} {ls : List Line} {t t' : Trace} {line : Line}
    (h : Located table ls t) (hl : line.location? = none) (hi : line.isInstruction = false)
    (ht : t'.decl = t.decl ∧ t'.row = t.row ∧ t'.lines = t.lines) :
    Located table (ls ++ [line]) t' where
  decl := by
    rw [ht.1, h.decl, firstLocation?_concat_of_none hl]
  row := by
    rw [ht.2.1, h.row, List.length_append, List.length_singleton, rowBefore_concat,
      Line.rowIn?_of_none hl, Option.none_or]
  lines := by
    intro r
    have hnone := countedCost?_of_not_instruction table hi
    rw [ht.2.2, h.lines r, costsAt_concat, hnone]
    simp
  total := by
    have hzero := costs_singleton_of_not_instruction table hi
    rw [ht.2.2, costs_beforeFirst_concat, hzero, costs_append, hzero, ite_self, Tally.add_zero,
      Tally.add_zero, h.total]

/-- What an instruction costs is booked on the current row. -/
theorem Located.lines_instruction {table : Table} {ls : List Line} {t : Trace}
    (h : Located table ls t) (mnemonic : String) (r : Nat) :
    (t.count (table.classify mnemonic)).lines.get? r =
      if costsAt table (ls ++ [.instruction mnemonic]) r = [] then none
      else some (Tally.sum ((costsAt table (ls ++ [.instruction mnemonic]) r).map Tally.ofCost)) := by
  obtain ⟨_, _, hl⟩ := t.count_fields (table.classify mnemonic)
  rw [hl, h.row, costsAt_concat, countedCost?]
  cases hrow : rowBefore ls ls.length with
  | none => simpa using h.lines r
  | some n =>
    cases hc : (table.classify mnemonic).isCounted with
    | false => simpa using h.lines r
    | true =>
      simp only [if_true, LineMap.addAt, LineMap.get?_alter, Option.some.injEq]
      by_cases hn : r = n
      · subst hn
        have hget := h.lines r
        by_cases hnil : costsAt table ls r = []
        · rw [if_pos hnil] at hget
          simp [hget, hnil]
        · rw [if_neg hnil] at hget
          simp [hget, Tally.sum_append]
      · have hn' : ¬ n = r := fun he => hn he.symm
        simpa [hn, hn'] using h.lines r

theorem Located.total_instruction {table : Table} {ls : List Line} {t : Trace}
    (h : Located table ls t) (mnemonic : String) :
    (t.count (table.classify mnemonic)).lines.total +
        costs table (beforeFirst (ls ++ [.instruction mnemonic])) =
      costs table (ls ++ [.instruction mnemonic]) := by
  obtain ⟨_, _, hl⟩ := t.count_fields (table.classify mnemonic)
  have hcost := costs_singleton_instruction table mnemonic
  have htotal := h.total
  have hfirst := rowBefore_eq_none_iff ls
  rw [hl, h.row, costs_beforeFirst_concat, costs_append, hcost, ← htotal]
  cases hrow : rowBefore ls ls.length with
  | none =>
    rw [if_pos (hfirst.1 hrow), Tally.add_assoc]
  | some n =>
    have hsome : ¬ firstLocation? ls = none := by
      intro hnone
      rw [hfirst.2 hnone] at hrow
      cases hrow
    rw [if_neg hsome, Tally.add_zero]
    cases hc : (table.classify mnemonic).isCounted with
    | false =>
      simp [ofCost_of_not_counted hc]
    | true =>
      simp only [if_true, LineMap.total_addAt]
      rw [Tally.add_assoc, Tally.add_comm (Tally.ofCost _), ← Tally.add_assoc]

theorem Located.instruction {table : Table} {ls : List Line} {t : Trace} (h : Located table ls t)
    (mnemonic : String) :
    Located table (ls ++ [.instruction mnemonic]) (t.count (table.classify mnemonic)) := by
  obtain ⟨hd, hr, _⟩ := t.count_fields (table.classify mnemonic)
  have hloc : (Line.instruction mnemonic).location? = none := rfl
  refine ⟨?_, ?_, h.lines_instruction mnemonic, h.total_instruction mnemonic⟩
  · rw [hd, h.decl, firstLocation?_concat_of_none hloc]
  · rw [hr, h.row, List.length_append, List.length_singleton, rowBefore_concat,
      Line.rowIn?_of_none hloc, Option.none_or]

theorem Located.location {table : Table} {ls : List Line} {t : Trace} (h : Located table ls t)
    (hfiles : ∀ l, firstLocation? ls = some l → l.file ≠ "") (file : String) (n : Nat) :
    Located table (ls ++ [.loc file n]) (t.locate file n) := by
  by_cases hn : n = 0
  · subst hn
    exact h.idle rfl rfl ⟨rfl, rfl, rfl⟩
  · have hloc : (Line.loc file n).location? = some ⟨file, n⟩ := by
      rw [Line.location?, if_neg hn]
    have hfirst : firstLocation? (ls ++ [.loc file n]) = some (t.declAt file n) := by
      have hsingle : firstLocation? [.loc file n] = some ⟨file, n⟩ := by
        simp [firstLocation?, hloc]
      rw [firstLocation?_append, hsingle, Trace.declAt, h.decl]
      cases hl : firstLocation? ls with
      | none => simp
      | some l => simp [hfiles l hl]
    have hrow : (Line.loc file n).rowIn? (ownFile? (ls ++ [.loc file n])) =
        if (t.declAt file n).file = file then some n else none := by
      rw [Line.rowIn?, hloc, ownFile?, hfirst]
      by_cases he : (t.declAt file n).file = file <;> simp [Option.filter, he]
    have hlines := t.lines_locate file n
    have hzero : costs table [.loc file n] = .zero :=
      costs_singleton_of_not_instruction table rfl
    refine ⟨?_, ?_, ?_, ?_⟩
    · rw [hfirst, Option.getD_some, Trace.locate_eq t file hn]
      split
      · rw [Trace.decl_onCurrent]
      · rfl
    · rw [List.length_append, List.length_singleton, rowBefore_concat, hrow,
        Trace.locate_eq t file hn]
      split
      · rw [Trace.row_onCurrent, Option.some_or]
      · rw [Option.none_or, ← h.row]
    · intro r
      have hnone : countedCost? table (.loc file n) = none := rfl
      rw [hlines, h.lines r, costsAt_concat, hnone]
      simp
    · rw [hlines, costs_beforeFirst_concat, hzero, costs_append, hzero, ite_self, Tally.add_zero,
        Tally.add_zero, h.total]

theorem Located.step {table : Table} {ls : List Line} {t : Trace} (h : Located table ls t)
    (hfiles : ∀ l, firstLocation? ls = some l → l.file ≠ "") (line : Line) :
    Located table (ls ++ [line]) (t.step table line) := by
  cases line with
  | loc file n => exact h.location hfiles file n
  | instruction mnemonic => exact h.instruction mnemonic
  | _ => exact h.idle rfl rfl ⟨rfl, rfl, rfl⟩

/-- What a trace holds at the end is what the lines say. -/
theorem located_foldl (table : Table) {ls : List Line} (hfiles : ∀ n, Line.loc "" n ∉ ls) :
    Located table ls (ls.foldl (Trace.step table) .start) := by
  -- from the end, since the row of a line depends on all lines before it
  induction ls using List.reverseRecOn with
  | nil => exact located_start table
  | append_singleton ls line ih =>
    have hls : ∀ n, Line.loc "" n ∉ ls := fun n hm => hfiles n (List.mem_append_left _ hm)
    rw [List.foldl_concat]
    apply (ih hls).step
    intro l hl he
    obtain ⟨line, hm, hline⟩ := List.exists_of_findSome?_eq_some hl
    cases line with
    | loc file n =>
      rw [Line.location?] at hline
      split at hline
      · cases hline
      · have hfile : file = "" := by
          rw [← he, ← Option.some.inj hline]
        exact hls n (hfile ▸ hm)
    | _ => cases hline

end LineCost.Listing
