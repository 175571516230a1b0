import LineCost.Listing.Reader
import LineCost.Proofs.Totals

/-!
What the blocks of a function cost: each has the instructions between its label and the next one.
Those before the first label make a block of their own.
-/

namespace LineCost.Listing

/-- The cost of a line, if it is an instruction that is counted. -/
def countedCost? (table : Table) : Line → Option Cost
  | .instruction mnemonic =>
    if (table.classify mnemonic).isCounted then some (table.classify mnemonic) else none
  | _ => none

/-- The sum over all instructions that are counted. -/
def costs (table : Table) (ls : List Line) : Tally :=
  Tally.sum ((ls.filterMap (countedCost? table)).map Tally.ofCost)

def Line.isInstruction : Line → Bool
  | .instruction _ => true
  | _ => false

/-- A label and the lines up to the next. -/
structure Stretch where
  id : Nat
  name : Option String
  lines : List Line

/-- The lines before the first label, and the stretches from there on. -/
def stretches : List Line → List Line × List Stretch
  | [] => ([], [])
  | .label id name :: rest => ([], ⟨id, name, (stretches rest).1⟩ :: (stretches rest).2)
  | line :: rest => (line :: (stretches rest).1, (stretches rest).2)

/-- What is said of a block apart from the lines that it covers. -/
abbrev Account := Option Nat × String × Tally

def Block.account (b : Block) : Account := (b.id, b.name, b.tally)

def Stretch.account (table : Table) (s : Stretch) : Account :=
  (some s.id, s.name.getD ("bb." ++ s.id.repr), costs table s.lines)

/-- What more lines without labels add to the block that stands last, which is made if there is
none and an instruction asks for it. -/
def grow (table : Table) (ls : List Line) : List Account → List Account
  | [] => if ls.any Line.isInstruction then [(none, "entry", costs table ls)] else []
  | (id, name, t) :: before => (id, name, t + costs table ls) :: before

/-- What is said of the blocks of a function with the given lines: those of its labels, after one of
the instructions before the first label if there are any. -/
def accounts (table : Table) (ls : List Line) : List Account :=
  (if (stretches ls).1.any Line.isInstruction then
    [(none, "entry", costs table (stretches ls).1)] else []) ++
  (stretches ls).2.map (Stretch.account table)

@[simp] theorem costs_nil (table : Table) : costs table [] = .zero := rfl

theorem costs_append (table : Table) (a b : List Line) :
    costs table (a ++ b) = costs table a + costs table b := by
  rw [costs, List.filterMap_append, List.map_append, Tally.sum_append]
  rfl

theorem costs_cons (table : Table) (line : Line) (ls : List Line) :
    costs table (line :: ls) = costs table [line] + costs table ls :=
  costs_append table [line] ls

theorem ofCost_of_not_counted {c : Cost} (h : c.isCounted = false) : Tally.ofCost c = .zero := by
  have hc : c.category = .ignore := by
    cases hcat : c.category <;> simp [Cost.isCounted, Category.isCounted, hcat] at h ⊢
  simp [Tally.ofCost, hc]

theorem costs_singleton_instruction (table : Table) (mnemonic : String) :
    costs table [.instruction mnemonic] = Tally.ofCost (table.classify mnemonic) := by
  rw [costs, List.filterMap_cons, countedCost?]
  cases h : (table.classify mnemonic).isCounted with
  | true => simp
  | false => simp [ofCost_of_not_counted h]

theorem countedCost?_of_not_instruction (table : Table) {line : Line}
    (h : line.isInstruction = false) : countedCost? table line = none := by
  cases line with
  | instruction mnemonic => cases h
  | _ => rfl

theorem costs_singleton_of_not_instruction (table : Table) {line : Line}
    (h : line.isInstruction = false) : costs table [line] = .zero := by
  rw [costs, List.filterMap_cons, countedCost?_of_not_instruction table h]
  rfl

theorem costs_of_no_instruction (table : Table) {ls : List Line}
    (h : ls.any Line.isInstruction = false) : costs table ls = .zero := by
  induction ls with
  | nil => rfl
  | cons line ls ih =>
    rw [List.any_cons, Bool.or_eq_false_iff] at h
    rw [costs_cons, costs_singleton_of_not_instruction table h.1, ih h.2, Tally.zero_add]

theorem grow_nil (table : Table) (as : List Account) : grow table [] as = as := by
  cases as with
  | nil => rfl
  | cons a as => simp [grow]

theorem grow_cons (table : Table) (line : Line) (ls : List Line) (as : List Account) :
    grow table (line :: ls) as = grow table ls (grow table [line] as) := by
  cases as with
  | cons a as =>
    rw [grow, grow, grow, costs_cons, Tally.add_assoc]
  | nil =>
    cases h : line.isInstruction with
    | true => simp [grow, h, costs_cons table line ls]
    | false =>
      have hzero := costs_singleton_of_not_instruction table h
      simp [grow, h, costs_cons table line ls, hzero]

/-- A run whose steps begin an item at each label, and let the item that stands last grow at any
other line, has an item for each stretch. `fits` holds wherever a step is taken. -/
theorem foldl_stretches {σ α : Type} {step : σ → Line → σ} {items : σ → List α}
    {grow : List Line → List α → List α} {item : Stretch → α} (fits : σ → List Line → Prop)
    (hnil : ∀ as, grow [] as = as)
    (hcons : ∀ line ls as, grow (line :: ls) as = grow ls (grow [line] as))
    (hlabel : ∀ t id name ls,
      grow ls (items (step t (.label id name))) = item ⟨id, name, ls⟩ :: items t)
    (hline : ∀ t line ls, fits t (line :: ls) → (∀ id name, line ≠ .label id name) →
      items (step t line) = grow [line] (items t))
    (hfits : ∀ t line ls, fits t (line :: ls) → fits (step t line) ls)
    (ls : List Line) {t : σ} (h : fits t ls) :
    items (ls.foldl step t) =
      ((stretches ls).2.map item).reverse ++ grow (stretches ls).1 (items t) := by
  fun_induction stretches ls generalizing t
  case case1 =>
    exact (hnil (items t)).symm
  case case2 id name rest ih =>
    rw [List.foldl_cons, ih (hfits t _ rest h), hlabel, hnil, List.map_cons, List.reverse_cons,
      List.append_assoc]
    rfl
  case case3 line rest hl ih =>
    rw [List.foldl_cons, ih (hfits t line rest h), hline t line rest h hl, ← hcons]

namespace Trace

def accounts (t : Trace) : List Account := t.blocks.map Block.account

@[simp] theorem decl_onCurrent (t : Trace) (f : Block → Block) :
    (t.onCurrent f).decl = t.decl := by
  rw [onCurrent]
  split <;> rfl

@[simp] theorem row_onCurrent (t : Trace) (f : Block → Block) : (t.onCurrent f).row = t.row := by
  rw [onCurrent]
  split <;> rfl

@[simp] theorem lines_onCurrent (t : Trace) (f : Block → Block) :
    (t.onCurrent f).lines = t.lines := by
  rw [onCurrent]
  split <;> rfl

theorem accounts_cover (t : Trace) (n : Nat) :
    (t.onCurrent (·.cover n)).accounts = t.accounts := by
  rw [onCurrent]
  split
  · rfl
  · rename_i b before hb
    rw [accounts, accounts, hb]
    rfl

/-- The declaration of a trace after a location on a line other than 0. -/
def declAt (t : Trace) (file : String) (line : Nat) : Location :=
  if t.decl.file.isEmpty then ⟨file, line⟩ else t.decl

theorem locate_eq (t : Trace) (file : String) {line : Nat} (h : line ≠ 0) :
    t.locate file line = if (t.declAt file line).file = file
      then { t with decl := t.declAt file line, row := some line }.onCurrent (·.cover line)
      else { t with decl := t.declAt file line } := by
  rw [locate, if_neg h, declAt]
  cases t.decl.file.isEmpty <;> rfl

/-- A location says nothing of what is counted. -/
theorem accounts_locate (t : Trace) (file : String) (line : Nat) :
    (t.locate file line).accounts = t.accounts := by
  by_cases h : line = 0
  · rw [locate, if_pos h]
  · rw [locate_eq t file h]
    split
    · rw [accounts_cover]
      rfl
    · rfl

theorem lines_locate (t : Trace) (file : String) (n : Nat) : (t.locate file n).lines = t.lines := by
  by_cases hn : n = 0
  · rw [locate, if_pos hn]
  · rw [locate_eq t file hn]
    split
    · rw [lines_onCurrent]
    · rfl

theorem accounts_label (t : Trace) (id : Nat) (name : Option String) :
    (t.label id name).accounts = (some id, name.getD ("bb." ++ id.repr), .zero) :: t.accounts := rfl

theorem count_eq (t : Trace) (c : Cost) :
    t.count c = match (t.opened.onCurrent (·.record c)).row with
      | some n => if c.isCounted
        then { t.opened.onCurrent (·.record c) with
          lines := (t.opened.onCurrent (·.record c)).lines.addAt n (Tally.ofCost c) }
        else t.opened.onCurrent (·.record c)
      | none => t.opened.onCurrent (·.record c) := rfl

/-- What is counted on a row plays no part in the blocks. -/
theorem blocks_count (t : Trace) (c : Cost) :
    (t.count c).blocks = (t.opened.onCurrent (·.record c)).blocks := by
  rw [count_eq]
  split
  · split <;> rfl
  · rfl

theorem accounts_count (table : Table) (t : Trace) (mnemonic : String) :
    (t.count (table.classify mnemonic)).accounts =
      grow table [.instruction mnemonic] t.accounts := by
  have hcost := costs_singleton_instruction table mnemonic
  rw [accounts, blocks_count, accounts, opened]
  cases hb : t.blocks with
  | nil =>
    simp only [List.isEmpty_nil, if_true, onCurrent, List.map_cons, List.map_nil, grow, hcost,
      List.any_cons, List.any_nil, Line.isInstruction, Bool.or_false]
    rw [Block.account, Block.record, Block.implicit, Block.new, Tally.record, Tally.zero_add]
  | cons b before =>
    simp only [List.isEmpty_cons, Bool.false_eq_true, if_false, onCurrent, hb, List.map_cons, grow,
      Block.account, hcost]
    rfl

theorem accounts_step (table : Table) (t : Trace) {line : Line}
    (h : ∀ id name, line ≠ .label id name) :
    (step table t line).accounts = grow table [line] t.accounts := by
  have hidle : line.isInstruction = false → grow table [line] t.accounts = t.accounts := by
    intro hi
    have hzero := costs_singleton_of_not_instruction table hi
    cases t.accounts <;> simp [grow, hi, hzero]
  cases line with
  | instruction mnemonic => exact accounts_count table t mnemonic
  | loc file n => rw [hidle rfl, step, accounts_locate]
  | label id name => exact absurd rfl (h id name)
  | _ => exact (hidle rfl).symm

/-- Each label begins an account of its own, and what comes before the first goes to the last of
those that are there. -/
theorem accounts_foldl (table : Table) (ls : List Line) (t : Trace) :
    (ls.foldl (step table) t).accounts = ((stretches ls).2.map (Stretch.account table)).reverse ++
      grow table (stretches ls).1 t.accounts := by
  refine foldl_stretches (fun _ _ => True) (grow_nil table) (grow_cons table) ?_ ?_
    (fun _ _ _ _ => trivial) ls trivial
  · intro t id name ls
    rw [step, accounts_label, grow, Tally.zero_add]
    rfl
  · intro t line ls _ hl
    exact accounts_step table t hl

theorem accounts_closedBlocks (t : Trace) :
    t.closedBlocks.map Block.account = t.accounts.reverse := by
  rw [accounts, ← List.map_reverse, closedBlocks]
  cases t.blocks.reverse with
  | nil => rfl
  | cons b rest =>
    simp only [List.map_cons]
    split <;> rfl

end Trace

theorem Section.account_blocks (table : Table) (s : Section) :
    (s.func table).blocks.map Block.account = accounts table s.lines := by
  have hstart : Trace.start.accounts = [] := rfl
  have hone : (grow table (stretches s.lines).1 []).reverse = grow table (stretches s.lines).1 [] := by
    rw [grow]
    split <;> rfl
  rw [Section.func, Trace.accounts_closedBlocks, Trace.accounts_foldl, hstart,
    List.reverse_append, List.reverse_reverse, hone, accounts, grow]

/-- The stretches are all that there is, in order. -/
theorem stretches_join (ls : List Line) : (stretches ls).1 ++
    (stretches ls).2.flatMap (fun s => .label s.id s.name :: s.lines) = ls := by
  fun_induction stretches ls
  case case1 => rfl
  case case2 id name rest ih => rw [List.nil_append, List.flatMap_cons, List.cons_append, ih]
  case case3 line rest _ ih => rw [List.cons_append, ih]

theorem costs_stretches (table : Table) (ls : List Line) : costs table ls =
    costs table (stretches ls).1 + Tally.sum ((stretches ls).2.map fun s => costs table s.lines) := by
  have hlabelled : ∀ ss : List Stretch, costs table
      (ss.flatMap fun s => .label s.id s.name :: s.lines) =
        Tally.sum (ss.map fun s => costs table s.lines) := by
    intro ss
    induction ss with
    | nil => rfl
    | cons s ss ih =>
      rw [List.flatMap_cons, costs_append, ih, costs_cons,
        costs_singleton_of_not_instruction table rfl, Tally.zero_add]
      rfl
  rw [← hlabelled, ← costs_append, stretches_join]

/-- The blocks together have all instructions of the function. -/
theorem Section.total_func (table : Table) (s : Section) :
    (s.func table).total = costs table s.lines := by
  have htally : (s.func table).blocks.map Block.tally =
      ((s.func table).blocks.map Block.account).map fun a => a.2.2 := by
    rw [List.map_map]
    rfl
  have hfirst : Tally.sum ((if (stretches s.lines).1.any Line.isInstruction then
      [((none, "entry", costs table (stretches s.lines).1) : Account)] else []).map
        fun a => a.2.2) = costs table (stretches s.lines).1 := by
    split
    · simp
    · rename_i h
      rw [costs_of_no_instruction table (Bool.eq_false_iff.2 h)]
      rfl
  rw [Func.total, htally, Section.account_blocks, accounts, List.map_append, Tally.sum_append, hfirst,
    List.map_map, costs_stretches table s.lines]
  rfl

end LineCost.Listing
