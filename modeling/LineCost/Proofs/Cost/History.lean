import LineCost.Cost.Builtin
import LineCost.Proofs.Cost.Shelf
import LineCost.Proofs.Repeats

/-!
What becomes of a catalog when tables are added to it and other tables are made the default, where a
change that fails leaves it as it was. Whatever the changes, its tables are those that it was made
of and then those that were added with success, each name finds one of them or the default, and the
default has its place among them.
-/

namespace LineCost

inductive Change where
  | add (t : Table)
  | makeDefault (name : String)

namespace Change

def apply (c : Catalog) : Change → Except CatalogError Catalog
  | add t => c.add t
  | makeDefault name => c.makeDefault name

def applyToShelf (s : Shelf) : Change → Except CatalogError Shelf
  | add t => s.add t
  | makeDefault name => s.makeDefault name

/-- The table that the change adds, if it adds one and does not fail. -/
def added (c : Catalog) : Change → List Table
  | add t =>
    match c.add t with
    | .ok _ => [t]
    | .error _ => []
  | makeDefault _ => []

end Change

/-- What a change makes of the old state: the new one, or nothing if it fails. -/
def settle {α : Type} (old : α) : Except CatalogError α → α
  | .ok new => new
  | .error _ => old

theorem settle_map {α β : Type} {f : α → β} {old : α} {x : Except CatalogError α} :
    settle (f old) (x.map f) = f (settle old x) := by
  cases x <;> rfl

namespace Shelf

def attempt (s : Shelf) (change : Change) : Shelf := settle s (change.applyToShelf s)

def after (s : Shelf) (changes : List Change) : Shelf := changes.foldl attempt s

end Shelf

namespace Catalog

/-- The catalog after a change, which may fail. -/
def attempt (c : Catalog) (change : Change) : Catalog := settle c (change.apply c)

def after (c : Catalog) (changes : List Change) : Catalog := changes.foldl attempt c

/-- The tables that the changes add with success, in their order. -/
def additions (c : Catalog) : List Change → List Table
  | [] => []
  | change :: rest => change.added c ++ (c.attempt change).additions rest

variable {c c' : Catalog} {tables : List Table} {t : Table} {name : String} {e : CatalogError}

theorem repeated?_eq_none_iff {seen names : List String} :
    repeated? seen names = none ↔ names.Nodup ∧ ∀ n ∈ names, n ∉ seen := by
  refine ⟨nodup_of_repeated?_eq_none, ?_⟩
  intro h
  induction names generalizing seen with
  | nil => rfl
  | cons n rest ih =>
    obtain ⟨hnodup, hseen⟩ := h
    obtain ⟨hn, hrest⟩ := List.nodup_cons.1 hnodup
    rw [repeated?, if_neg (hseen n List.mem_cons_self)]
    refine ih ⟨hrest, fun m hm hmem => ?_⟩
    rcases List.mem_cons.1 hmem with rfl | hmem
    · exact hn hm
    · exact hseen m (List.mem_cons_of_mem _ hm) hmem

theorem repeated?_eq_some_iff {seen names : List String} :
    repeated? seen names = some name ↔ ∃ before after, names = before ++ name :: after ∧
      repeated? seen before = none ∧ name ∈ before.reverse ++ seen := by
  induction names generalizing seen with
  | nil => simp [repeated?]
  | cons n rest ih =>
    rw [repeated?]
    by_cases hn : n ∈ seen
    · rw [if_pos hn, Option.some.injEq]
      constructor
      · rintro rfl
        exact ⟨[], rest, rfl, rfl, hn⟩
      · rintro ⟨before, after, hsplit, hbefore, -⟩
        cases before with
        | nil => exact (List.cons.inj hsplit).1
        | cons m before =>
          rw [repeated?, ← (List.cons.inj hsplit).1, if_pos hn] at hbefore
          cases hbefore
    · rw [if_neg hn, ih]
      constructor
      · rintro ⟨before, after, rfl, hbefore, hmem⟩
        refine ⟨n :: before, after, rfl, ?_, by simpa using hmem⟩
        rw [repeated?, if_neg hn, hbefore]
      · rintro ⟨before, after, hsplit, hbefore, hmem⟩
        cases before with
        | nil =>
          rw [(List.cons.inj hsplit).1] at hn
          exact absurd hmem hn
        | cons m before =>
          obtain ⟨rfl, rfl⟩ := List.cons.inj hsplit
          rw [repeated?, if_neg hn] at hbefore
          exact ⟨before, after, rfl, hbefore, by simpa using hmem⟩

theorem repeated?_eq_some_iff_earliestRepeat {names : List String} :
    repeated? [] names = some name ↔ EarliestRepeat names name := by
  simp [repeated?_eq_some_iff, repeated?_eq_none_iff, EarliestRepeat]

theorem exists_earliestRepeat_iff {names : List String} :
    (∃ n, EarliestRepeat names n) ↔ ¬ names.Nodup := by
  have hnone : repeated? [] names = none ↔ names.Nodup := by simp [repeated?_eq_none_iff]
  simp only [← repeated?_eq_some_iff_earliestRepeat, ← hnone]
  exact Option.ne_none_iff_exists'.symm

/-- Catalogs are told apart by their tables and their default. -/
theorem eq_of_tables_eq (ht : c.tables = c'.tables) (hd : c.default = c'.default) : c = c' := by
  cases c
  cases c'
  cases ht
  cases hd
  rfl

theorem ofTables_eq_ok_iff :
    ofTables tables = .ok c ↔ c.tables = tables ∧ tables.head? = some c.default := by
  cases tables with
  | nil => simp [ofTables]
  | cons t rest =>
    rw [ofTables]
    split
    · rename_i n hn
      constructor
      · intro h
        cases h
      · intro h
        have hnone : repeated? [] ((t :: rest).map Table.name) = none :=
          repeated?_eq_none_iff.2 ⟨h.1 ▸ c.distinct, by simp⟩
        cases hn.symm.trans hnone
    · constructor
      · intro h
        obtain rfl := Except.ok.inj h
        exact ⟨rfl, rfl⟩
      · intro h
        exact congrArg Except.ok (eq_of_tables_eq h.1.symm (Option.some.inj h.2))

theorem ofTables_eq_error_iff :
    ofTables tables = .error e ↔ tables = [] ∧ e = .emptyCatalog ∨
      ∃ n, EarliestRepeat (tables.map Table.name) n ∧ e = .duplicateProfile n := by
  cases tables with
  | nil => simp [ofTables, EarliestRepeat, eq_comm]
  | cons t rest =>
    simp only [← repeated?_eq_some_iff_earliestRepeat]
    rw [ofTables]
    split
    · rename_i n hn
      rw [hn]
      constructor
      · intro h
        exact .inr ⟨n, rfl, (Except.error.inj h).symm⟩
      · intro h
        obtain ⟨m, hm, rfl⟩ := h.resolve_left fun h => List.cons_ne_nil _ _ h.1
        rw [Option.some.inj hm]
    · rename_i hn
      simp only [hn]
      simp

theorem add_eq_ok_iff : c.add t = .ok c' ↔
    t.name ∉ c.names ∧ c'.tables = c.tables ++ [t] ∧ c'.default = c.default := by
  rw [add]
  split
  · rename_i u hu
    have hmem : t.name ∈ c.names := by
      by_contra hnot
      cases hu.symm.trans (get?_eq_none_iff.2 hnot)
    simp [hmem]
  · rename_i hnone
    have hnot := get?_eq_none_iff.1 hnone
    constructor
    · intro h
      obtain rfl := Except.ok.inj h
      exact ⟨hnot, rfl, rfl⟩
    · intro h
      exact congrArg Except.ok (eq_of_tables_eq h.2.1.symm h.2.2.symm)

theorem add_eq_error_iff :
    c.add t = .error e ↔ t.name ∈ c.names ∧ e = .duplicateProfile t.name := by
  rw [add]
  split
  · rename_i u hu
    have hmem : t.name ∈ c.names := by
      by_contra hnot
      cases hu.symm.trans (get?_eq_none_iff.2 hnot)
    simp [hmem, eq_comm]
  · rename_i hnone
    simp [get?_eq_none_iff.1 hnone]

theorem makeDefault_eq_ok_iff : c.makeDefault name = .ok c' ↔
    c'.tables = c.tables ∧ c.get? name = some c'.default := by
  rw [makeDefault]
  split
  · rename_i hnone
    simp [hnone]
  · rename_i t ht
    constructor
    · intro h
      obtain rfl := Except.ok.inj h
      exact ⟨rfl, ht⟩
    · intro h
      exact congrArg Except.ok
        (eq_of_tables_eq h.1.symm (Option.some.inj (ht.symm.trans h.2)))

theorem makeDefault_eq_error_iff :
    c.makeDefault name = .error e ↔ name ∉ c.names ∧ e = .unknownProfile name := by
  rw [← get?_eq_none_iff, makeDefault]
  split
  · rename_i hnone
    simp [hnone, eq_comm]
  · rename_i t ht
    simp [ht]

theorem tables_attempt (c : Catalog) (change : Change) :
    (c.attempt change).tables = c.tables ++ change.added c := by
  rw [attempt]
  cases change with
  | add t =>
    rw [Change.apply, Change.added]
    cases h : c.add t with
    | error e => exact (List.append_nil _).symm
    | ok c' => exact (add_eq_ok_iff.1 h).2.1
  | makeDefault name =>
    rw [Change.apply, Change.added, List.append_nil]
    cases h : c.makeDefault name with
    | error e => rfl
    | ok c' => exact (makeDefault_eq_ok_iff.1 h).1

theorem shelf_attempt (c : Catalog) (change : Change) :
    (c.attempt change).shelf = c.shelf.attempt change := by
  rw [attempt, Shelf.attempt, ← settle_map (f := shelf)]
  cases change with
  | add t => exact congrArg _ (map_shelf_add c t)
  | makeDefault name => exact congrArg _ (map_shelf_makeDefault c name)

theorem tables_after (c : Catalog) (changes : List Change) :
    (c.after changes).tables = c.tables ++ c.additions changes := by
  induction changes generalizing c with
  | nil => exact (List.append_nil _).symm
  | cons change rest ih =>
    rw [after, List.foldl_cons, ← after, ih, tables_attempt, additions, List.append_assoc]

theorem shelf_after (c : Catalog) (changes : List Change) :
    (c.after changes).shelf = c.shelf.after changes := by
  induction changes generalizing c with
  | nil => rfl
  | cons change rest ih =>
    rw [after, List.foldl_cons, ← after, ih, shelf_attempt]
    rfl

/-- What can be looked up keeps its table. -/
theorem get?_after (hn : name ∈ c.names) (changes : List Change) :
    (c.after changes).get? name = c.get? name := by
  obtain ⟨t, ht⟩ := Option.ne_none_iff_exists'.1 fun hnone => get?_eq_none_iff.1 hnone hn
  obtain ⟨hmem, hname⟩ := get?_eq_some_iff.1 ht
  rw [ht, get?_eq_some_iff, tables_after]
  exact ⟨List.mem_append_left _ hmem, hname⟩

theorem select_eq_iff : c.select name = t ↔
    (t ∈ c.tables ∧ t.name = name) ∨ (name ∉ c.names ∧ t = c.default) := by
  rw [select, ← get?_eq_some_iff, ← get?_eq_none_iff]
  cases c.get? name <;> simp [eq_comm]

/-- A new table at the end is found under its name only. -/
theorem get?_of_add (h : c.add t = .ok c') :
    c'.get? t.name = some t ∧ ∀ n ≠ t.name, c'.get? n = c.get? n := by
  obtain ⟨-, htables, -⟩ := add_eq_ok_iff.1 h
  refine ⟨get?_eq_some_iff.2 ⟨?_, rfl⟩, fun n hn => ?_⟩
  · rw [htables]
    exact List.mem_append_right _ List.mem_cons_self
  · have hlast : [t].find? (·.name == n) = none := by simpa using hn.symm
    rw [get?, get?, htables, List.find?_append, hlast, Option.or_none]

end Catalog

/-- How a catalog comes about: of at least one table and of distinct names, or not at all. -/
structure Founding (tables : List Table) : Prop where
  empty : Catalog.ofTables tables = .error .emptyCatalog ↔ tables = []
  /-- The earliest name that has occurred before is refused. -/
  repeated : ∀ n, Catalog.ofTables tables = .error (.duplicateProfile n) ↔
    EarliestRepeat (tables.map Table.name) n
  shared : (∃ n, Catalog.ofTables tables = .error (.duplicateProfile n)) ↔
    ∃ (i j : Nat) (t u : Table), i < j ∧ tables[i]? = some t ∧ tables[j]? = some u ∧
      t.name = u.name
  founded : (∃ c, Catalog.ofTables tables = .ok c) ↔
    tables ≠ [] ∧ (tables.map Table.name).Nodup
  kept : ∀ c, Catalog.ofTables tables = .ok c →
    c.tables = tables ∧ tables.head? = some c.default ∧ c.place = 0
  shelf : Shelf.ofTables tables = (Catalog.ofTables tables).map Catalog.shelf

/-- What can be relied on with a catalog. -/
structure Reliable (c : Catalog) : Prop where
  nonempty : c.names ≠ []
  distinct : c.names.Nodup
  /-- The default has its place among the tables, and is what stands there. -/
  placed : c.place < c.tables.length ∧ c.tables[c.place]? = some c.default
  /-- So its shelf never lacks what is asked for. -/
  shelved : c.shelf.default? = some c.default ∧ ∀ n, c.shelf.select? n = some (c.select n)
  /-- There is a table for every name: the one that is called so, or else the default. -/
  selected : ∀ n t, c.select n = t ↔
    (t ∈ c.tables ∧ t.name = n) ∨ (n ∉ c.names ∧ t = c.default)
  refused : ∀ t e, c.add t = .error e ↔ t.name ∈ c.names ∧ e = .duplicateProfile t.name
  /-- What is added can be found, and all else is as before. -/
  added : ∀ t c', c.add t = .ok c' →
    c'.tables = c.tables ++ [t] ∧ c'.default = c.default ∧ c'.place = c.place ∧
      c'.get? t.name = some t ∧ ∀ n ≠ t.name, c'.get? n = c.get? n
  unknown : ∀ n e, c.makeDefault n = .error e ↔ n ∉ c.names ∧ e = .unknownProfile n
  madeDefault : ∀ n c', c.makeDefault n = .ok c' →
    c'.tables = c.tables ∧ c.get? n = some c'.default

namespace Catalog

variable {c c' : Catalog} {tables : List Table}

theorem founding (tables : List Table) : Founding tables where
  empty := by simp [ofTables_eq_error_iff]
  repeated := by
    intro n
    simp [ofTables_eq_error_iff]
  shared := by
    rw [← not_nodup_map_iff, ← exists_earliestRepeat_iff]
    simp [ofTables_eq_error_iff]
  founded := by
    constructor
    · intro h
      obtain ⟨c, hc⟩ := h
      obtain ⟨rfl, -⟩ := ofTables_eq_ok_iff.1 hc
      exact ⟨List.ne_nil_of_mem c.default_mem, c.distinct⟩
    · intro h
      obtain ⟨hne, hdistinct⟩ := h
      cases hc : ofTables tables with
      | ok c => exact ⟨c, rfl⟩
      | error e =>
        rcases ofTables_eq_error_iff.1 hc with ⟨hempty, -⟩ | ⟨n, hn, -⟩
        · exact absurd hempty hne
        · exact absurd hdistinct (exists_earliestRepeat_iff.1 ⟨n, hn⟩)
  kept := by
    intro c h
    obtain ⟨rfl, hhead⟩ := ofTables_eq_ok_iff.1 h
    exact ⟨rfl, hhead, place_eq_zero hhead⟩
  shelf := (map_shelf_ofTables tables).symm

theorem reliable (c : Catalog) : Reliable c where
  nonempty := List.ne_nil_of_mem (List.mem_map_of_mem c.default_mem)
  distinct := c.distinct
  placed := ⟨place_lt, default?_shelf⟩
  shelved := ⟨default?_shelf, fun _ => select?_shelf⟩
  selected := fun _ _ => select_eq_iff
  refused := fun _ _ => add_eq_error_iff
  added := by
    intro t c' h
    obtain ⟨-, htables, hdefault⟩ := add_eq_ok_iff.1 h
    obtain ⟨hget, hothers⟩ := get?_of_add h
    exact ⟨htables, hdefault, place_of_append htables hdefault, hget, hothers⟩
  unknown := fun _ _ => makeDefault_eq_error_iff
  madeDefault := fun _ _ => makeDefault_eq_ok_iff.1

theorem compile_builtin :
    compile [(CortexR52.name, CortexR52.rules), (CortexA57.name, CortexA57.rules)] =
      .ok builtin := by
  have hr52 : Table.compile CortexR52.name CortexR52.rules = .ok CortexR52.table :=
    Table.compile_eq_ok CortexR52.compiles_of_mem_rules
  have ha57 : Table.compile CortexA57.name CortexA57.rules = .ok CortexA57.table :=
    Table.compile_eq_ok CortexA57.compiles_of_mem_rules
  rw [compile, List.mapM_cons, List.mapM_cons, List.mapM_nil, hr52, ha57]
  show ofTables [CortexR52.table, CortexA57.table] = .ok builtin
  exact ofTables_eq_ok_iff.2 ⟨rfl, rfl⟩

/-- A catalog comes about of at least one table and of distinct names, as the one that comes with
the library does. Whatever changes are tried on it then, it can be relied on: its tables are those
that it was made of and then those that were added with success, and no name that it had finds
another table than before. Its shelf goes through the same changes. -/
theorem reliable_along_history :
    (∀ tables, Founding tables) ∧
      compile [(CortexR52.name, CortexR52.rules), (CortexA57.name, CortexA57.rules)] =
        .ok builtin ∧
      ofTables builtin.tables = .ok builtin ∧
      ∀ tables c changes, ofTables tables = .ok c →
        Reliable (c.after changes) ∧
        (c.after changes).tables = tables ++ c.additions changes ∧
        (∀ n ∈ c.names, (c.after changes).get? n = c.get? n) ∧
        (c.after changes).shelf = c.shelf.after changes := by
  refine ⟨founding, compile_builtin, ofTables_eq_ok_iff.2 ⟨rfl, rfl⟩, ?_⟩
  intro tables c changes h
  obtain ⟨rfl, -⟩ := ofTables_eq_ok_iff.1 h
  exact ⟨reliable _, tables_after c changes, fun n hn => get?_after hn changes,
    shelf_after c changes⟩

def twoTables : Catalog where
  tables := [⟨"a", []⟩, ⟨"b", []⟩]
  default := ⟨"a", []⟩
  distinct := by decide
  default_mem := List.mem_cons_self

/-- Of four changes, two are refused. -/
theorem reliable_along_refusals :
    ofTables [⟨"a", []⟩, ⟨"b", []⟩] = .ok twoTables ∧
      Reliable (twoTables.after
        [.add ⟨"c", []⟩, .makeDefault "z", .add ⟨"a", []⟩, .makeDefault "b"]) ∧
      (twoTables.additions
        [.add ⟨"c", []⟩, .makeDefault "z", .add ⟨"a", []⟩, .makeDefault "b"]).map Table.name =
          ["c"] := by
  have h : ofTables [⟨"a", []⟩, ⟨"b", []⟩] = .ok twoTables := ofTables_eq_ok_iff.2 ⟨rfl, rfl⟩
  exact ⟨h, (reliable_along_history.2.2.2 _ _ _ h).1, by decide +kernel⟩

end Catalog

end LineCost
