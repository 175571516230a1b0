import LineCost.Cost.Table

/-!
Catalogs of cost tables. A catalog always has a default table, and no two of its tables share a
name.
-/

namespace LineCost

/-- The tables to choose from, and the one that serves CPUs without a table of their own. -/
structure Catalog where
  tables : List Table
  default : Table
  distinct : (tables.map Table.name).Nodup
  default_mem : default ∈ tables

namespace Catalog

def names (c : Catalog) : List String := c.tables.map Table.name

/-- The earliest name that has occurred before in the list. -/
def repeated? : (seen : List String) → List String → Option String
  | _, [] => none
  | seen, n :: rest => if n ∈ seen then some n else repeated? (n :: seen) rest

theorem nodup_of_repeated?_eq_none {seen names : List String} (h : repeated? seen names = none) :
    names.Nodup ∧ ∀ n ∈ names, n ∉ seen := by
  induction names generalizing seen with
  | nil => simp
  | cons n rest ih =>
    rw [repeated?] at h
    split at h
    · simp at h
    · rename_i hn
      obtain ⟨hd, hs⟩ := ih h
      refine ⟨List.nodup_cons.2 ⟨fun hm => hs n hm List.mem_cons_self, hd⟩, ?_⟩
      intro m hm
      rcases List.mem_cons.1 hm with rfl | hm
      · exact hn
      · exact fun hms => hs m hm (List.mem_cons_of_mem _ hms)

/-- A catalog of the tables; the first is the default. -/
def ofTables (tables : List Table) : Except CatalogError Catalog :=
  match tables with
  | [] => .error .emptyCatalog
  | t :: rest =>
    match h : repeated? [] ((t :: rest).map Table.name) with
    | some n => .error (.duplicateProfile n)
    | none => .ok ⟨t :: rest, t, (nodup_of_repeated?_eq_none h).1, List.mem_cons_self⟩

/-- Compiles tables given by their names and rules, then collects them. -/
def compile (tables : List (String × List Rule)) : Except CatalogError Catalog := do
  let compiled ← tables.mapM fun t => Table.compile t.1 t.2
  ofTables compiled

def get? (c : Catalog) (name : String) : Option Table := c.tables.find? (·.name == name)

/-- The table with this name, or else the default. -/
def select (c : Catalog) (name : String) : Table := (c.get? name).getD c.default

theorem not_mem_names_of_get?_eq_none {c : Catalog} {name : String} (h : c.get? name = none) :
    name ∉ c.names := by
  intro hm
  obtain ⟨t, ht, rfl⟩ := List.mem_map.1 hm
  simpa using List.find?_eq_none.1 h t ht

/-- Adds a table at the end; its name must be new. -/
def add (c : Catalog) (t : Table) : Except CatalogError Catalog :=
  match h : c.get? t.name with
  | some _ => .error (.duplicateProfile t.name)
  | none => .ok {
      tables := c.tables ++ [t]
      default := c.default
      distinct := by
        rw [List.map_append, List.nodup_append]
        refine ⟨c.distinct, by simp, ?_⟩
        intro n hn m hm hnm
        rw [List.map_singleton, List.mem_singleton] at hm
        exact not_mem_names_of_get?_eq_none h (hm ▸ hnm ▸ hn)
      default_mem := List.mem_append_left _ c.default_mem }

/-- Makes the table with this name the default. -/
def makeDefault (c : Catalog) (name : String) : Except CatalogError Catalog :=
  match h : c.get? name with
  | none => .error (.unknownProfile name)
  | some t => .ok { c with default := t, default_mem := List.mem_of_find?_eq_some h }

end Catalog

end LineCost
