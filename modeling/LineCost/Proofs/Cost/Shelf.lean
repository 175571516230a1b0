import LineCost.Cost.Catalog
import Mathlib.Data.List.Nodup

/-!
Catalogs without what they guarantee: a shelf is a list of tables and the place of the default among
them, whether or not there is such a place and whatever the tables are called. The operations on
shelves only look at these two. They do to the shelf of a catalog what those on catalogs do to the
catalog, and fail in the same cases, so that no shelf that comes about lacks a default.
-/

namespace LineCost

structure Shelf where
  tables : List Table
  place : Nat

namespace Shelf

def get? (s : Shelf) (name : String) : Option Table := s.tables.find? (·.name == name)

def default? (s : Shelf) : Option Table := s.tables[s.place]?

def select? (s : Shelf) (name : String) : Option Table := (s.get? name).or s.default?

/-- A shelf of the tables, with the default in the first place. -/
def ofTables (tables : List Table) : Except CatalogError Shelf :=
  if tables.isEmpty then .error .emptyCatalog
  else match Catalog.repeated? [] (tables.map Table.name) with
    | some n => .error (.duplicateProfile n)
    | none => .ok ⟨tables, 0⟩

def add (s : Shelf) (t : Table) : Except CatalogError Shelf :=
  match s.get? t.name with
  | some _ => .error (.duplicateProfile t.name)
  | none => .ok { s with tables := s.tables ++ [t] }

def makeDefault (s : Shelf) (name : String) : Except CatalogError Shelf :=
  match s.tables.findIdx? (·.name == name) with
  | none => .error (.unknownProfile name)
  | some i => .ok { s with place := i }

end Shelf

namespace Catalog

/-- Where the default stands. -/
def place (c : Catalog) : Nat := c.tables.findIdx (·.name == c.default.name)

def shelf (c : Catalog) : Shelf := ⟨c.tables, c.place⟩

variable {c c' : Catalog} {t u : Table} {name : String} {e : CatalogError}

theorem eq_of_name_eq (ht : t ∈ c.tables) (hu : u ∈ c.tables) (h : t.name = u.name) : t = u :=
  List.inj_on_of_nodup_map c.distinct ht hu h

theorem name_of_get? (h : c.get? name = some t) : t.name = name := by
  rw [get?] at h
  simpa using List.find?_some h

theorem get?_eq_some_iff : c.get? name = some t ↔ t ∈ c.tables ∧ t.name = name := by
  constructor
  · intro h
    exact ⟨List.mem_of_find?_eq_some h, name_of_get? h⟩
  · intro h
    obtain ⟨ht, rfl⟩ := h
    cases hget : c.get? t.name with
    | none => exact absurd (List.mem_map_of_mem ht) (not_mem_names_of_get?_eq_none hget)
    | some u => rw [eq_of_name_eq (List.mem_of_find?_eq_some hget) ht (name_of_get? hget)]

theorem get?_eq_none_iff : c.get? name = none ↔ name ∉ c.names := by
  refine ⟨not_mem_names_of_get?_eq_none, fun h => Option.eq_none_iff_forall_ne_some.2 ?_⟩
  intro t ht
  obtain ⟨hmem, rfl⟩ := get?_eq_some_iff.1 ht
  exact h (List.mem_map_of_mem hmem)

theorem place_lt : c.place < c.tables.length :=
  List.findIdx_lt_length_of_exists ⟨c.default, c.default_mem, beq_self_eq_true _⟩

theorem place_eq_zero (h : c.tables.head? = some c.default) : c.place = 0 := by
  obtain ⟨rest, hrest⟩ := List.head?_eq_some_iff.1 h
  rw [place, hrest, List.findIdx_cons, beq_self_eq_true]
  rfl

/-- Tables behind the others leave the default where it stands. -/
theorem place_of_append {more : List Table} (ht : c'.tables = c.tables ++ more)
    (hd : c'.default = c.default) : c'.place = c.place := by
  rw [place, ht, hd, List.findIdx_append]
  exact if_pos place_lt

theorem default?_shelf : c.shelf.default? = some c.default := by
  have h : c.get? c.default.name = some c.default := get?_eq_some_iff.2 ⟨c.default_mem, rfl⟩
  rwa [get?, List.find?_eq_getElem?_findIdx] at h

theorem select?_shelf : c.shelf.select? name = some (c.select name) := by
  rw [Shelf.select?, default?_shelf, select]
  show (c.get? name).or _ = _
  cases c.get? name <;> rfl

theorem map_shelf_ofTables (tables : List Table) :
    (ofTables tables).map shelf = Shelf.ofTables tables := by
  cases tables with
  | nil => rfl
  | cons t rest =>
    rw [ofTables, Shelf.ofTables, List.isEmpty_cons, if_neg Bool.false_ne_true]
    split
    · rename_i n hn
      simp only [hn, Except.map]
    · rename_i hn
      simp only [hn, Except.map, shelf]
      rw [place_eq_zero rfl]

theorem map_shelf_add (c : Catalog) (t : Table) : (c.add t).map shelf = c.shelf.add t := by
  have hget : c.shelf.get? t.name = c.get? t.name := rfl
  rw [add, Shelf.add, hget]
  split
  · rename_i u hu
    simp only [hu, Except.map]
  · rename_i hnone
    simp only [hnone, Except.map, shelf]
    exact congrArg (fun i => Except.ok (Shelf.mk (c.tables ++ [t]) i)) (place_of_append rfl rfl)

theorem map_shelf_makeDefault (c : Catalog) (name : String) :
    (c.makeDefault name).map shelf = c.shelf.makeDefault name := by
  rw [makeDefault, Shelf.makeDefault]
  split
  · rename_i hget
    have hfind : c.tables.findIdx? (·.name == name) = none := by
      rw [List.findIdx?_eq_none_iff]
      simpa [get?] using hget
    simp [shelf, hfind, Except.map]
  · rename_i t hget
    obtain ⟨ht, rfl⟩ := get?_eq_some_iff.1 hget
    have hfind : c.tables.findIdx? (·.name == t.name) =
        some (c.tables.findIdx (·.name == t.name)) :=
      List.findIdx?_eq_some_iff_findIdx_eq.2
        ⟨List.findIdx_lt_length_of_exists ⟨t, ht, beq_self_eq_true _⟩, rfl⟩
    simp [shelf, place, hfind, Except.map]

end Catalog

end LineCost
