import LineCost.Proofs.Run.Places
import Mathlib.Data.Fintype.EquivFin
import Mathlib.Logic.Relation

/-!
A file is replaced by way of a draft: a new file takes the content piece by piece, and is moved to
its destination once it has all of it; a draft that is not moved disappears. Anything may end the
work before the move. However it goes, the destination has been replaced as a whole, or the tree is
what it was.
-/

namespace LineCost.Run

open LineCost.Run.Path (Names)

namespace Files

variable {fs : Files} {p q : Place} {e e' : Entry}

/-- Removes whatever is at a place. -/
def erase (fs : Files) (p : Place) : Files :=
  { fs with entries := fs.entries.filter fun a => a.1 ≠ p }

theorem setList_setList (p : Place) (e e' : Entry) (l : List (Place × Entry)) :
    setList p e' (setList p e l) = setList p e' l := by
  induction l with
  | nil => simp [setList]
  | cons a l ih =>
    obtain ⟨k, f⟩ := a
    by_cases hk : k = p
    · simp [setList, hk]
    · simp [setList, hk, ih]

/-- The last of two entries for one place stays. -/
theorem set_set : (fs.set p e).set p e' = fs.set p e' := by
  rw [set, set, set, setList_setList]

theorem filter_setList_of_lookup_eq_none {l : List (Place × Entry)} (h : l.lookup p = none) :
    (setList p e l).filter (fun a => a.1 ≠ p) = l := by
  induction l with
  | nil => simp [setList]
  | cons a l ih =>
    obtain ⟨k, f⟩ := a
    by_cases hk : k = p
    · subst hk
      rw [List.lookup_cons_self] at h
      cases h
    · rw [List.lookup_cons, beq_eq_false_iff_ne.2 (Ne.symm hk)] at h
      rw [setList, if_neg hk, List.filter_cons_of_pos (by simpa using hk), ih h]

/-- Nothing is left of what was put where nothing was. -/
theorem erase_set (h : fs.lookup? p = none) : (fs.set p e).erase p = fs := by
  have hp : p.isEmpty = false := by
    rw [Bool.eq_false_iff]
    intro hp
    rw [lookup?, if_pos hp] at h
    cases h
  rw [lookup?, if_neg (Bool.eq_false_iff.1 hp)] at h
  rw [erase, set, filter_setList_of_lookup_eq_none h]

/-- A directory always has room for another name. -/
theorem exists_lookup?_eq_none (fs : Files) (parent : Place) :
    ∃ name, fs.lookup? (parent ++ [name]) = none := by
  obtain ⟨name, hname⟩ := Infinite.exists_notMem_finset
    (fs.entries.map fun a => (a.1.getLastD "").toList).toFinset
  refine ⟨String.ofList name, ?_⟩
  rw [lookup?, if_neg (by simp), List.lookup_eq_none_iff]
  rintro ⟨k, e⟩ hk
  rw [bne_iff_ne]
  rintro rfl
  refine hname (List.mem_toFinset.2 (List.mem_map.2 ⟨_, hk, ?_⟩))
  simp

end Files

/-- How far the work on a draft has come. -/
inductive Phase where
  | begun
  | drafting (draft : Place) (part : ByteArray)
  | saved
  | abandoned

/-- The work on a draft, and the tree of files around it. -/
structure Saving where
  phase : Phase
  files : Files

namespace Saving

/-- The steps that save a content by way of a draft, any of which may be the last that succeeds. -/
inductive Step (path : String) (content : ByteArray) : Saving → Saving → Prop
  | refuse {fs : Files} : Step path content ⟨.begun, fs⟩ ⟨.abandoned, fs⟩
  /-- A draft is a new file in some directory. -/
  | draft {fs : Files} {parent : Place} {name : String} (hd : fs.lookup? parent = some .directory)
      (hnew : fs.lookup? (parent ++ [name]) = none) : Step path content ⟨.begun, fs⟩
        ⟨.drafting (parent ++ [name]) .empty, fs.set (parent ++ [name]) (.file .empty)⟩
  | write {fs : Files} {d : Place} {part : ByteArray} (more : ByteArray) :
      Step path content ⟨.drafting d part, fs⟩
        ⟨.drafting d (part ++ more), fs.set d (.file (part ++ more))⟩
  | drop {fs : Files} {d : Place} {part : ByteArray} :
      Step path content ⟨.drafting d part, fs⟩ ⟨.abandoned, fs.erase d⟩
  /-- The draft that has all the content goes to the destination, in place of what is there. -/
  | persist {fs : Files} {d p : Place} (hp : fs.target? path = some p) :
      Step path content ⟨.drafting d content, fs⟩ ⟨.saved, (fs.erase d).set p (.file content)⟩

/-- All that the steps can have made of a tree: there is a draft in it, or the whole content at the
destination, or nothing new. -/
def Sound (path : String) (content : ByteArray) (fs : Files) : Saving → Prop
  | ⟨.begun, files⟩ => files = fs
  | ⟨.drafting d part, files⟩ => fs.lookup? d = none ∧ files = fs.set d (.file part)
  | ⟨.saved, files⟩ => ∃ p, fs.target? path = some p ∧ files = fs.set p (.file content)
  | ⟨.abandoned, files⟩ => files = fs

variable {path name : String} {content : ByteArray} {fs : Files} {s s' : Saving} {d p : Place}

theorem not_directory (h : fs.lookup? d = none) : fs.lookup? d ≠ some .directory := by
  rw [h]
  nofun

theorem Sound.step (h : Names path name) (hs : Sound path content fs s)
    (hstep : Step path content s s') : Sound path content fs s' := by
  cases hstep with
  | refuse => exact hs
  | draft _ hnew =>
    obtain rfl := hs
    exact ⟨hnew, rfl⟩
  | write more =>
    obtain ⟨hnew, rfl⟩ := hs
    exact ⟨hnew, Files.set_set⟩
  | drop =>
    obtain ⟨hnew, rfl⟩ := hs
    exact Files.erase_set hnew
  | persist hp =>
    obtain ⟨hnew, rfl⟩ := hs
    refine ⟨_, (Files.target?_set_eq_some_iff h (not_directory hnew)).1 hp, ?_⟩
    rw [Files.erase_set hnew]

theorem Sound.run (h : Names path name)
    (hsteps : Relation.ReflTransGen (Step path content) ⟨.begun, fs⟩ s) :
    Sound path content fs s := by
  induction hsteps with
  | refl => exact rfl
  | tail _ hstep ih => exact ih.step h hstep

/-- Work that meets no fault replaces the file. -/
theorem saved_of_target? (h : Names path name) (hp : fs.target? path = some p) :
    Relation.ReflTransGen (Step path content) ⟨.begun, fs⟩
      ⟨.saved, fs.set p (.file content)⟩ := by
  obtain ⟨front, hfront⟩ := h.steps
  obtain ⟨hleads, _⟩ := (Files.target?_eq_some_iff h).1 hp
  obtain ⟨parent, _, hparent, _⟩ := (Files.leadsTo_iff hfront h.up).1 hleads
  obtain ⟨fresh, hnew⟩ := fs.exists_lookup?_eq_none parent
  have hmoved : fs.set p (.file content) =
      ((fs.set (parent ++ [fresh]) (.file content)).erase (parent ++ [fresh])).set p
        (.file content) := by
    rw [Files.erase_set hnew]
  rw [hmoved]
  refine .tail (.tail (.tail .refl (.draft hparent hnew)) (.write content)) ?_
  rw [Files.set_set, ByteArray.empty_append]
  exact .persist ((Files.target?_set_eq_some_iff h (not_directory hnew)).2 hp)

end Saving

end LineCost.Run
