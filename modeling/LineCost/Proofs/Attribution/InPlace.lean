import LineCost.Proofs.Attribution.Pairing

/-!
A merge as it is carried out in place: the assembly functions are entered into an index, and then
each function of the outline is changed where it stands. The index is complete before the first
change, so a key that occurs twice ends the work with the outline as it was.
-/

namespace LineCost.Attribution

open Outline

/-- The assembly functions that have been entered, by key. -/
abbrev Index := List ((String × Nat) × Listing.Func)

/-- Work on the functions of an outline. If it ends early, they stay as they are then. -/
abbrev Work := EStateM DuplicateFunction (List Func)

def enter (index : Index) (a : Listing.Func) : Work Index :=
  match index.lookup (key a) with
  | some _ => EStateM.throw ⟨a.name, a.decl.line⟩
  | none => return (key a, a) :: index

/-- Serves the function in a place. Its blocks are marked before its assembly is looked up. -/
def serveAt (skips : List String) (index : Index) (p : Nat) : Work Report := do
  match (← get)[p]? with
  | none => return .zero
  | some f =>
    let f := markSkipped skips f
    modify (·.set p f)
    match index.lookup (f.name, f.decl.line) with
    | none => return .ofUnmatched (f.blocks.countP (·.skip))
    | some a =>
      let (f, report) := mergeFunc f a
      modify (·.set p f)
      return report

def mergeInPlace (skips : List String) (asm : List Listing.Func) : Work Report := do
  let index ← asm.foldlM enter []
  let reports ← (List.range (← get).length).mapM (serveAt skips index)
  return Report.sum reports

theorem run_bind_of_ok {α β : Type} {x : Work α} {f : α → Work β} {fs fs' : List Func} {a : α}
    (h : x.run fs = .ok a fs') : (x >>= f).run fs = (f a).run fs' := by
  rw [EStateM.run_bind, h]

theorem run_bind_of_error {α β : Type} {x : Work α} {f : α → Work β} {fs fs' : List Func}
    {d : DuplicateFunction} (h : x.run fs = .error d fs') : (x >>= f).run fs = .error d fs' := by
  rw [EStateM.run_bind, h]

/-- Two orders of assembly functions with keys of their own pair a function alike. -/
theorem partner?_perm {asm asm' : List Listing.Func} (hn : (asm.map key).Nodup)
    (hp : asm.Perm asm') (f : Func) : partner? asm' f = partner? asm f := by
  have hn' : (asm'.map key).Nodup := (hp.map key).nodup_iff.1 hn
  apply Option.ext
  intro a
  rw [partner?_eq_some_iff hn, partner?_eq_some_iff hn', hp.mem_iff]

theorem lookup_map_key (asm : List Listing.Func) (k : String × Nat) :
    (asm.map fun a => (key a, a)).lookup k = asm.find? fun a => key a == k := by
  induction asm with
  | nil => rfl
  | cons a rest ih =>
    rw [List.map_cons, List.lookup_cons, List.find?_cons, ih, Bool.beq_comm]

/-- An index of all functions, the last first, pairs a function as the functions themselves do. -/
theorem lookup_index {asm : List Listing.Func} (hn : (asm.map key).Nodup) (f : Func) :
    (asm.reverse.map fun a => (key a, a)).lookup (f.name, f.decl.line) = partner? asm f := by
  rw [lookup_map_key, ← partner?_perm hn asm.reverse_perm.symm]
  rfl

/-- A key is looked up in vain if it has not been entered. -/
theorem lookup_eq_none_iff {index : Index} {k : String × Nat} :
    index.lookup k = none ↔ k ∉ index.map Prod.fst := by
  rw [List.lookup_eq_none_iff, List.mem_map]
  simp only [bne_iff_ne, not_exists, not_and]
  exact forall₂_congr fun e _ => ne_comm

/-- Entering functions changes nothing in the outline, whether it succeeds or not. -/
theorem run_enter (asm : List Listing.Func) (index : Index) (fs : List Func) :
    (asm.foldlM enter index).run fs = match duplicate? (index.map Prod.fst) asm with
      | some d => .error d fs
      | none => .ok ((asm.reverse.map fun a => (key a, a)) ++ index) fs := by
  induction asm generalizing index with
  | nil => rfl
  | cons a rest ih =>
    rw [List.foldlM_cons, duplicate?]
    cases ha : index.lookup (key a) with
    | some b =>
      have hmem : key a ∈ index.map Prod.fst := by
        apply Classical.byContradiction
        intro hne
        rw [lookup_eq_none_iff.2 hne] at ha
        cases ha
      rw [if_pos hmem]
      simp only [enter, ha]
      rfl
    | none =>
      rw [if_neg (lookup_eq_none_iff.1 ha)]
      simp only [enter, ha, pure_bind, ih, List.map_cons, List.reverse_cons, List.map_append,
        List.append_assoc]
      rfl

/-- A function is served in its place, and those around it stay. -/
theorem run_serveAt {skips : List String} {asm : List Listing.Func} {index : Index}
    (hindex : ∀ f : Func, index.lookup (f.name, f.decl.line) = partner? asm f)
    (before : List Func) (f : Func) (after : List Func) :
    (serveAt skips index before.length).run (before ++ f :: after) =
      .ok (mergeOne skips asm f).2 (before ++ (mergeOne skips asm f).1 :: after) := by
  have hget : (before ++ f :: after)[before.length]? = some f := by simp
  have hset : ∀ g h : Func, (before ++ g :: after).set before.length h = before ++ h :: after := by
    intro g h
    simp
  have hpartner : index.lookup ((markSkipped skips f).name, (markSkipped skips f).decl.line) =
      partner? asm f := hindex f
  rw [serveAt, run_bind_of_ok (x := get) rfl]
  simp only [hget, hpartner, mergeOne_eq]
  rw [run_bind_of_ok (x := modify _) rfl, hset]
  cases partner? asm f with
  | none => rfl
  | some a =>
    show EStateM.Result.ok _ ((before ++ markSkipped skips f :: after).set before.length _) = _
    rw [hset]

theorem run_serveAll (skips : List String) {asm : List Listing.Func} {index : Index}
    (hindex : ∀ f : Func, index.lookup (f.name, f.decl.line) = partner? asm f)
    (before todo : List Func) :
    ((List.range' before.length todo.length).mapM (serveAt skips index)).run (before ++ todo) =
      .ok (todo.map fun f => (mergeOne skips asm f).2)
        (before ++ todo.map fun f => (mergeOne skips asm f).1) := by
  induction todo generalizing before with
  | nil => rfl
  | cons f rest ih =>
    have hrest := ih (before ++ [(mergeOne skips asm f).1])
    simp only [List.length_append, List.length_singleton, List.append_assoc,
      List.singleton_append] at hrest
    rw [List.length_cons, List.range'_succ, List.mapM_cons,
      run_bind_of_ok (run_serveAt hindex before f rest), run_bind_of_ok hrest]
    rfl

theorem run_mergeInPlace (skips : List String) (asm : List Listing.Func) (fs : List Func) :
    (mergeInPlace skips asm).run fs = match merge skips asm fs with
      | .ok (fs', report) => .ok report fs'
      | .error d => .error d fs := by
  have henter := run_enter asm [] fs
  rw [merge]
  cases hd : duplicate? [] asm with
  | some d =>
    simp only [List.map_nil, hd] at henter
    exact run_bind_of_error henter
  | none =>
    simp only [List.map_nil, hd, List.append_nil] at henter
    have hn : (asm.map key).Nodup := (duplicate?_eq_none_iff.1 hd).1
    have hserve := run_serveAll skips (lookup_index hn) [] fs
    rw [List.length_nil, ← List.range_eq_range', List.nil_append] at hserve
    rw [mergeInPlace, run_bind_of_ok henter, run_bind_of_ok (x := get) rfl, run_bind_of_ok hserve]
    simp only [List.map_map]
    rfl

end LineCost.Attribution
