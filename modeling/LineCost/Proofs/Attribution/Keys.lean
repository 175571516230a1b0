import LineCost.Proofs.Attribution.InPlace
import LineCost.Proofs.Repeats
import Mathlib.Data.List.Forall2

/-!
The keys of the assembly functions. A key that occurs twice is refused at its second occurrence, and
the outline stays as it was; without one, the order of the functions makes no difference, and each
function of the outline gets the costs of the one that has its key.
-/

namespace LineCost.Attribution

open Outline

/-- The function that `d` names is the first whose key has occurred before. -/
def FirstRepeat (asm : List Listing.Func) (d : DuplicateFunction) : Prop :=
  ∃ before a after, asm = before ++ a :: after ∧ (before.map key).Nodup ∧
    key a ∈ before.map key ∧ d = ⟨a.name, a.decl.line⟩

/-- A function after a merge. The assembly function that has its name and its line of declaration
serves it, and no other does. -/
structure ServedByKey (skips : List String) (asm : List Listing.Func) (f f' : Func) : Prop where
  served : ∀ a ∈ asm, key a = (f.name, f.decl.line) → f' = (mergeFunc (markSkipped skips f) a).1
  unserved : (∀ a ∈ asm, key a ≠ (f.name, f.decl.line)) → f' = markSkipped skips f

/-- How a merge goes, as the keys of the assembly functions have it. -/
structure GoesByKey (skips : List String) (asm : List Listing.Func) (fs : List Func) : Prop where
  /-- It fails if two of the functions share a key, and in no other case. -/
  fails : (∃ d, merge skips asm fs = .error d) ↔
    ∃ (i j : Nat) (a b : Listing.Func), i < j ∧ asm[i]? = some a ∧ asm[j]? = some b ∧ key a = key b
  named : ∀ d, merge skips asm fs = .error d ↔ FirstRepeat asm d
  /-- A merge in place that fails leaves the outline as it was, with all marks and tallies. -/
  kept : ∀ d fs', (mergeInPlace skips asm).run fs = .error d fs' ↔
    merge skips asm fs = .error d ∧ fs' = fs
  changed : ∀ report fs', (mergeInPlace skips asm).run fs = .ok report fs' ↔
    merge skips asm fs = .ok (fs', report)
  paired : ∀ report fs', merge skips asm fs = .ok (fs', report) →
    List.Forall₂ (ServedByKey skips asm) fs fs'
  /-- The order of the assembly functions makes no difference if their keys are distinct. -/
  reordered : (asm.map key).Nodup → ∀ asm', asm.Perm asm' →
    merge skips asm' fs = merge skips asm fs ∧ ∃ r, merge skips asm fs = .ok r

variable {skips : List String} {asm asm' : List Listing.Func} {d : DuplicateFunction}
  {fs fs' : List Func}

theorem duplicate?_eq_some_iff {seen : List (String × Nat)} :
    duplicate? seen asm = some d ↔ ∃ before a after, asm = before ++ a :: after ∧
      duplicate? seen before = none ∧ key a ∈ (before.map key).reverse ++ seen ∧
      d = ⟨a.name, a.decl.line⟩ := by
  induction asm generalizing seen with
  | nil => simp [duplicate?]
  | cons c rest ih =>
    rw [duplicate?]
    by_cases hc : key c ∈ seen
    · rw [if_pos hc, Option.some.injEq]
      constructor
      · rintro rfl
        exact ⟨[], c, rest, rfl, rfl, hc, rfl⟩
      · rintro ⟨before, a, after, hsplit, hbefore, -, rfl⟩
        cases before with
        | nil => rw [(List.cons.inj hsplit).1]
        | cons b before =>
          rw [duplicate?, ← (List.cons.inj hsplit).1, if_pos hc] at hbefore
          cases hbefore
    · rw [if_neg hc, ih]
      constructor
      · rintro ⟨before, a, after, rfl, hbefore, ha, rfl⟩
        refine ⟨c :: before, a, after, rfl, ?_, ?_, rfl⟩
        · rw [duplicate?, if_neg hc, hbefore]
        · simpa using ha
      · rintro ⟨before, a, after, hsplit, hbefore, ha, rfl⟩
        cases before with
        | nil =>
          rw [(List.cons.inj hsplit).1] at hc
          exact absurd ha hc
        | cons b before =>
          obtain ⟨rfl, rfl⟩ := List.cons.inj hsplit
          rw [duplicate?, if_neg hc] at hbefore
          refine ⟨before, a, after, rfl, hbefore, ?_, rfl⟩
          simpa using ha

theorem duplicate?_eq_some_iff_firstRepeat : duplicate? [] asm = some d ↔ FirstRepeat asm d := by
  simp [duplicate?_eq_some_iff, duplicate?_eq_none_iff, FirstRepeat]

theorem exists_firstRepeat_iff : (∃ d, FirstRepeat asm d) ↔ ¬ (asm.map key).Nodup := by
  have hnone : duplicate? [] asm = none ↔ (asm.map key).Nodup := by simp [duplicate?_eq_none_iff]
  simp only [← duplicate?_eq_some_iff_firstRepeat, ← hnone]
  exact Option.ne_none_iff_exists'.symm

/-- Keys are distinct unless some key stands in two places. -/
theorem not_nodup_iff : ¬ (asm.map key).Nodup ↔
    ∃ (i j : Nat) (a b : Listing.Func), i < j ∧ asm[i]? = some a ∧ asm[j]? = some b ∧
      key a = key b :=
  not_nodup_map_iff

theorem merge_eq_error_iff : merge skips asm fs = .error d ↔ FirstRepeat asm d := by
  rw [← duplicate?_eq_some_iff_firstRepeat, merge]
  cases duplicate? [] asm with
  | none => simp
  | some d' => simp

theorem merge_perm (hn : (asm.map key).Nodup) (hp : asm.Perm asm') :
    merge skips asm' fs = merge skips asm fs := by
  have hserved : mergeOne skips asm' = mergeOne skips asm := by
    funext f
    rw [mergeOne_eq, mergeOne_eq, partner?_perm hn hp]
  have hd : duplicate? [] asm = none := duplicate?_eq_none_iff.2 ⟨hn, by simp⟩
  have hd' : duplicate? [] asm' = none :=
    duplicate?_eq_none_iff.2 ⟨(hp.map key).nodup_iff.1 hn, by simp⟩
  simp only [merge, hd, hd', hserved]

theorem mergeOne_servedByKey (hn : (asm.map key).Nodup) (f : Func) :
    ServedByKey skips asm f (mergeOne skips asm f).1 where
  served := by
    intro a ha hk
    rw [mergeOne_eq, (partner?_eq_some_iff hn).2 ⟨ha, hk⟩]
  unserved := by
    intro hk
    have hp : partner? asm f = none := List.find?_eq_none.2 fun a ha => by simpa using hk a ha
    rw [mergeOne_eq, hp]

/-- A merge fails exactly if two assembly functions share a key; it names the first that repeats one,
and leaves the outline as it was. If the keys are distinct, it gives the same for any order of the
assembly functions, and each function of the outline gets the costs of the one that has its name and
its line of declaration. -/
theorem merge_goesByKey (skips : List String) (asm : List Listing.Func) (fs : List Func) :
    GoesByKey skips asm fs where
  fails := by
    rw [← not_nodup_iff, ← exists_firstRepeat_iff]
    simp only [merge_eq_error_iff]
  named := fun _ => merge_eq_error_iff
  kept := by
    intro d fs'
    rw [run_mergeInPlace]
    cases merge skips asm fs with
    | ok r => simp
    | error d' => simp [@eq_comm _ fs fs']
  changed := by
    intro report fs'
    rw [run_mergeInPlace]
    cases merge skips asm fs with
    | ok r =>
      obtain ⟨gs, report'⟩ := r
      simp [and_comm]
    | error d => simp
  paired := by
    intro report fs' h
    obtain ⟨hn, hfs, _⟩ := merge_eq_ok_iff.1 h
    rw [hfs, List.forall₂_map_right_iff, List.forall₂_same]
    exact fun f _ => mergeOne_servedByKey hn f
  reordered := fun hn _ hp => ⟨merge_perm hn hp, _, merge_eq_ok_iff.2 ⟨hn, rfl, rfl⟩⟩

/-- Of three functions of one name, the third repeats the key of the first. -/
example :
    let asm : List Listing.Func := [⟨"f", ⟨"a.c", 1⟩, [], .empty⟩, ⟨"f", ⟨"a.c", 2⟩, [], .empty⟩,
      ⟨"f", ⟨"b.c", 1⟩, [], .empty⟩]
    let b : Block := { Block.named "lpad" with tally := ⟨1, 0, 0, 0, 0, 0, 1⟩ }
    let f : Func := ⟨"f", ⟨"a.c", 1⟩, .line, [b]⟩
    (mergeInPlace defaultSkips asm).run [f] = .error ⟨"f", 1⟩ [f] := rfl

end LineCost.Attribution
