import LineCost.LineMap

/-!
Sums of tallies, and what of them falls into a part of a line map.
-/

namespace LineCost

namespace Tally

theorem sum_perm {ts us : List Tally} (h : ts.Perm us) : sum ts = sum us := by
  induction h with
  | nil => rfl
  | cons t _ ih => rw [sum_cons, sum_cons, ih]
  | swap t u l => rw [sum_cons, sum_cons, sum_cons, sum_cons, ← add_assoc, ← add_assoc, add_comm u t]
  | trans _ _ ih₁ ih₂ => exact ih₁.trans ih₂

theorem add_add_add_comm (t u v w : Tally) : (t + u) + (v + w) = (t + v) + (u + w) := by
  rw [add_assoc, add_assoc, ← add_assoc u v w, add_comm u v, add_assoc v u w]

theorem sum_map_add {α : Type} (l : List α) (f g : α → Tally) :
    sum (l.map fun a => f a + g a) = sum (l.map f) + sum (l.map g) := by
  induction l with
  | nil => simp
  | cons a l ih => simp only [List.map_cons, sum_cons, ih, add_add_add_comm]

theorem sum_map_zero {α : Type} (l : List α) : sum (l.map fun _ => zero) = zero := by
  induction l with
  | nil => rfl
  | cons a l ih => simp only [List.map_cons, sum_cons, ih, add_zero]

theorem sum_map_single {α : Type} [DecidableEq α] {l : List α} {a : α} (hn : l.Nodup) (ha : a ∈ l)
    (t : Tally) : sum (l.map fun b => if a = b then t else zero) = t := by
  induction l with
  | nil => simp at ha
  | cons b l ih =>
    obtain ⟨hb, hl⟩ := List.nodup_cons.1 hn
    rw [List.map_cons, sum_cons]
    rcases List.mem_cons.1 ha with h | h
    · subst h
      have hz : l.map (fun b => if a = b then t else zero) = l.map fun _ => zero := by
        apply List.map_congr_left
        intro c hc
        have hac : a ≠ c := fun e => hb (e ▸ hc)
        rw [if_neg hac]
      rw [if_pos rfl, hz, sum_map_zero, add_zero]
    · have hab : a ≠ b := fun e => hb (e ▸ h)
      rw [if_neg hab, ih hl h, zero_add]

theorem cycles_sum_eq_zero_iff {ts : List Tally} :
    (sum ts).cycles = 0 ↔ ∀ t ∈ ts, t.cycles = 0 := by
  induction ts with
  | nil => simp [zero]
  | cons t ts ih =>
    rw [sum_cons, cycles_add, List.forall_mem_cons, ← ih]
    omega

theorem sum_flatMap {α : Type} (l : List α) (f : α → List Tally) :
    sum (l.flatMap f) = sum (l.map fun a => sum (f a)) := by
  induction l with
  | nil => rfl
  | cons a l ih => simp only [List.flatMap_cons, sum_append, ih, List.map_cons, sum_cons]

end Tally

namespace LineMap

theorem mem_lines_iff {m : LineMap} {n : Nat} : n ∈ m.lines ↔ ∃ t, m.get? n = some t := by
  simp only [lines, List.mem_map, Prod.exists, get?_eq_some_iff]
  constructor
  · intro h
    obtain ⟨k, t, hm, hk⟩ := h
    subst hk
    exact ⟨t, hm⟩
  · intro h
    obtain ⟨t, hm⟩ := h
    exact ⟨n, t, hm, rfl⟩

theorem nodup_lines (m : LineMap) : m.lines.Nodup := by
  have h : m.lines.Pairwise (· < ·) := List.pairwise_map.2 m.ascending
  exact h.imp Nat.ne_of_lt

theorem mem_validLines_iff {m : LineMap} {n : Nat} : n ∈ m.validLines ↔ 0 < n ∧ n ∈ m.lines := by
  simp only [validLines, List.mem_filter, decide_eq_true_eq]
  exact And.comm

theorem eq_of_entries {m k : LineMap} (h : m.entries = k.entries) : m = k := by
  cases m
  cases k
  simp only at h
  subst h
  rfl

/-- A map is known by what it holds for each line. -/
theorem ext_get? {m k : LineMap} (h : ∀ n, m.get? n = k.get? n) : m = k := by
  have hmem : ∀ e : Nat × Tally, e ∈ m.entries ↔ e ∈ k.entries := by
    intro e
    rw [← get?_eq_some_iff, ← get?_eq_some_iff, h]
  have hm : m.entries.Nodup := (List.Pairwise.imp (fun h e => by rw [e] at h; omega) m.ascending)
  have hk : k.entries.Nodup := (List.Pairwise.imp (fun h e => by rw [e] at h; omega) k.ascending)
  have hp : m.entries.Perm k.entries := (List.perm_ext_iff_of_nodup hm hk).2 hmem
  apply eq_of_entries
  apply hp.eq_of_pairwise _ m.ascending k.ascending
  intro a b _ _ hab hba
  omega

theorem filter_of_all (m : LineMap) (p : Nat → Tally → Bool) (h : ∀ n t, p n t = true) :
    m.filter p = m := by
  apply ext_get?
  intro n
  rw [get?_filter]
  cases m.get? n with
  | none => rfl
  | some t => simp only [Option.filter, h, if_true]

theorem filter_filter (m : LineMap) (p q : Nat → Tally → Bool) :
    (m.filter p).filter q = m.filter fun n t => p n t && q n t := by
  apply ext_get?
  intro n
  simp only [get?_filter, Option.filter_filter]

theorem isEmpty_filter_eq_false_iff (m : LineMap) (p : Nat → Tally → Bool) :
    (m.filter p).entries.isEmpty = false ↔ ∃ n t, m.get? n = some t ∧ p n t = true := by
  simp only [filter, List.isEmpty_eq_false_iff_exists_mem, List.mem_filter, Prod.exists,
    get?_eq_some_iff]

theorem map_id (m : LineMap) (f : Nat → Tally → Tally) (h : ∀ n t, f n t = t) : m.map f = m := by
  apply ext_get?
  intro n
  rw [get?_map]
  cases m.get? n with
  | none => rfl
  | some t => simp only [Option.map_some, h]

theorem map_congr {m : LineMap} {f g : Nat → Tally → Tally}
    (h : ∀ n ∈ m.lines, ∀ t, f n t = g n t) : m.map f = m.map g := by
  apply ext_get?
  intro n
  rw [get?_map, get?_map]
  cases hn : m.get? n with
  | none => rfl
  | some t => simp only [Option.map_some, h n (mem_lines_iff.2 ⟨t, hn⟩)]

theorem map_map (m : LineMap) (f g : Nat → Tally → Tally) :
    (m.map f).map g = m.map fun n t => g n (f n t) := by
  apply ext_get?
  intro n
  simp only [get?_map, Option.map_map]
  rfl

@[simp] theorem lines_map (m : LineMap) (f : Nat → Tally → Tally) : (m.map f).lines = m.lines := by
  simp only [lines, map, List.map_map]
  rfl

@[simp] theorem validLines_map (m : LineMap) (f : Nat → Tally → Tally) :
    (m.map f).validLines = m.validLines := by
  simp only [validLines, lines_map]

theorem mem_lines_addAt {m : LineMap} {n k : Nat} {t : Tally} :
    k ∈ (m.addAt n t).lines ↔ k = n ∨ k ∈ m.lines := by
  rw [mem_lines_iff, mem_lines_iff, addAt, get?_alter]
  by_cases h : k = n
  · simp [h]
  · simp [h]

theorem alterList_of_lt (f : Option Tally → Tally) {n : Nat} {l : List (Nat × Tally)}
    (h : ∀ e ∈ l, e.1 < n) : alterList f n l = l ++ [(n, f none)] := by
  induction l with
  | nil => rfl
  | cons e l ih =>
    obtain ⟨k, t⟩ := e
    have hk : k < n := h (k, t) List.mem_cons_self
    have hn : ¬ n < k := by omega
    have hne : ¬ n = k := by omega
    rw [alterList, if_neg hn, if_neg hne, ih fun e he => h e (List.mem_cons_of_mem _ he)]
    rfl

/-- To add ascending lines one after the other puts them in as they are. -/
theorem entries_foldl_addAt {l : List (Nat × Tally)} {m : LineMap}
    (h : (m.entries ++ l).Pairwise (·.1 < ·.1)) :
    (l.foldl (fun m e => m.addAt e.1 e.2) m).entries = m.entries ++ l := by
  induction l generalizing m with
  | nil => simp
  | cons e l ih =>
    have hlt : ∀ a ∈ m.entries, a.1 < e.1 := by
      intro a ha
      exact (List.pairwise_append.1 h).2.2 a ha e List.mem_cons_self
    have he : (m.addAt e.1 e.2).entries = m.entries ++ [e] := by
      have halter := alterList_of_lt (fun old => old.getD Tally.zero + e.2) hlt
      rw [Option.getD_none, Tally.zero_add] at halter
      exact halter
    rw [List.foldl_cons, ih (by rw [he, List.append_assoc]; exact h), he, List.append_assoc]
    rfl

/-- To put in the sum of what is there and more is to add more. -/
theorem insert_eq_addAt (m : LineMap) (n : Nat) (u : Tally) :
    m.insert n ((m.get? n).getD .zero + u) = m.addAt n u := by
  apply ext_get?
  intro k
  rw [insert, addAt, get?_alter, get?_alter]

/-- To add to a line that is there leaves the lines as they are. -/
theorem addAt_eq_map {m : LineMap} {n : Nat} (h : n ∈ m.lines) (t : Tally) :
    m.addAt n t = m.map fun k u => if k = n then u + t else u := by
  obtain ⟨v, hv⟩ := mem_lines_iff.1 h
  apply ext_get?
  intro k
  rw [addAt, get?_alter, get?_map]
  split
  · rename_i hk
    subst hk
    simp only [hv, Option.getD_some, Option.map_some]
  · cases m.get? k with
    | none => rfl
    | some u => rfl

theorem total_map_add (m : LineMap) (f : Nat → Tally) :
    (m.map fun n t => t + f n).total = m.total + Tally.sum (m.lines.map f) := by
  simp only [total, tallies, lines, map, List.map_map]
  exact Tally.sum_map_add m.entries Prod.snd (fun e => f e.1)

theorem sum_alterList (n : Nat) (t : Tally) (l : List (Nat × Tally)) :
    Tally.sum ((alterList (fun old => old.getD .zero + t) n l).map Prod.snd) =
      Tally.sum (l.map Prod.snd) + t := by
  induction l with
  | nil => simp [alterList]
  | cons e l ih =>
    obtain ⟨k, u⟩ := e
    rw [alterList]
    split
    · simp only [List.map_cons, Tally.sum_cons, Option.getD_none, Tally.zero_add]
      exact Tally.add_comm _ _
    · split
      · simp only [List.map_cons, Tally.sum_cons, Option.getD_some]
        rw [Tally.add_assoc, Tally.add_comm t, ← Tally.add_assoc]
      · simp only [List.map_cons, Tally.sum_cons, ih, Tally.add_assoc]

/-- What is added at one line is added to the sum. -/
theorem total_addAt (m : LineMap) (n : Nat) (t : Tally) :
    (m.addAt n t).total = m.total + t :=
  sum_alterList n t m.entries

theorem sum_entries_at (m : LineMap) (n : Nat) :
    Tally.sum ((m.entries.filter fun e => e.1 = n).map Prod.snd) = (m.get? n).getD .zero := by
  obtain ⟨l, hl⟩ := m
  simp only [get?]
  induction l with
  | nil => rfl
  | cons e l ih =>
    obtain ⟨k, t⟩ := e
    obtain ⟨hk, hl'⟩ := List.pairwise_cons.1 hl
    rw [lookup_cons_ite]
    by_cases h : k = n
    · have hnone : l.filter (fun e => e.1 = n) = [] := by
        apply List.filter_eq_nil_iff.2
        intro e he
        have := hk e he
        simp only [decide_eq_true_eq]
        omega
      simp [h, hnone]
    · have h' : ¬ n = k := fun e => h e.symm
      simp only [List.filter_cons, h, h', decide_false, if_false, Bool.false_eq_true]
      exact ih hl'

end LineMap

end LineCost
