import LineCost.Tally

/-!
Tallies by line. The lines ascend and occur once each, so that equal maps are equal lists.
-/

namespace LineCost

/-- A tally for each of finitely many lines. -/
structure LineMap where
  entries : List (Nat × Tally)
  ascending : entries.Pairwise (·.1 < ·.1)
  deriving DecidableEq

namespace LineMap

def empty : LineMap := ⟨[], .nil⟩

instance : Inhabited LineMap := ⟨empty⟩

/-- The lines, in ascending order. -/
def lines (m : LineMap) : List Nat := m.entries.map Prod.fst

def tallies (m : LineMap) : List Tally := m.entries.map Prod.snd

def get? (m : LineMap) (n : Nat) : Option Tally := m.entries.lookup n

theorem lookup_cons_ite (m k : Nat) (t : Tally) (l : List (Nat × Tally)) :
    ((m, t) :: l).lookup k = if k = m then some t else l.lookup k := by
  by_cases h : k = m
  · simp [h]
  · simp [List.lookup_cons, beq_eq_false_iff_ne.2 h, h]

theorem mem_of_lookup {n : Nat} {t : Tally} {l : List (Nat × Tally)} (h : l.lookup n = some t) :
    (n, t) ∈ l := by
  induction l with
  | nil => simp at h
  | cons e rest ih =>
    rw [List.lookup_cons] at h
    split at h
    · rename_i hn
      rw [beq_iff_eq.1 hn, ← Option.some.inj h]
      exact List.mem_cons_self
    · exact List.mem_cons_of_mem _ (ih h)

theorem lookup_of_mem {n : Nat} {t : Tally} {l : List (Nat × Tally)}
    (hl : l.Pairwise (·.1 < ·.1)) (h : (n, t) ∈ l) : l.lookup n = some t := by
  induction l with
  | nil => simp at h
  | cons e rest ih =>
    obtain ⟨he, hr⟩ := List.pairwise_cons.1 hl
    rcases List.mem_cons.1 h with rfl | h
    · simp
    · have hne : (n == e.1) = false := beq_eq_false_iff_ne.2 (Nat.ne_of_gt (he _ h))
      rw [List.lookup_cons, hne]
      exact ih hr h

/-- A map holds a tally for a line where it has that entry. -/
theorem get?_eq_some_iff {m : LineMap} {n : Nat} {t : Tally} :
    m.get? n = some t ↔ (n, t) ∈ m.entries :=
  ⟨mem_of_lookup, lookup_of_mem m.ascending⟩

/-- Changes the entry of a line in an ascending list, or puts one in. -/
def alterList (f : Option Tally → Tally) (n : Nat) : List (Nat × Tally) → List (Nat × Tally)
  | [] => [(n, f none)]
  | (m, t) :: rest =>
    if n < m then (n, f none) :: (m, t) :: rest
    else if n = m then (m, f (some t)) :: rest
    else (m, t) :: alterList f n rest

theorem fst_mem_alterList {f : Option Tally → Tally} {n : Nat} {l : List (Nat × Tally)}
    {e : Nat × Tally} (h : e ∈ alterList f n l) : e.1 = n ∨ ∃ e' ∈ l, e'.1 = e.1 := by
  induction l with
  | nil => simp_all [alterList]
  | cons a rest ih =>
    obtain ⟨m, t⟩ := a
    rw [alterList] at h
    split at h
    · rcases List.mem_cons.1 h with rfl | h
      · exact .inl rfl
      · exact .inr ⟨e, h, rfl⟩
    · split at h
      · rcases List.mem_cons.1 h with rfl | h
        · exact .inr ⟨(m, t), List.mem_cons_self, rfl⟩
        · exact .inr ⟨e, List.mem_cons_of_mem _ h, rfl⟩
      · rcases List.mem_cons.1 h with rfl | h
        · exact .inr ⟨_, List.mem_cons_self, rfl⟩
        · rcases ih h with h | ⟨e', he, h⟩
          · exact .inl h
          · exact .inr ⟨e', List.mem_cons_of_mem _ he, h⟩

theorem pairwise_alterList (f : Option Tally → Tally) (n : Nat) {l : List (Nat × Tally)}
    (h : l.Pairwise (·.1 < ·.1)) : (alterList f n l).Pairwise (·.1 < ·.1) := by
  induction l with
  | nil => simp [alterList]
  | cons a rest ih =>
    obtain ⟨m, t⟩ := a
    obtain ⟨ha, hr⟩ := List.pairwise_cons.1 h
    rw [alterList]
    split
    · rename_i hn
      refine List.pairwise_cons.2 ⟨fun e he => ?_, h⟩
      rcases List.mem_cons.1 he with rfl | he
      · exact hn
      · exact Nat.lt_trans hn (ha e he)
    · split
      · exact List.pairwise_cons.2 ⟨ha, hr⟩
      · refine List.pairwise_cons.2 ⟨fun e he => ?_, ih hr⟩
        rcases fst_mem_alterList he with h | ⟨e', he', h⟩
        · simp only [h]; omega
        · simp only [← h]; exact ha e' he'

/-- Changes the entry of a line, which is made if there is none. -/
def alter (m : LineMap) (n : Nat) (f : Option Tally → Tally) : LineMap :=
  ⟨alterList f n m.entries, pairwise_alterList f n m.ascending⟩

theorem lookup_alterList (f : Option Tally → Tally) (n k : Nat) {l : List (Nat × Tally)}
    (hl : l.Pairwise (·.1 < ·.1)) :
    (alterList f n l).lookup k = if k = n then some (f (l.lookup n)) else l.lookup k := by
  induction l with
  | nil => simp [alterList, lookup_cons_ite]
  | cons a rest ih =>
    obtain ⟨m, t⟩ := a
    obtain ⟨ha, hr⟩ := List.pairwise_cons.1 hl
    rw [alterList]
    split
    · rename_i hn
      have hnone : rest.lookup n = none := by
        cases h : rest.lookup n with
        | none => rfl
        | some u =>
          have hlt := ha _ (mem_of_lookup h)
          simp only at hlt
          omega
      have hne : ¬ n = m := Nat.ne_of_lt hn
      simp only [lookup_cons_ite, hne, if_false, hnone]
    · split
      · rename_i hn
        subst hn
        by_cases h : k = n <;> simp [h, lookup_cons_ite]
      · rename_i hn
        simp only [lookup_cons_ite, ih hr, hn, if_false]
        by_cases hk : k = m
        · subst hk
          have hkn : ¬ k = n := fun h => hn h.symm
          simp [hkn]
        · simp [hk]

/-- Changing one line leaves the others as they are. -/
theorem get?_alter (m : LineMap) (n k : Nat) (f : Option Tally → Tally) :
    (m.alter n f).get? k = if k = n then some (f (m.get? n)) else m.get? k :=
  lookup_alterList f n k m.ascending

def insert (m : LineMap) (n : Nat) (t : Tally) : LineMap := m.alter n fun _ => t

def addAt (m : LineMap) (n : Nat) (t : Tally) : LineMap :=
  m.alter n fun old => old.getD .zero + t

/-- Adds to the tally of a line, which is zero at first, unless the sum is too large. -/
def checkedAddAt (m : LineMap) (n : Nat) (t : Tally) : Except Overflow LineMap := do
  let sum ← ((m.get? n).getD .zero).checkedAdd t
  return m.insert n sum

/-- Adds one entry after the other. -/
def checkedAddAll (m : LineMap) (entries : List (Nat × Tally)) : Except Overflow LineMap :=
  entries.foldlM (fun m e => m.checkedAddAt e.1 e.2) m

/-- The map with the given entries; of two for one line the later counts. -/
def ofList (l : List (Nat × Tally)) : LineMap := l.foldl (fun m e => m.insert e.1 e.2) empty

/-- Changes every tally, knowing its line. -/
def map (m : LineMap) (f : Nat → Tally → Tally) : LineMap :=
  ⟨m.entries.map fun e => (e.1, f e.1 e.2), List.pairwise_map.2 m.ascending⟩

def filter (m : LineMap) (p : Nat → Tally → Bool) : LineMap :=
  ⟨m.entries.filter fun e => p e.1 e.2, m.ascending.filter _⟩

theorem get?_map (m : LineMap) (f : Nat → Tally → Tally) (n : Nat) :
    (m.map f).get? n = (m.get? n).map (f n) := by
  apply Option.ext
  intro t
  rw [get?_eq_some_iff, Option.map_eq_some_iff]
  simp only [map, List.mem_map, Prod.mk.injEq, Prod.exists, get?_eq_some_iff]
  constructor
  · intro h
    obtain ⟨k, u, h, rfl, rfl⟩ := h
    exact ⟨u, h, rfl⟩
  · intro h
    obtain ⟨u, h, rfl⟩ := h
    exact ⟨n, u, h, rfl, rfl⟩

theorem get?_filter (m : LineMap) (p : Nat → Tally → Bool) (n : Nat) :
    (m.filter p).get? n = (m.get? n).filter (p n) := by
  apply Option.ext
  intro t
  rw [get?_eq_some_iff, Option.filter_eq_some_iff, get?_eq_some_iff]
  simp [filter]

def total (m : LineMap) : Tally := Tally.sum m.tallies

/-- The lines that stand for a place in the source: all but line 0. -/
def validLines (m : LineMap) : List Nat := m.lines.filter (0 < ·)

end LineMap

end LineCost
