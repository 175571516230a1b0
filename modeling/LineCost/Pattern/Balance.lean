import LineCost.Pattern.Spans

/-!
Patterns in another shape. As it is written, a row of parts leans to one side, and so does a choice
of branches; a balanced pattern is about as flat as it can be. It spans the same pieces
(`spans_balanced_iff`).
-/

namespace LineCost.Pattern

/-- The two ways to put many patterns together. -/
inductive Joint where
  | row
  | choice
  deriving DecidableEq

namespace Joint

def pair : Joint → Pattern → Pattern → Pattern
  | row => .seq
  | choice => .alt

def chain : Joint → List Pattern → Pattern
  | row => ofParts
  | choice => ofBranches

/-- Neighbours put together two by two. -/
def pairs (k : Joint) : List Pattern → List Pattern
  | p :: q :: rest => k.pair p q :: k.pairs rest
  | ps => ps

/-- Many patterns put together after so many rounds of pairing. -/
def chainAfter (k : Joint) : (rounds : Nat) → List Pattern → Pattern
  | 0, ps => k.chain ps
  | n + 1, ps => k.chainAfter n (k.pairs ps)

/-- Puts a pattern in front of runs of equal ones. -/
def addToRuns (p : Pattern) : List (Pattern × Nat) → List (Pattern × Nat)
  | [] => [(p, 1)]
  | (q, n) :: rest => if p = q then (q, n + 1) :: rest else (p, 1) :: (q, n) :: rest

/-- A run of equal patterns as one. -/
def ofRun : Joint → Pattern × Nat → Pattern
  | row, (p, n) => if n = 1 then p else .repeated p n (some 0) false
  | choice, (p, _) => p

/-- The patterns with a single one in place of each run of equal ones. -/
def withoutRuns (k : Joint) (ps : List Pattern) : List Pattern :=
  (ps.foldr addToRuns []).map k.ofRun

/-- Many patterns put together, with enough rounds of pairing to leave one. -/
def tree (k : Joint) (ps : List Pattern) : Pattern :=
  k.chainAfter (ps.length.log2 + 1) (k.withoutRuns ps)

/-- The patterns themselves if they are going to be put together in the same way, else the pattern
that they make. -/
def within (k outer : Joint) (ps : List Pattern) : List Pattern :=
  if k = outer then ps else [k.tree ps]

end Joint

/-- Balanced patterns which, put together, span the same pieces. -/
def balancedParts : Pattern → Joint → List Pattern
  | .seq p q, k => Joint.row.within k (p.balancedParts .row ++ q.balancedParts .row)
  | .alt p q, k => Joint.choice.within k (p.balancedParts .choice ++ q.balancedParts .choice)
  | .repeated p least extra isLazy, _ =>
    [.repeated (Joint.row.tree (p.balancedParts .row)) least extra isLazy]
  | .group _ p, k => p.balancedParts k
  | p, _ => [p]

def balanced (p : Pattern) : Pattern := Joint.row.tree (p.balancedParts .row)

variable {k : Joint} {p q : Pattern} {ps qs : List Pattern} {s e : Bool} {v w t : List Char}

namespace Joint

/-- The patterns, put together, span a piece: each of them its share of it in a row, one of them the
whole of it in a choice. -/
def Spans : Joint → List Pattern → Bool → List Char → Bool → Prop
  | row, [], _, t, _ => t = []
  | row, p :: ps, s, t, e =>
    ∃ v w, t = v ++ w ∧ p.Spans s v (e && w.isEmpty) ∧ row.Spans ps (s && v.isEmpty) w e
  | choice, [], _, _, _ => False
  | choice, p :: ps, s, t, e => p.Spans s t e ∨ choice.Spans ps s t e

theorem spans_singleton_iff : k.Spans [p] s t e ↔ p.Spans s t e := by
  cases k with
  | row =>
    constructor
    · intro h
      obtain ⟨v, _, rfl, h, rfl⟩ := h
      simpa using h
    · intro h
      exact ⟨t, [], by simp, by simpa using h, rfl⟩
  | choice => exact iff_of_eq (or_false _)

theorem spans_row_append_iff :
    row.Spans (ps ++ qs) s t e ↔
      ∃ v w, t = v ++ w ∧ row.Spans ps s v (e && w.isEmpty) ∧
        row.Spans qs (s && v.isEmpty) w e := by
  induction ps generalizing s t with
  | nil =>
    constructor
    · intro h
      exact ⟨[], t, rfl, rfl, by simpa using h⟩
    · intro h
      obtain ⟨_, w, rfl, rfl, h⟩ := h
      simpa using h
  | cons p ps ih =>
    simp only [List.cons_append, Spans, ih]
    constructor
    · intro h
      obtain ⟨v, _, rfl, hp, v', w, rfl, hps, hqs⟩ := h
      refine ⟨v ++ v', w, by simp, ⟨v, v', rfl, ?_, hps⟩, ?_⟩
      · rwa [isEmpty_append, Bool.and_comm v'.isEmpty, ← Bool.and_assoc] at hp
      · rwa [isEmpty_append, ← Bool.and_assoc]
    · intro h
      obtain ⟨_, w, rfl, ⟨v, v', rfl, hp, hps⟩, hqs⟩ := h
      refine ⟨v, v' ++ w, by simp, ?_, v', w, rfl, hps, ?_⟩
      · rwa [isEmpty_append, Bool.and_comm v'.isEmpty, ← Bool.and_assoc]
      · rwa [isEmpty_append, ← Bool.and_assoc] at hqs

theorem spans_choice_append_iff :
    choice.Spans (ps ++ qs) s t e ↔ choice.Spans ps s t e ∨ choice.Spans qs s t e := by
  induction ps with
  | nil => simp [Spans]
  | cons p ps ih => simp only [List.cons_append, Spans, ih, or_assoc]

/-- Patterns can be exchanged for others that span the same. -/
theorem spans_append_congr_left (rest : List Pattern)
    (h : ∀ {s t e}, k.Spans ps s t e ↔ k.Spans qs s t e) :
    k.Spans (ps ++ rest) s t e ↔ k.Spans (qs ++ rest) s t e := by
  cases k with
  | row => simp only [spans_row_append_iff, h]
  | choice => simp only [spans_choice_append_iff, h]

theorem spans_append_congr_right (rest : List Pattern)
    (h : ∀ {s t e}, k.Spans ps s t e ↔ k.Spans qs s t e) :
    k.Spans (rest ++ ps) s t e ↔ k.Spans (rest ++ qs) s t e := by
  cases k with
  | row => simp only [spans_row_append_iff, h]
  | choice => simp only [spans_choice_append_iff, h]

theorem spans_pair_iff : (k.pair p q).Spans s t e ↔ k.Spans [p, q] s t e := by
  cases k with
  | row =>
    rw [pair, spans_seq_iff]
    show _ ↔ ∃ v w, t = v ++ w ∧ _ ∧ row.Spans [q] (s && v.isEmpty) w e
    simp only [spans_singleton_iff]
  | choice =>
    rw [pair, spans_alt_iff]
    simp only [Spans, or_false]

theorem chain_cons (h : ps ≠ []) : k.chain (p :: ps) = k.pair p (k.chain ps) := by
  cases ps with
  | nil => exact absurd rfl h
  | cons q ps => cases k <;> rfl

theorem spans_chain_iff (h : ps ≠ []) : (k.chain ps).Spans s t e ↔ k.Spans ps s t e := by
  induction ps generalizing s t e with
  | nil => exact absurd rfl h
  | cons p ps ih =>
    cases ps with
    | nil => cases k <;> exact spans_singleton_iff.symm
    | cons q ps =>
      have hne := List.cons_ne_nil q ps
      rw [chain_cons hne, spans_pair_iff]
      exact spans_append_congr_right [p] (spans_singleton_iff.trans (ih hne))

theorem pairs_ne_nil (h : ps ≠ []) : k.pairs ps ≠ [] := by
  match ps, h with
  | [p], _ => exact List.cons_ne_nil _ _
  | p :: q :: ps, _ => exact List.cons_ne_nil _ _

theorem spans_pairs_iff : k.Spans (k.pairs ps) s t e ↔ k.Spans ps s t e := by
  induction ps using pairs.induct generalizing s t e with
  | case1 p q ps ih =>
    refine (spans_append_congr_right [k.pair p q] ih).trans ?_
    exact spans_append_congr_left ps (spans_singleton_iff.trans spans_pair_iff)
  | case2 ps h =>
    rw [pairs]
    exact h

theorem spans_chainAfter_iff {n : Nat} (h : ps ≠ []) :
    (k.chainAfter n ps).Spans s t e ↔ k.Spans ps s t e := by
  induction n generalizing ps with
  | zero => exact spans_chain_iff h
  | succ n ih => exact (ih (pairs_ne_nil h)).trans spans_pairs_iff

/-- A run of equal parts is a repetition. -/
theorem spans_ofRun_row_iff {n : Nat} :
    (row.ofRun (p, n)).Spans s t e ↔ (Pattern.repeated p n (some 0) false).Spans s t e := by
  rw [ofRun]
  split
  · rename_i hn
    rw [hn, spans_repeated_succ_iff, spans_seq_iff]
    simp only [spans_repeated_zero_iff, ne_eq, not_true_eq_false, false_and, or_false]
    constructor
    · intro h
      exact ⟨t, [], by simp, by simpa using h, rfl⟩
    · intro h
      obtain ⟨v, _, rfl, h, rfl⟩ := h
      simpa using h
  · rfl

/-- One more pattern at the front of a run. -/
theorem spans_ofRun_succ_iff {n : Nat} :
    k.Spans [k.ofRun (p, n + 1)] s t e ↔ k.Spans [p, k.ofRun (p, n)] s t e := by
  rw [spans_singleton_iff, ← spans_pair_iff]
  cases k with
  | row =>
    rw [spans_ofRun_row_iff, spans_repeated_succ_iff, pair, spans_seq_iff, spans_seq_iff]
    simp only [spans_ofRun_row_iff]
  | choice => rw [pair, spans_alt_iff, ofRun, ofRun, or_self]

theorem spans_addToRuns_iff {runs : List (Pattern × Nat)} :
    k.Spans ((addToRuns p runs).map k.ofRun) s t e ↔ k.Spans (p :: runs.map k.ofRun) s t e := by
  match runs with
  | [] =>
    cases k <;> rfl
  | (q, n) :: runs =>
    rw [addToRuns]
    split
    · rename_i hq
      subst hq
      exact spans_append_congr_left _ spans_ofRun_succ_iff
    · cases k <;> rfl

theorem spans_withoutRuns_iff : k.Spans (k.withoutRuns ps) s t e ↔ k.Spans ps s t e := by
  induction ps generalizing s t e with
  | nil => rfl
  | cons p ps ih =>
    exact spans_addToRuns_iff.trans (spans_append_congr_right [p] ih)

theorem withoutRuns_ne_nil (h : ps ≠ []) : k.withoutRuns ps ≠ [] := by
  obtain ⟨p, ps, rfl⟩ := List.exists_cons_of_ne_nil h
  rw [withoutRuns, List.foldr_cons, ne_eq, List.map_eq_nil_iff]
  unfold addToRuns
  split
  · exact List.cons_ne_nil _ _
  · split <;> exact List.cons_ne_nil _ _

theorem spans_tree_iff (h : ps ≠ []) : (k.tree ps).Spans s t e ↔ k.Spans ps s t e :=
  (spans_chainAfter_iff (withoutRuns_ne_nil h)).trans spans_withoutRuns_iff

theorem within_ne_nil {outer : Joint} (h : ps ≠ []) : k.within outer ps ≠ [] := by
  rw [within]
  split
  · exact h
  · exact List.cons_ne_nil _ _

theorem spans_within_iff {outer : Joint} (h : ps ≠ []) :
    outer.Spans (k.within outer ps) s t e ↔ k.Spans ps s t e := by
  rw [within]
  split
  · rename_i hk
    rw [hk]
  · rw [spans_singleton_iff, spans_tree_iff h]

end Joint

theorem balancedParts_ne_nil : p.balancedParts k ≠ [] := by
  induction p generalizing k with
  | seq p q ihp _ => exact Joint.within_ne_nil (List.append_ne_nil_of_left_ne_nil ihp _)
  | alt p q ihp _ => exact Joint.within_ne_nil (List.append_ne_nil_of_left_ne_nil ihp _)
  | group _ p ih => exact ih
  | _ => exact List.cons_ne_nil _ _

theorem spans_balancedParts_iff : k.Spans (p.balancedParts k) s t e ↔ p.Spans s t e := by
  induction p generalizing k s t e with
  | seq p q ihp ihq =>
    rw [balancedParts, Joint.spans_within_iff
      (List.append_ne_nil_of_left_ne_nil balancedParts_ne_nil _), Joint.spans_row_append_iff,
      spans_seq_iff]
    simp only [ihp, ihq]
  | alt p q ihp ihq =>
    rw [balancedParts, Joint.spans_within_iff
      (List.append_ne_nil_of_left_ne_nil balancedParts_ne_nil _), Joint.spans_choice_append_iff,
      spans_alt_iff, ihp, ihq]
  | repeated p n x l ih =>
    rw [balancedParts, Joint.spans_singleton_iff]
    exact spans_repeated_congr ((Joint.spans_tree_iff balancedParts_ne_nil).trans ih)
  | group _ p ih => rw [balancedParts, ih, spans_group_iff]
  | _ => exact Joint.spans_singleton_iff

/-- A balanced pattern spans the same pieces. -/
theorem spans_balanced_iff : p.balanced.Spans s t e ↔ p.Spans s t e :=
  (Joint.spans_tree_iff balancedParts_ne_nil).trans spans_balancedParts_iff

end LineCost.Pattern
