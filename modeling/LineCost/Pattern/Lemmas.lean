import LineCost.Pattern.Match

/-!
The search for a pattern is right. `Goes` says what the marks on the track of a pattern stand for:
what is yet to be spanned by the pieces that have been begun. Reading a character keeps to that
(`reads`), and so the search finds a pattern exactly where it occurs (`occursIn_iff`).
-/

namespace LineCost.Pattern

/-- The statement `GoesThen ended goes q v e` says that a part which has ended, or which goes on as
`goes` tells, and then `q` span the piece `v`. -/
def GoesThen (ended : Prop) (goes : List Char → Bool → Prop) (q : Pattern) (v : List Char)
    (e : Bool) : Prop :=
  ∃ v₁ v₂, v = v₁ ++ v₂ ∧ (v₁ = [] ∧ ended ∨ goes v₁ (e && v₂.isEmpty)) ∧ Spans q false v₂ e

/-- The statement `InTurn goes p least extra l n o ended v e` says that a turn of a repetition which
has ended, or which goes on as `goes` tells, and then the rest of the repetition span the piece `v`.
The lanes are those of the repetition's slots, `n` lanes each. -/
def InTurn (goes : (lane : Nat) → List Char → Bool → Prop) (p : Pattern) (least : Nat)
    (extra : Option Nat) (l : Bool) (n o ended : Nat) (v : List Char) (e : Bool) : Prop :=
  ∃ t < slotCount least extra,
    GoesThen (ended.testBit (t * n + o) = true) (goes (t * n + o)) (afterTurn p least extra l t) v e

/-- The statement `p.Goes n m o v e` says that a piece of `p` that is marked by `m` in the lane `o`
of `n` goes on with `v`, which is not empty, and ends. -/
def Goes : Pattern → (lanes : Nat) → Marks → (lane : Nat) → List Char → Bool → Prop
  | .empty, _, _, _, _, _ => False
  | .one _, _, _, _, _, _ => False
  | .textStart, _, _, _, _, _ => False
  | .textEnd, _, _, _, _, _ => False
  | .seq p q, n, m, o, v, e =>
    v ≠ [] ∧ GoesThen (m.ended.testBit o = true) (p.Goes n m.first o) q v e ∨
      q.Goes n m.second o v e
  | .alt p q, n, m, o, v, e => p.Goes n m.first o v e ∨ q.Goes n m.second o v e
  | .repeated p least extra l, n, m, o, v, e =>
    v ≠ [] ∧
      InTurn (p.Goes (slotCount least extra * n) m.first) p least extra l n o m.ended v e
  | .group _ p, n, m, o, v, e => p.Goes n m o v e

/-- The statement `Later goes q c v e` says that a part which goes on with the character `c` and
then `q` span the character and the piece `v`. -/
def Later (goes : List Char → Bool → Prop) (q : Pattern) (c : Char) (v : List Char) (e : Bool) :
    Prop :=
  ∃ v₁ v₂, v = v₁ ++ v₂ ∧ goes (c :: v₁) (e && v₂.isEmpty) ∧ Spans q false v₂ e

/-- Reading a character in front of `v` keeps to what the marks stand for: what was begun, or begins
in front of the character, has ended with it or goes on with `v`. -/
def Reads (p : Pattern) (n : Nat) : Prop :=
  ∀ {s m entry c v e o x}, (s = true → m = .clear) → o < n →
    (Track.ofPattern p n).read ⟨c, Text.fold c, s, v.isEmpty && e⟩ m entry = x →
      (v = [] ∧ x.2.testBit o = true ∨ p.Goes n x.1 o v e ↔
        entry.testBit o = true ∧ Spans p s (c :: v) e ∨ p.Goes n m o (c :: v) e)

variable {p q : Pattern} {n o : Nat} {m : Marks} {c : Char} {v : List Char} {s e : Bool}

theorem not_goes_nil : ¬ p.Goes n m o [] e := by
  induction p generalizing n m o e with
  | seq p q _ ihq => exact fun h => h.elim (fun h => h.1 rfl) ihq
  | alt p q ihp ihq => exact fun h => h.elim ihp ihq
  | repeated p _ _ _ _ => exact fun h => h.1 rfl
  | group _ p ih => exact ih
  | _ => exact id

section GoesThen

variable {ended begun : Prop} {goes goes' : List Char → Bool → Prop}

theorem not_goesThen (h : ¬ ended) (hg : ∀ {v e}, ¬ goes v e) : ¬ GoesThen ended goes q v e := by
  intro h
  obtain ⟨_, _, _, ⟨_, h'⟩ | h', _⟩ := h
  · exact h h'
  · exact hg h'

theorem goesThen_nil_iff (hg : ∀ {e}, ¬ goes [] e) :
    GoesThen ended goes q [] e ↔ ended ∧ Spans q false [] e := by
  constructor
  · intro h
    obtain ⟨v₁, v₂, h, h', hq⟩ := h
    obtain ⟨rfl, rfl⟩ := List.append_eq_nil_iff.1 h.symm
    exact ⟨(h'.resolve_right hg).2, hq⟩
  · intro h
    obtain ⟨h, hq⟩ := h
    exact ⟨[], [], rfl, .inl ⟨rfl, h⟩, hq⟩

theorem goesThen_cons_iff (hg : ∀ {e}, ¬ goes [] e) :
    GoesThen ended goes q (c :: v) e ↔
      ended ∧ Spans q false (c :: v) e ∨ Later goes q c v e := by
  rw [GoesThen, exists_append_eq_cons_iff]
  simp [Later, hg]

theorem goesThen_iff_of_read
    (h : ∀ {v₁ v₂}, v = v₁ ++ v₂ →
      (v₁ = [] ∧ ended ∨ goes v₁ (e && v₂.isEmpty) ↔
        begun ∧ Spans p s (c :: v₁) (e && v₂.isEmpty) ∨ goes' (c :: v₁) (e && v₂.isEmpty))) :
    GoesThen ended goes q v e ↔ begun ∧ TurnThen p q s c v e ∨ Later goes' q c v e := by
  constructor
  · intro h
    obtain ⟨v₁, v₂, hv, h', hq⟩ := h
    rcases (h hv).1 h' with ⟨hb, hp⟩ | h'
    · exact .inl ⟨hb, v₁, v₂, hv, hp, hq⟩
    · exact .inr ⟨v₁, v₂, hv, h', hq⟩
  · intro h
    rcases h with ⟨hb, v₁, v₂, hv, hp, hq⟩ | ⟨v₁, v₂, hv, h', hq⟩
    · exact ⟨v₁, v₂, hv, (h hv).2 (.inl ⟨hb, hp⟩), hq⟩
    · exact ⟨v₁, v₂, hv, (h hv).2 (.inr h'), hq⟩

end GoesThen

theorem not_goes_clear : ¬ p.Goes n .clear o v e := by
  have hzero {i : Nat} : ¬ Marks.clear.ended.testBit i = true := by simp [Marks.ended]
  induction p generalizing n o v e with
  | seq p q ihp ihq => exact fun h => h.elim (fun h => not_goesThen hzero ihp h.2) ihq
  | alt p q ihp ihq => exact fun h => h.elim ihp ihq
  | repeated p _ _ _ ih =>
    intro h
    obtain ⟨_, _, _, h⟩ := h
    exact not_goesThen hzero ih h
  | group _ p ih => exact ih
  | _ => exact id

theorem eq_false_of_ended {i : Nat} (hs : s = true → m = .clear)
    (h : m.ended.testBit i = true) : s = false := by
  cases s with
  | false => rfl
  | true => simp [hs rfl, Marks.ended] at h

theorem isEmpty_and_of_append {v₁ v₂ : List Char} (h : v = v₁ ++ v₂) :
    (v₁.isEmpty && (e && v₂.isEmpty)) = (v.isEmpty && e) := by
  rw [h, isEmpty_append, Bool.and_comm e, Bool.and_assoc]

theorem reads_still (h : ∀ n, Track.ofPattern p n = .still)
    (hp : ∀ {s v e}, Spans p s v e → v = []) (hg : ∀ {n m o v e}, ¬ p.Goes n m o v e) :
    Reads p n := by
  intro s m entry c v e o x _ _ hx
  rw [h, Track.read_still] at hx
  subst hx
  simp only [Nat.zero_testBit, Bool.false_eq_true, and_false, hg, or_false, false_iff, not_and]
  exact fun _ hs => List.cons_ne_nil c v (hp hs)

theorem reads_one {a : CharSet} : Reads (.one a) n := by
  intro s m entry c v e o x _ _ hx
  have hx : x = (.clear, if a.contains c then entry else 0) := by
    rw [← hx]
    cases a with
    | letter d => simp [Track.ofPattern, Track.read_letter, CharSet.contains]
    | _ => exact Track.read_one
  subst hx
  simp only [Goes, or_false, spans_one_iff, List.cons.injEq]
  constructor
  · intro h
    obtain ⟨rfl, h⟩ := h
    split at h
    · exact ⟨h, c, ⟨rfl, rfl⟩, ‹_›⟩
    · simp at h
  · intro h
    obtain ⟨h, _, ⟨rfl, rfl⟩, hc⟩ := h
    exact ⟨rfl, by rwa [if_pos hc]⟩

theorem testBit_or_ite {i j k : Nat} {b : Bool} :
    (i ||| if b then j else 0).testBit k = true ↔
      i.testBit k = true ∨ b = true ∧ j.testBit k = true := by
  cases b <;> simp

theorem reads_seq (hp : Reads p n) (hq : Reads q n) : Reads (.seq p q) n := by
  intro s m entry c v e o x hs ho hx
  rw [Track.ofPattern, Track.read_seq rfl rfl] at hx
  generalize hxp : (Track.ofPattern p n).read _ _ _ = xp at hx
  generalize hxq : (Track.ofPattern q n).read _ _ _ = xq at hx
  subst hx
  have hq := hq (fun h => by rw [hs h, Marks.second]) ho hxq
  have hp {v₁ v₂ : List Char} (hv : v = v₁ ++ v₂) :=
    hp (v := v₁) (e := e && v₂.isEmpty) (m := m.first) (x := xp)
      (fun h => by rw [hs h, Marks.first]) ho
      (by rw [isEmpty_and_of_append hv]; exact hxp)
  have hp := goesThen_iff_of_read (q := q) hp
  have hend : v = [] ∧ (xq.2 ||| if q.skips.allow false (v.isEmpty && e) then xp.2 else 0).testBit o
        = true ∨ v ≠ [] ∧ GoesThen (xp.2.testBit o = true) (p.Goes n xp.1 o) q v e ↔
      v = [] ∧ xq.2.testBit o = true ∨
        GoesThen (xp.2.testBit o = true) (p.Goes n xp.1 o) q v e := by
    rw [testBit_or_ite, allow_skips_iff]
    cases v with
    | nil => simp [goesThen_nil_iff not_goes_nil, and_comm]
    | cons d v => simp
  have hbegin : m.ended.testBit o = true ∧ Spans q s (c :: v) e ↔
      m.ended.testBit o = true ∧ Spans q false (c :: v) e :=
    and_congr_right fun h => by rw [eq_false_of_ended hs h]
  rw [testBit_or_ite, allow_skips_iff, or_and_right, hbegin] at hq
  simp only [Goes, Marks.ended_of, Marks.first_of, Marks.second_of, spans_seq_cons_iff,
    goesThen_cons_iff not_goes_nil, ne_eq, reduceCtorEq, not_false_eq_true, true_and] at hend ⊢
  rw [← or_assoc, hend, or_right_comm, hq, hp]
  grind

theorem reads_alt (hp : Reads p n) (hq : Reads q n) : Reads (.alt p q) n := by
  intro s m entry c v e o x hs ho hx
  rw [Track.ofPattern, Track.read_alt rfl rfl] at hx
  generalize hxp : (Track.ofPattern p n).read _ _ _ = xp at hx
  generalize hxq : (Track.ofPattern q n).read _ _ _ = xq at hx
  subst hx
  have hp := hp (fun h => by rw [hs h, Marks.first]) ho hxp
  have hq := hq (fun h => by rw [hs h, Marks.second]) ho hxq
  simp only [Goes, Marks.first_of, Marks.second_of, spans_alt_iff, Nat.testBit_or,
    Bool.or_eq_true]
  grind

section Repeated

variable {least : Nat} {extra : Option Nat} {l : Bool}

theorem ofPattern_repeated :
    (Track.ofPattern p (slotCount least extra * n) = .still ∨ slotCount least extra = 0) ∧
        Track.ofPattern (.repeated p least extra l) n = .still ∨
      Track.ofPattern (.repeated p least extra l) n =
        .repeated p.skips ⟨n, slotCount least extra⟩ least extra.isNone
          (Track.ofPattern p (slotCount least extra * n)) := by
  rw [Track.ofPattern]
  generalize Track.ofPattern p (slotCount least extra * n) = a
  unfold Track.ofRepeated
  split
  · exact .inl ⟨.inl rfl, rfl⟩
  · split
    · exact .inl ⟨.inr ‹_›, rfl⟩
    · exact .inr rfl

theorem slot_lane_lt {t k : Nat} (ho : o < n) (ht : t < k) : t * n + o < k * n :=
  Slots.lane_lt (k := ⟨n, k⟩) ho ht

/-- Where nothing is read, no character is spanned. -/
theorem not_spans_of_still (hp : Reads p n) (ho : o < n) (h : Track.ofPattern p n = .still) :
    ¬ Spans p s (c :: v) e ∧ ¬ p.Goes n m o (c :: v) e := by
  have hread {s : Bool} {m : Marks} (hs : s = true → m = .clear) :=
    @hp s m (2 ^ o) c v e o _ hs ho rfl
  simp only [h, Track.read_still, Nat.zero_testBit, Bool.false_eq_true, and_false, not_goes_clear,
    or_false, false_iff, not_or, Nat.testBit_two_pow_self, true_and] at hread
  exact ⟨(hread fun _ => rfl).1, (hread (s := false) Bool.noConfusion).2⟩

/-- A turn begins with the character where one may begin in front of it. -/
theorem exists_enter_iff {x : Option Nat} {entry ended : Nat}
    (hs : ∀ {i}, ended.testBit i = true → s = false) (ho : o < n) :
    (∃ t < slotCount least x,
      (Slots.enter ⟨n, slotCount least x⟩ x.isNone (p.skips.allow s false) entry ended).testBit
          (t * n + o) = true ∧
        TurnThen p (afterTurn p least x l t) s c v e) ↔
      entry.testBit o = true ∧ Begins p least x l s c v e ∨
        ∃ t < slotCount least x, ended.testBit (t * n + o) = true ∧
          Spans (afterTurn p least x l t) false (c :: v) e := by
  have henter {t : Nat} (ht : t < slotCount least x) :=
    @Slots.testBit_enter ⟨n, slotCount least x⟩ o t entry ended x.isNone (p.skips.allow s false)
      ho ht
  simp only [allow_skips_iff, Option.isNone_iff_eq_none] at henter
  constructor
  · intro h
    obtain ⟨t, ht, hbit, hturn⟩ := h
    obtain ⟨j, hj, hi, ⟨rfl, h⟩ | ⟨h0, h⟩ | ⟨hx, hlast, h⟩⟩ := (henter ht).1 hbit
    · exact .inl ⟨h, t, ht, hi.imp_left Eq.symm, hturn⟩
    · obtain rfl := hs h
      refine .inr ⟨j - 1, by omega, h, (spans_afterTurn_cons_iff (by omega)).2 ⟨t, ht, ?_, hturn⟩⟩
      exact ⟨j, hj, hi, .inl (by omega)⟩
    · obtain rfl := hs h
      refine .inr ⟨j, by omega, h, (spans_afterTurn_cons_iff (by omega)).2 ⟨t, ht, ?_, hturn⟩⟩
      exact ⟨j, hj, hi, .inr ⟨hx, rfl, hlast⟩⟩
  · intro h
    rcases h with ⟨h, t, ht, hi, hturn⟩ | ⟨t, ht, h, hspans⟩
    · exact ⟨t, ht, (henter ht).2 ⟨0, Nat.zero_le t, hi.imp_left Eq.symm, .inl ⟨rfl, h⟩⟩, hturn⟩
    · obtain rfl := hs h
      obtain ⟨u, hu, ⟨j, hj, hi, hjt⟩, hturn⟩ := (spans_afterTurn_cons_iff ht).1 hspans
      refine ⟨u, hu, (henter hu).2 ⟨j, hj, hi, .inr ?_⟩, hturn⟩
      rcases hjt with rfl | ⟨rfl, rfl, hlast⟩
      · exact .inl ⟨Nat.succ_ne_zero t, h⟩
      · exact .inr ⟨rfl, hlast, h⟩

/-- Lanes beyond the slots make no difference. -/
theorem inTurn_and_first_iff {goes : Nat → List Char → Bool → Prop} {i : Nat} (ho : o < n) :
    InTurn goes p least extra l n o
        (i &&& Slots.first ⟨n, slotCount least extra⟩ (slotCount least extra)) v e ↔
      InTurn goes p least extra l n o i v e := by
  refine exists_congr fun t => and_congr_right fun ht => ?_
  rw [Nat.testBit_and, Bool.and_eq_true,
    and_iff_left ((Slots.testBit_first_lane (k := ⟨n, slotCount least extra⟩) ho).2 ht)]

/-- A repetition has ended, or goes on, as its turns have ended or go on. -/
theorem leave_or_inTurn_iff {goes : Nat → List Char → Bool → Prop} {i : Nat}
    (hg : ∀ {o e}, ¬ goes o [] e) (ho : o < n) :
    v = [] ∧ (Slots.leave ⟨n, slotCount least extra⟩ least
          (p.skips.allow false (v.isEmpty && e))
          (i &&& Slots.first ⟨n, slotCount least extra⟩ (slotCount least extra))).testBit o = true ∨
        v ≠ [] ∧ InTurn goes p least extra l n o i v e ↔
      InTurn goes p least extra l n o i v e := by
  cases v with
  | nil =>
    have hleave := @Slots.testBit_leave ⟨n, slotCount least extra⟩ o i least
      (p.skips.allow false e) ho
    simp only [InTurn, List.isEmpty_nil, Bool.true_and, true_and, ne_eq, not_true_eq_false,
      false_and, or_false, goesThen_nil_iff hg, afterTurn, spans_repeated_nil_iff,
      Nat.sub_eq_zero_iff_le]
    rw [hleave]
    simp only [allow_skips_iff, and_comm]
  | cons d v => simp

theorem reads_repeated (hp : Reads p (slotCount least extra * n)) :
    Reads (.repeated p least extra l) n := by
  intro s m entry c v e o x hs ho hx
  rcases @ofPattern_repeated p n least extra l with ⟨h, htrack⟩ | htrack
  · rw [htrack, Track.read_still] at hx
    subst hx
    have hstill {t : Nat} (ht : t < slotCount least extra) {v : List Char} {e : Bool} :=
      @not_spans_of_still p _ _ m.first c v s e hp (slot_lane_lt ho ht)
        (h.resolve_right (Nat.ne_zero_of_lt ht))
    have hspans : ¬ Spans (.repeated p least extra l) s (c :: v) e := fun h => by
      obtain ⟨t, ht, _, _, _, _, h, _⟩ := spans_repeated_cons_iff.1 h
      exact (hstill ht).1 h
    have hgoes : ¬ Goes (.repeated p least extra l) n m o (c :: v) e := by
      intro h
      obtain ⟨_, t, ht, h⟩ := h
      rcases (goesThen_cons_iff not_goes_nil).1 h with ⟨h', h⟩ | ⟨_, _, _, h, _⟩
      · obtain rfl := eq_false_of_ended hs h'
        obtain ⟨_, _, _, _, _, _, h, _⟩ := spans_repeated_cons_iff.1 h
        exact (hstill ht).1 h
      · exact (hstill ht).2 h
    simp [hspans, hgoes, not_goes_clear]
  · rw [htrack, Track.read_repeated rfl] at hx
    generalize hxp : (Track.ofPattern p _).read _ _ _ = xp at hx
    subst hx
    have hp {t : Nat} (ht : t < slotCount least extra) {v₁ v₂ : List Char} (hv : v = v₁ ++ v₂) :=
      hp (v := v₁) (e := e && v₂.isEmpty) (m := m.first) (x := xp)
        (fun h => by rw [hs h, Marks.first]) (slot_lane_lt ho ht)
        (by rw [isEmpty_and_of_append hv]; exact hxp)
    have hturn := exists_congr fun t => and_congr_right fun ht =>
      goesThen_iff_of_read (q := afterTurn p least extra l t) (@hp t ht)
    have hstart := @exists_enter_iff p n o c v s e least l extra entry m.ended
      (eq_false_of_ended hs) ho
    rw [Goes, Goes, Marks.ended_of, Marks.first_of, inTurn_and_first_iff ho,
      leave_or_inTurn_iff not_goes_nil ho, InTurn, InTurn, hturn]
    simp only [goesThen_cons_iff not_goes_nil, spans_repeated_cons_iff, ne_eq, reduceCtorEq,
      not_false_eq_true, true_and, and_or_left, exists_or]
    rw [hstart, or_assoc]

end Repeated

theorem reads : Reads p n := by
  induction p generalizing n with
  | empty => exact reads_still (fun _ => rfl) spans_empty_iff.1 id
  | one a => exact reads_one
  | textStart => exact reads_still (fun _ => rfl) (fun h => (spans_textStart_iff.1 h).1) id
  | textEnd => exact reads_still (fun _ => rfl) (fun h => (spans_textEnd_iff.1 h).1) id
  | seq p q ihp ihq => exact reads_seq ihp ihq
  | alt p q ihp ihq => exact reads_alt ihp ihq
  | repeated p _ _ _ ih => exact reads_repeated ih
  | group _ p ih =>
    intro s m entry c v e o x hs ho hx
    rw [Goes, Goes, spans_group_iff]
    exact ih hs ho hx

/-- The search in the text that is left finds the pieces that are marked or begin there, with at
least one character, and those that begin later on. -/
theorem finds_iff {text : List Char} (hs : s = true → m = .clear) :
    (Matcher.finds ⟨p.skips, .ofPattern p 1⟩ m s text) = true ↔
      (∃ v w, text = v ++ w ∧ v ≠ [] ∧ (Spans p s v w.isEmpty ∨ p.Goes 1 m 0 v w.isEmpty)) ∨
        ∃ u v w, text = u ++ (v ++ w) ∧ u ≠ [] ∧ Spans p false v w.isEmpty := by
  induction text generalizing s m with
  | nil =>
    rw [Matcher.finds]
    refine iff_of_false Bool.noConfusion ?_
    intro h
    rcases h with ⟨v, w, h, hv, _⟩ | ⟨u, v, w, h, hu, _⟩
    · exact hv (List.append_eq_nil_iff.1 h.symm).1
    · exact hu (List.append_eq_nil_iff.1 h.symm).1
  | cons c rest ih =>
    rw [Matcher.finds]
    generalize hx : (Track.ofPattern p 1).read _ m 1 = x
    have hread {v w : List Char} (h : rest = v ++ w) :
        v = [] ∧ x.2.testBit 0 = true ∨ p.Goes 1 x.1 0 v w.isEmpty ↔
          Spans p s (c :: v) w.isEmpty ∨ p.Goes 1 m 0 (c :: v) w.isEmpty := by
      have := @reads p 1 s m 1 c v w.isEmpty 0 x hs Nat.one_pos (by
        rw [← isEmpty_append, ← h]
        exact hx)
      simpa using this
    simp only [Bool.or_eq_true, allow_skips_iff, ih fun h : false = true => nomatch h]
    constructor
    · intro h
      rcases h with (h | h) | ⟨v, w, rfl, _, h | h⟩ | ⟨u, v, w, rfl, _, h⟩
      · exact .inl ⟨[c], rest, rfl, List.cons_ne_nil _ _, (hread rfl).1 (.inl ⟨rfl, h⟩)⟩
      · exact .inr ⟨[c], [], rest, rfl, List.cons_ne_nil _ _, h⟩
      · exact .inr ⟨[c], v, w, rfl, List.cons_ne_nil _ _, h⟩
      · exact .inl ⟨c :: v, w, rfl, List.cons_ne_nil _ _, (hread rfl).1 (.inr h)⟩
      · exact .inr ⟨c :: u, v, w, rfl, List.cons_ne_nil _ _, h⟩
    · intro h
      rcases h with ⟨v, w, h, hv, h'⟩ | ⟨u, v, w, h, hu, h'⟩
      · obtain ⟨d, v, rfl⟩ := List.exists_cons_of_ne_nil hv
        obtain ⟨rfl, rfl⟩ := List.cons.inj h
        rcases (hread rfl).2 h' with ⟨_, h⟩ | h
        · exact .inl (.inl h)
        · exact .inr (.inl ⟨v, w, rfl, fun hv => not_goes_nil (hv ▸ h), .inr h⟩)
      · obtain ⟨d, u, rfl⟩ := List.exists_cons_of_ne_nil hu
        obtain ⟨rfl, rfl⟩ := List.cons.inj h
        match u, v with
        | [], [] => exact .inl (.inr h')
        | [], _ :: _ => exact .inr (.inl ⟨_, w, rfl, List.cons_ne_nil _ _, .inl h'⟩)
        | _ :: _, v => exact .inr (.inr ⟨_, v, w, rfl, List.cons_ne_nil _ _, h'⟩)

theorem occursIn_congr (h : ∀ {s v e}, Spans p s v e ↔ Spans q s v e) {text : List Char} :
    p.OccursIn text ↔ q.OccursIn text := by
  simp only [OccursIn, h]

/-- The search finds a pattern in a text exactly if the pattern spans some piece of it. -/
theorem occursIn_iff {text : List Char} : p.occursIn text = true ↔ p.OccursIn text := by
  rw [← occursIn_congr spans_balanced_iff, occursIn, matcher, Matcher.occursIn, Bool.or_eq_true,
    finds_iff fun _ => rfl, allow_skips_iff]
  simp only [not_goes_clear, or_false]
  constructor
  · intro h
    rcases h with h | ⟨v, w, rfl, _, h⟩ | ⟨u, v, w, rfl, hu, h⟩
    · exact ⟨[], [], text, rfl, h⟩
    · exact ⟨[], v, w, rfl, h⟩
    · refine ⟨u, v, w, (List.append_assoc u v w).symm, ?_⟩
      rwa [List.isEmpty_eq_false_iff.2 hu]
  · intro h
    obtain ⟨u, v, w, rfl, h⟩ := h
    rw [List.append_assoc]
    match u, v with
    | [], [] => exact .inl h
    | [], _ :: _ => exact .inr (.inl ⟨_, w, rfl, List.cons_ne_nil _ _, h⟩)
    | _ :: _, v => exact .inr (.inr ⟨_, v, w, rfl, List.cons_ne_nil _ _, h⟩)

end LineCost.Pattern
