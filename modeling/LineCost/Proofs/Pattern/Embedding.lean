import LineCost.Cost.Rule
import LineCost.Proofs.Pattern.Resolution

/-!
A pattern inside of a group that the reader has opened before it. The reader does with the pattern
what it does with the pattern alone, up to a closing parenthesis that has no opening one in the
pattern: that fails alone, and closes the group around it here.
-/

namespace LineCost.Pattern

namespace Reader

variable {r r' : Reader} {g : Group} {s : Symbol} {l : List Symbol} {p : Pattern}

/-- The reader inside of one more group. -/
def under (g : Group) (r : Reader) : Reader := { r with outer := r.outer ++ [g] }

/-- The numbers of the group being read and of those around it. -/
def numbers (r : Reader) : List (Option Nat) := (r.group :: r.outer).map Group.number

theorem finish?_eq_some_iff : r.finish? = some p ↔
    r.outer = [] ∧ (r.mode = .ready ∨ r.mode = .repeated) ∧ r.group.content = p := by
  obtain ⟨group, outer, captures, names, mode⟩ := r
  cases outer <;> cases mode <;> simp [finish?]

theorem finish?_ready (h : r.mode = .ready ∨ r.mode = .repeated) (ho : r.outer = []) :
    r.finish? = some r.group.content := finish?_eq_some_iff.2 ⟨ho, h, rfl⟩

theorem leave?_under (h : r.outer ≠ []) : (r.under g).leave? = r.leave?.map (under g) := by
  obtain ⟨group, outer, captures, names, mode⟩ := r
  cases outer with
  | nil => exact absurd rfl h
  | cons => rfl

theorem repeatLast?_under (least : Nat) (extra : Option Nat) :
    (r.under g).repeatLast? least extra = (r.repeatLast? least extra).map (under g) := by
  unfold repeatLast?
  simp only [Option.bind_eq_bind, Option.map_bind]
  rfl

theorem enterNamed?_under (name : List Char) :
    (r.under g).enterNamed? name = (r.enterNamed? name).map (under g) := by
  unfold enterNamed?
  rw [apply_ite (Option.map _)]
  rfl

theorem part?_under (h : s = .plain ')' → r.outer ≠ []) :
    (r.under g).part? s = (r.part? s).map (under g) := by
  unfold part?
  split
  case h_5 name => exact enterNamed?_under name
  case h_6 c =>
    split
    case h_2 => exact leave?_under (h rfl)
    case h_4 =>
      split <;> simp_all [under]
    case h_5 => exact repeatLast?_under 0 (some 1)
    case h_6 => exact repeatLast?_under 0 none
    case h_7 => exact repeatLast?_under 1 none
    all_goals rfl
  all_goals rfl

/-- Within the group the reader does what it does alone, unless it is at a parenthesis that closes
the group. -/
theorem step?_under (h : s = .plain ')' → r.finish? = none) :
    (r.under g).step? s = (r.step? s).map (under g) := by
  have hpart (hm : r.mode = .ready ∨ r.mode = .repeated) :
      (r.under g).part? s = (r.part? s).map (under g) :=
    part?_under fun hs ho => nomatch (h hs).symm.trans (finish?_ready hm ho)
  have henter : (r.under g).enter.part? s = (r.enter.part? s).map (under g) :=
    part?_under (r := r.enter) fun _ => List.cons_ne_nil _ _
  obtain ⟨group, outer, captures, names, mode⟩ := r
  cases mode with
  | ready => exact hpart (.inl rfl)
  | repeated =>
    by_cases hs : s = .plain '?'
    · subst hs
      rfl
    · simp only [step?, under, if_neg hs]
      exact hpart (.inr rfl)
  | opened =>
    by_cases hs : s = .plain '?'
    · subst hs
      rfl
    · simp only [step?, under, if_neg hs]
      exact henter
  | flagged =>
    by_cases hs : s = .plain ':'
    · subst hs
      rfl
    · simp only [step?, under, if_neg hs]
      rfl
  | braces body =>
    simp only [step?, under]
    split
    · simp only [Option.bind_eq_bind, Option.map_bind]
      refine congrArg _ (funext fun e => ?_)
      exact repeatLast?_under (r := ⟨group, outer, captures, names, .braces body⟩) e.1 e.2
    · rfl
    · rfl

theorem step?_close (h : r.finish? = some p) : r.step? (.plain ')') = none := by
  obtain ⟨ho, hm, rfl⟩ := finish?_eq_some_iff.1 h
  obtain ⟨group, outer, captures, names, mode⟩ := r
  subst ho
  rcases hm with rfl | rfl <;> rfl

theorem step?_close_under (h : r.finish? = some p) : (r.under g).step? (.plain ')') =
    some ⟨g.push (.group r.group.number p), [], r.captures, r.names, .ready⟩ := by
  obtain ⟨ho, hm, rfl⟩ := finish?_eq_some_iff.1 h
  obtain ⟨group, outer, captures, names, mode⟩ := r
  subst ho
  rcases hm with rfl | rfl <;> rfl

/-- Up to a parenthesis that closes the group, the reader does within it what it does alone. -/
theorem run_under (l : List Symbol) :
    l.foldlM step? (r.under g) = (l.foldlM step? r).map (under g) ∨
      ∃ front back r' p, l = front ++ .plain ')' :: back ∧ front.foldlM step? r = some r' ∧
        r'.finish? = some p := by
  induction l generalizing r with
  | nil => exact .inl rfl
  | cons s l ih =>
    by_cases hs : s = .plain ')' → r.finish? = none
    · rw [List.foldlM_cons, List.foldlM_cons, step?_under hs]
      cases hr : r.step? s with
      | none => exact .inl rfl
      | some r₁ =>
        rcases ih (r := r₁) with h | ⟨front, back, r', p, rfl, hfront, hp⟩
        · exact .inl h
        · refine .inr ⟨s :: front, back, r', p, rfl, ?_, hp⟩
          rw [List.foldlM_cons, hr]
          exact hfront
    · obtain ⟨rfl, hp⟩ := Classical.not_imp.1 hs
      obtain ⟨p, hp⟩ := Option.ne_none_iff_exists'.1 hp
      exact .inr ⟨[], l, r, p, rfl, rfl, hp⟩

theorem leave?_numbers (h : r.leave? = some r') : ∃ n, r.numbers = n :: r'.numbers := by
  obtain ⟨group, outer, captures, names, mode⟩ := r
  cases outer with
  | nil => cases h
  | cons around outer =>
    obtain rfl := Option.some.inj h
    exact ⟨group.number, rfl⟩

theorem repeatLast?_numbers {least : Nat} {extra : Option Nat}
    (h : r.repeatLast? least extra = some r') : r'.numbers = r.numbers := by
  obtain ⟨g, hg, h⟩ := Option.bind_eq_some_iff.1 h
  obtain rfl := Option.some.inj h
  unfold Group.repeatLast? at hg
  split at hg
  · cases hg
  · obtain rfl := Option.some.inj hg
    rfl

/-- Groups are only opened, unless a parenthesis closes the current one. -/
theorem part?_numbers (h : r.part? s = some r') :
    r.numbers <:+ r'.numbers ∨ s = .plain ')' ∧ ∃ n, r.numbers = n :: r'.numbers := by
  unfold part? at h
  split at h
  case h_5 name =>
    rw [enterNamed?, Option.ite_none_left_eq_some] at h
    obtain rfl := Option.some.inj h.2
    exact .inl (List.suffix_cons _ _)
  case h_6 c =>
    split at h
    case h_2 => exact .inr ⟨rfl, leave?_numbers h⟩
    case h_4 =>
      rw [Option.ite_none_left_eq_some] at h
      obtain rfl := Option.some.inj h.2
      exact .inl List.suffix_rfl
    case h_5 => exact .inl (repeatLast?_numbers h ▸ List.suffix_rfl)
    case h_6 => exact .inl (repeatLast?_numbers h ▸ List.suffix_rfl)
    case h_7 => exact .inl (repeatLast?_numbers h ▸ List.suffix_rfl)
    all_goals
      obtain rfl := Option.some.inj h
      exact .inl List.suffix_rfl
  all_goals
    obtain rfl := Option.some.inj h
    exact .inl List.suffix_rfl

theorem relax_number (g : Group) : g.relax.number = g.number := by
  unfold Group.relax
  split <;> rfl

theorem step?_numbers (h : r.step? s = some r') :
    r.numbers <:+ r'.numbers ∨ s = .plain ')' ∧ ∃ n, r.numbers = n :: r'.numbers := by
  unfold step? at h
  split at h
  · exact part?_numbers h
  · split at h
    · obtain rfl := Option.some.inj h
      rw [numbers, numbers, List.map_cons, List.map_cons, relax_number]
      exact .inl List.suffix_rfl
    · exact part?_numbers h
  · split at h
    · obtain rfl := Option.some.inj h
      exact .inl List.suffix_rfl
    · rcases part?_numbers h with h | ⟨-, n, h⟩
      · exact .inl ((List.suffix_cons _ _).trans h)
      · obtain ⟨-, h⟩ := List.cons.inj h
        exact .inl ⟨[], h⟩
  · rw [Option.ite_none_right_eq_some] at h
    obtain rfl := Option.some.inj h.2
    exact .inl (List.suffix_cons _ _)
  · split at h
    · obtain ⟨e, _, h⟩ := Option.bind_eq_some_iff.1 h
      exact .inl (repeatLast?_numbers h ▸ List.suffix_rfl)
    · obtain rfl := Option.some.inj h
      exact .inl List.suffix_rfl
    · cases h

/-- Whatever is read, the outermost group stays what it is. -/
theorem getLast?_numbers_of_run (h : l.foldlM step? r = some r') :
    r'.numbers.getLast? = r.numbers.getLast? := by
  have hne (r : Reader) : r.numbers ≠ [] := List.cons_ne_nil _ _
  induction l generalizing r with
  | nil =>
    obtain rfl := Option.some.inj h
    rfl
  | cons s l ih =>
    obtain ⟨r₁, hr₁, h⟩ := Option.bind_eq_some_iff.1 (List.foldlM_cons.symm.trans h)
    rw [ih h]
    rcases step?_numbers hr₁ with ⟨opened, hn⟩ | ⟨-, n, hn⟩
    · rw [← hn, List.getLast?_append_of_ne_nil _ (hne r)]
    · rw [hn, List.getLast?_cons_of_ne_nil (hne r₁)]

theorem length_numbers_le_of_run (hl : .plain ')' ∉ l) (h : l.foldlM step? r = some r') :
    r.numbers.length ≤ r'.numbers.length := by
  induction l generalizing r with
  | nil =>
    obtain rfl := Option.some.inj h
    exact Nat.le_refl _
  | cons s l ih =>
    obtain ⟨r₁, hr₁, h⟩ := Option.bind_eq_some_iff.1 (List.foldlM_cons.symm.trans h)
    have hrest := ih (fun hm => hl (List.mem_cons_of_mem _ hm)) h
    rcases step?_numbers hr₁ with hn | ⟨rfl, -⟩
    · exact Nat.le_trans hn.length_le hrest
    · exact absurd List.mem_cons_self hl

theorem length_numbers_of_finish? (h : r.finish? = some p) : r.numbers.length = 1 := by
  obtain ⟨ho, -⟩ := finish?_eq_some_iff.1 h
  rw [numbers, ho]
  rfl

/-- A group that is open stays open without a parenthesis that closes it. -/
theorem finish?_of_run_under (hl : .plain ')' ∉ l) (h : l.foldlM step? (r.under g) = some r') :
    r'.finish? = none := by
  have hlength := length_numbers_le_of_run hl h
  rw [Option.eq_none_iff_forall_ne_some]
  intro p hp
  rw [length_numbers_of_finish? hp] at hlength
  simp [numbers, under] at hlength

end Reader

/-- The text begins with a pattern, and a closing parenthesis that opens nowhere in it. -/
def ClosesAround (text : List Char) : Prop :=
  ∃ front back p, text = front ++ ')' :: back ∧ parse? front = some p

section Anchored

variable {text front : List Char} {x y : List Symbol} {p q : Pattern} {r : Reader}

/-- The group that the reader is in before the one around a pattern. -/
def anchorGroup : Group := (Group.new none).push .textStart

theorem parse?_eq_some_iff : parse? text = some p ↔
    ∃ x r, symbols? text = some x ∧ x.foldlM Reader.step? .start = some r ∧ r.finish? = some p := by
  simp only [parse?, Option.bind_eq_bind, Option.bind_eq_some_iff]
  grind

theorem parse?_anchored_eq_some_iff : parse? (Rule.anchored text) = some p ↔
    ∃ x r, symbols? (text ++ [')', '$']) = some x ∧
      x.foldlM Reader.step? (Reader.start.under anchorGroup) = some r ∧ r.finish? = some p := by
  rw [parse?_eq_some_iff, Rule.anchored, List.cons_append, List.cons_append, List.cons_append,
    List.cons_append, symbols?_anchored]
  simp only [Option.map_eq_some_iff]
  constructor
  · intro h
    obtain ⟨_, r, ⟨x, hx, rfl⟩, hr, hp⟩ := h
    exact ⟨x, r, hx, hr, hp⟩
  · intro h
    obtain ⟨x, r, hx, hr, hp⟩ := h
    exact ⟨_, r, ⟨x, hx, rfl⟩, hr, hp⟩

/-- A pattern stands between the anchors as it stands alone. -/
theorem parse?_anchored (h : parse? text = some p) :
    parse? (Rule.anchored text) = some (.seq .textStart (.seq (.group none p) .textEnd)) := by
  obtain ⟨x, r, hx, hr, hp⟩ := parse?_eq_some_iff.1 h
  have hclosing : symbols? [')', '$'] = some [.plain ')', .plain '$'] := by decide
  have hrun : x.foldlM Reader.step? (Reader.start.under anchorGroup) =
      some (r.under anchorGroup) := by
    rcases Reader.run_under (r := .start) (g := anchorGroup) x with
      hrun | ⟨front, back, r', p', rfl, hfront, hp'⟩
    · rw [hrun, hr]
      rfl
    · simp [List.foldlM_append, hfront, Reader.step?_close hp'] at hr
  have hnumber : r.group.number = none := by
    have hlast := Reader.getLast?_numbers_of_run hr
    rw [Reader.numbers, (Reader.finish?_eq_some_iff.1 hp).1] at hlast
    exact Option.some.inj hlast
  refine parse?_anchored_eq_some_iff.2 ⟨_, ⟨(anchorGroup.push (.group none p)).push .textEnd, [],
    r.captures, r.names, .ready⟩, symbols?_append hx hclosing, ?_, rfl⟩
  rw [List.foldlM_append, hrun]
  simp only [Option.bind_eq_bind, Option.bind_some, List.foldlM_cons, Reader.step?_close_under hp,
    hnumber]
  rfl

theorem closesAround_of_run {f g : List Symbol} (hx : symbols? text = some (f ++ .plain ')' :: g))
    (hr : f.foldlM Reader.step? .start = some r) (hp : r.finish? = some p) : ClosesAround text := by
  obtain ⟨front, back, rfl, hfront, -⟩ := symbols?_split hx
  exact ⟨front, back, p, rfl, parse?_eq_some_iff.2 ⟨f, r, hfront, hr, hp⟩⟩

theorem ClosesAround.append (h : ClosesAround front) (back : List Char) :
    ClosesAround (front ++ back) := by
  obtain ⟨a, b, p, rfl, hp⟩ := h
  exact ⟨a, b ++ back, p, by simp, hp⟩

/-- A text that closes the group around it is no pattern by itself. -/
theorem parse?_of_closesAround (h : ClosesAround text) : parse? text = none := by
  obtain ⟨front, back, p, rfl, hp⟩ := h
  obtain ⟨x, r, hx, hr, hp⟩ := parse?_eq_some_iff.1 hp
  rw [Option.eq_none_iff_forall_ne_some]
  intro q hq
  obtain ⟨y, r', hy, hr', -⟩ := parse?_eq_some_iff.1 hq
  obtain ⟨z, rfl, hz⟩ := symbols?_rest hx hy
  obtain ⟨u, hu, hz⟩ := symbols?_eq_some_iff.1 hz
  cases hu with
  | cons hs hu =>
    cases hs
    cases hz with
    | keep _ _ hz => simp [List.foldlM_append, hr, Reader.step?_close hp] at hr'
    | named hn => cases hn

/-- What stands between the anchors is a pattern alone, unless it closes the group around it. -/
theorem parse?_of_anchored (h : parse? (Rule.anchored text) = some q) :
    (∃ p, parse? text = some p) ∨ ClosesAround text := by
  obtain ⟨u, r, hu, hr, hq⟩ := parse?_anchored_eq_some_iff.1 h
  rcases symbols?_close hu with ⟨x, hx, rfl⟩ | ⟨front, x, rfl, hx, rfl⟩
  · rcases Reader.run_under (r := .start) (g := anchorGroup) x with
      hrun | ⟨f, g, r', p, rfl, hf, hp⟩
    · rw [List.foldlM_append, hrun] at hr
      obtain ⟨_, hmap, hr⟩ := Option.bind_eq_some_iff.1 hr
      obtain ⟨r', hr', rfl⟩ := Option.map_eq_some_iff.1 hmap
      -- if the text alone is not finished, some group or repetition is open behind it
      cases hp : r'.finish? with
      | some p => exact .inl ⟨p, parse?_eq_some_iff.2 ⟨x, r', hx, hr', hp⟩⟩
      | none =>
        rw [List.foldlM_cons, Reader.step?_under fun _ => hp] at hr
        obtain ⟨_, hmap, hr⟩ := Option.bind_eq_some_iff.1 hr
        obtain ⟨r₁, -, rfl⟩ := Option.map_eq_some_iff.1 hmap
        cases (Reader.finish?_of_run_under (by decide) hr).symm.trans hq
    · exact .inr (closesAround_of_run hx hf hp)
  · -- a backslash at the end escapes the parenthesis, so that nothing closes the group
    rcases Reader.run_under (r := .start) (g := anchorGroup) x with
      hrun | ⟨f, g, r', p, rfl, hf, hp⟩
    · rw [List.foldlM_append, hrun] at hr
      obtain ⟨_, hmap, hr⟩ := Option.bind_eq_some_iff.1 hr
      obtain ⟨r', -, rfl⟩ := Option.map_eq_some_iff.1 hmap
      cases (Reader.finish?_of_run_under (by decide) hr).symm.trans hq
    · exact .inr ((closesAround_of_run hx hf hp).append _)

end Anchored

end LineCost.Pattern
