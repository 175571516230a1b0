import LineCost.Pattern.GroupName
import Mathlib.Data.List.Basic

/-!
The opening of a group with a name. It ends with the first angle bracket that closes, so that it is
read in the same way whatever follows.
-/

namespace LineCost.Pattern

variable {l b rest : List Symbol} {name : List Char} {x : Symbol}

theorem angled?_eq_some_iff :
    angled? l = some (name, rest) ↔ '>' ∉ name ∧ l = name.map .plain ++ .plain '>' :: rest := by
  constructor
  · intro h
    fun_induction angled? l generalizing name with
    | case1 rest' =>
      cases h
      exact ⟨List.not_mem_nil, rfl⟩
    | case2 c l hc ih =>
      obtain ⟨⟨name', rest'⟩, h', h⟩ := Option.bind_eq_some_iff.1 h
      cases h
      obtain ⟨hname, rfl⟩ := ih h'
      exact ⟨fun hm => (List.mem_cons.1 hm).elim (fun he => hc he.symm) hname, rfl⟩
    | case3 => cases h
  · intro h
    obtain ⟨hname, rfl⟩ := h
    induction name with
    | nil => rfl
    | cons c name ih =>
      obtain ⟨hc, hname⟩ := List.ne_and_not_mem_of_not_mem_cons hname
      simp [angled?, Ne.symm hc, ih hname]

theorem isGroupName_not_mem (h : isGroupName name = true) : '>' ∉ name := by
  intro hm
  cases name with
  | nil => cases hm
  | cons c name =>
    rw [isGroupName, Bool.and_eq_true, List.all_eq_true] at h
    rcases List.mem_cons.1 hm with rfl | hm
    · exact absurd h.1 (by decide +kernel)
    · exact absurd (h.2 _ hm) (by decide +kernel)

theorem groupName?_eq_some_iff : groupName? l = some (name, rest) ↔
    isGroupName name = true ∧ l = name.map .plain ++ .plain '>' :: rest := by
  rw [groupName?, Option.bind_eq_bind, Option.bind_eq_some_iff]
  constructor
  · intro h
    obtain ⟨⟨name', rest'⟩, h', h⟩ := h
    rw [Option.ite_none_right_eq_some] at h
    cases h.2
    exact ⟨h.1, (angled?_eq_some_iff.1 h').2⟩
  · intro h
    obtain ⟨hname, hl⟩ := h
    exact ⟨_, angled?_eq_some_iff.2 ⟨isGroupName_not_mem hname, hl⟩, by simp [hname]⟩

theorem naming?_eq_some_iff : naming? l = some rest ↔
    l = ['(', '?', '<'].map .plain ++ rest ∨ l = ['(', '?', 'P', '<'].map .plain ++ rest := by
  constructor
  · intro h
    unfold naming? at h
    split at h
    · cases h
      exact .inl rfl
    · cases h
      exact .inr rfl
    · cases h
  · intro h
    rcases h with rfl | rfl <;> rfl

theorem naming?_append (h : naming? l = some rest) : naming? (l ++ b) = some (rest ++ b) := by
  rw [naming?_eq_some_iff] at h ⊢
  rcases h with rfl | rfl
  · exact .inl (List.append_assoc ..)
  · exact .inr (List.append_assoc ..)

theorem naming?_of_append (h : naming? (l ++ b) = none) : naming? l = none := by
  rw [Option.eq_none_iff_forall_ne_some]
  intro rest hl
  exact nomatch h.symm.trans (naming?_append hl)

/-- A prefix lies before what is not in it. -/
theorem prefix_of_not_mem {p : List Symbol} (hp : p <+: l ++ x :: b) (hx : x ∉ p) : p <+: l := by
  rcases List.prefix_or_prefix_of_prefix hp (List.prefix_append l _) with hl | ⟨c, rfl⟩
  · exact hl
  · cases c with
    | nil => exact ⟨[], by rw [List.append_nil, List.append_nil]⟩
    | cons y c =>
      obtain ⟨rfl, -⟩ := List.cons_prefix_cons.1 ((List.prefix_append_right_inj l).1 hp)
      exact absurd (List.mem_append_right l List.mem_cons_self) hx

/-- A parenthesis that closes is no part of an opening. -/
theorem naming?_parenthesis (h : naming? l = none) : naming? (l ++ .plain ')' :: b) = none := by
  rw [Option.eq_none_iff_forall_ne_some]
  intro rest hrest
  rcases naming?_eq_some_iff.1 hrest with hl | hl
  · obtain ⟨rest', hl⟩ := prefix_of_not_mem ⟨rest, hl.symm⟩ (by decide)
    exact nomatch h.symm.trans (naming?_eq_some_iff.2 (.inl hl.symm))
  · obtain ⟨rest', hl⟩ := prefix_of_not_mem ⟨rest, hl.symm⟩ (by decide)
    exact nomatch h.symm.trans (naming?_eq_some_iff.2 (.inr hl.symm))

theorem naming?_eq_none (hl : .plain '(' ∉ l) : naming? l = none := by
  rw [Option.eq_none_iff_forall_ne_some]
  intro rest h
  rcases naming?_eq_some_iff.1 h with rfl | rfl <;> exact hl List.mem_cons_self

/-- The name of the group that the symbols open, with what follows the opening. -/
def opening? (l : List Symbol) : Option (List Char × List Symbol) := (naming? l).bind groupName?

/-- The symbols open a group with the name. -/
inductive Opens : List Symbol → List Char → Prop where
  | mk {marks name : List Char} (hmarks : marks = ['(', '?', '<'] ∨ marks = ['(', '?', 'P', '<'])
      (hname : isGroupName name = true) : Opens ((marks ++ name ++ ['>']).map .plain) name

theorem opening?_eq_some_iff :
    opening? l = some (name, rest) ↔ ∃ o, Opens o name ∧ l = o ++ rest := by
  simp only [opening?, Option.bind_eq_some_iff, naming?_eq_some_iff, groupName?_eq_some_iff]
  constructor
  · intro h
    obtain ⟨named, hl, hname, rfl⟩ := h
    rcases hl with rfl | rfl
    · exact ⟨_, .mk (.inl rfl) hname, by simp⟩
    · exact ⟨_, .mk (.inr rfl) hname, by simp⟩
  · intro h
    obtain ⟨_, ⟨hmarks, hname⟩, rfl⟩ := h
    refine ⟨name.map .plain ++ .plain '>' :: rest, ?_, hname, rfl⟩
    rcases hmarks with rfl | rfl <;> simp

theorem opening?_append (h : opening? l = some (name, rest)) :
    opening? (l ++ b) = some (name, rest ++ b) := by
  rw [opening?_eq_some_iff] at h ⊢
  obtain ⟨o, ho, rfl⟩ := h
  exact ⟨o, ho, List.append_assoc ..⟩

theorem naming?_ne_none (h : opening? l = some (name, rest)) : naming? l ≠ none := by
  intro hl
  rw [opening?, hl] at h
  cases h

theorem Opens.ends {o : List Symbol} (h : Opens o name) : ∃ front, o = front ++ [.plain '>'] := by
  obtain ⟨-, -⟩ := h
  exact ⟨_, List.map_append⟩

/-- An opening lies before symbols without an angle bracket. -/
theorem opening?_cut (h : opening? (l ++ b) = some (name, rest)) (hb : .plain '>' ∉ b) :
    ∃ rest', opening? l = some (name, rest') ∧ rest = rest' ++ b := by
  obtain ⟨o, ho, he⟩ := opening?_eq_some_iff.1 h
  rcases List.append_eq_append_iff.1 he with ⟨c, rfl, hc⟩ | ⟨c, rfl, rfl⟩
  · rcases List.eq_nil_or_concat' c with rfl | ⟨c, y, rfl⟩
    · rw [List.append_nil] at ho
      exact ⟨[], opening?_eq_some_iff.2 ⟨l, ho, (List.append_nil l).symm⟩, hc.symm⟩
    · -- the bracket that ends the opening would be behind its place
      obtain ⟨front, hfront⟩ := ho.ends
      have hlast : y = .plain '>' := by
        simpa using congrArg List.getLast? hfront
      have hmem : .plain '>' ∈ b := by
        simp [hc, hlast]
      exact absurd hmem hb
  · exact ⟨c, opening?_eq_some_iff.2 ⟨o, ho, rfl⟩, rfl⟩

end LineCost.Pattern
