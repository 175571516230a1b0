import LineCost.Proofs.Pattern.Brackets
import LineCost.Proofs.Pattern.GroupNames
import LineCost.Proofs.Pattern.Symbols

/-!
The symbols of a text when its bracketed sets and the names of its groups have been read, as a
relation without steps to count. Before a parenthesis that closes, a text has the symbols that it
has by itself, and where a symbol of the result stands for itself the text can be taken apart.
-/

namespace LineCost.Pattern

variable {sets outer : List OpenSet} {s : OpenSet} {l b x out y f g : List Symbol} {c : Char}
  {text : List Char} {n : Nat}

/-- What symbols become, where `sets` are the sets that are open before them. -/
inductive Resolves : List OpenSet → List Symbol → List Symbol → Prop where
  | nil : Resolves [] [] []
  | keep {x : Symbol} {l out : List Symbol} (hx : x ≠ .plain '[') (hn : naming? (x :: l) = none)
      (h : Resolves [] l out) : Resolves [] (x :: l) (x :: out)
  | named {name : List Char} {l rest out : List Symbol} (hn : opening? l = some (name, rest))
      (h : Resolves [] rest out) : Resolves [] l (.opening name :: out)
  | enter {l out : List Symbol} (h : Resolves [(OpenSet.start l).1] (OpenSet.start l).2 out) :
      Resolves [] (.plain '[' :: l) out
  | step {s : OpenSet} {outer sets : List OpenSet} {l rest out : List Symbol}
      (hs : stepInside? s outer l = some (.inr sets, rest)) (h : Resolves sets rest out) :
      Resolves (s :: outer) l out
  | close {s : OpenSet} {outer : List OpenSet} {t : CharSet} {l rest out : List Symbol}
      (hs : stepInside? s outer l = some (.inl t, rest)) (h : Resolves [] rest out) :
      Resolves (s :: outer) l (.set t :: out)

theorem resolveWithin_keep {x : Symbol} (hx : x ≠ .plain '[') (hn : naming? (x :: l) = none) :
    resolveWithin (n + 1) [] (x :: l) = (resolveWithin n [] l).map (x :: ·) := by
  cases h : resolveWithin n [] l <;> simp [resolveWithin, hn, h]

theorem resolveWithin_named {name : List Char} {rest : List Symbol}
    (hn : opening? l = some (name, rest)) :
    resolveWithin (n + 1) [] l = (resolveWithin n [] rest).map (.opening name :: ·) := by
  obtain ⟨named, hnaming, hname⟩ := Option.bind_eq_some_iff.1 hn
  cases l with
  | nil => cases hnaming
  | cons x l =>
    cases h : resolveWithin n [] rest <;> simp [resolveWithin, hnaming, hname, h]

theorem resolves_of_resolveWithin {n : Nat} (h : resolveWithin n sets l = some out) :
    Resolves sets l out := by
  induction n generalizing sets l out with
  | zero =>
    cases l with
    | nil =>
      cases sets with
      | nil =>
        obtain rfl := Option.some.inj h
        exact .nil
      | cons s outer => cases h
    | cons x l => cases sets <;> cases h
  | succ n ih =>
    cases sets with
    | nil =>
      cases l with
      | nil =>
        obtain rfl := Option.some.inj h
        exact .nil
      | cons x l =>
        by_cases hx : x = .plain '['
        · subst hx
          exact .enter (ih h)
        · cases hn : naming? (x :: l) with
          | none =>
            rw [resolveWithin_keep hx hn] at h
            obtain ⟨out, hout, rfl⟩ := Option.map_eq_some_iff.1 h
            exact .keep hx hn (ih hout)
          | some named =>
            simp only [resolveWithin, hn, Option.bind_eq_bind] at h
            obtain ⟨⟨name, rest⟩, hname, h⟩ := Option.bind_eq_some_iff.1 h
            obtain ⟨out, hout, h⟩ := Option.bind_eq_some_iff.1 h
            obtain rfl := Option.some.inj h
            exact .named (Option.bind_eq_some_iff.2 ⟨named, hn, hname⟩) (ih hout)
    | cons s outer =>
      rw [resolveWithin_succ] at h
      obtain ⟨⟨r, rest⟩, hs, h⟩ := Option.bind_eq_some_iff.1 h
      cases r with
      | inl t =>
        obtain ⟨out, hout, rfl⟩ := Option.map_eq_some_iff.1 h
        exact .close hs (ih hout)
      | inr sets => exact .step hs (ih h)

theorem resolveWithin_of_resolves {n : Nat} (hn : l.length ≤ n) (h : Resolves sets l out) :
    resolveWithin n sets l = some out := by
  induction h generalizing n with
  | nil => cases n <;> rfl
  | @keep x l out hx hnone _ ih =>
    obtain ⟨n, rfl⟩ := Nat.exists_eq_add_of_lt hn
    rw [List.length_cons] at hn
    rw [resolveWithin_keep hx hnone, ih (by omega)]
    rfl
  | @named name l rest out hname _ ih =>
    obtain ⟨o, ho, rfl⟩ := opening?_eq_some_iff.1 hname
    obtain ⟨front, rfl⟩ := ho.ends
    simp only [List.length_append, List.length_singleton] at hn
    obtain ⟨n, rfl⟩ := Nat.exists_eq_add_one.2 (show 0 < n by omega)
    rw [resolveWithin_named hname, ih (by omega)]
    rfl
  | @enter l out _ ih =>
    obtain ⟨n, rfl⟩ := Nat.exists_eq_add_of_lt hn
    obtain ⟨read, hread⟩ := start_suffix l
    have hlength := congrArg List.length hread
    rw [List.length_append] at hlength
    rw [List.length_cons] at hn
    exact ih (by omega)
  | @step s outer sets l rest out hs _ ih =>
    obtain ⟨y, read, rfl, -⟩ := stepInside?_suffix hs
    simp only [List.length_append, List.length_cons] at hn
    obtain ⟨n, rfl⟩ := Nat.exists_eq_add_one.2 (show 0 < n by omega)
    rw [resolveWithin_succ, hs]
    exact ih (by omega)
  | @close s outer t l rest out hs _ ih =>
    obtain ⟨y, read, rfl, -⟩ := stepInside?_suffix hs
    simp only [List.length_append, List.length_cons] at hn
    obtain ⟨n, rfl⟩ := Nat.exists_eq_add_one.2 (show 0 < n by omega)
    rw [resolveWithin_succ, hs]
    exact Option.map_eq_some_iff.2 ⟨out, ih (by omega), rfl⟩

theorem symbols?_eq_some_iff :
    symbols? text = some out ↔ ∃ x, Symbol.Spell .ready text x .ready ∧ Resolves [] x out := by
  rw [symbols?, Option.bind_eq_bind, Option.bind_eq_some_iff]
  constructor
  · intro h
    obtain ⟨x, hx, h⟩ := h
    exact ⟨x, Symbol.ofText?_eq_some_iff.1 hx, resolves_of_resolveWithin h⟩
  · intro h
    obtain ⟨x, hx, h⟩ := h
    exact ⟨x, Symbol.ofText?_eq_some_iff.2 hx, resolveWithin_of_resolves (Nat.le_refl _) h⟩

namespace Resolves

/-- Where no set and no group begins, every symbol stays what it is. -/
theorem eq_of_not_mem (h : Resolves [] l out) (hl : .plain '[' ∉ l) (hl' : .plain '(' ∉ l) :
    out = l := by
  induction l generalizing out with
  | nil =>
    cases h with
    | nil => rfl
    | named hn => cases hn
  | cons x l ih =>
    cases h with
    | keep _ _ h =>
      rw [ih h (fun hm => hl (List.mem_cons_of_mem _ hm)) fun hm => hl' (List.mem_cons_of_mem _ hm)]
    | named hn => exact absurd (naming?_eq_none hl') (naming?_ne_none hn)
    | enter => exact absurd List.mem_cons_self hl

/-- An open set is closed by a bracket. -/
theorem hasClosing (h : Resolves (s :: outer) l out) : HasClosing l := by
  generalize hsets : s :: outer = sets at h
  induction h generalizing s outer with
  | nil => cases hsets
  | keep => cases hsets
  | named => cases hsets
  | enter => cases hsets
  | step hs _ ih =>
    obtain ⟨y, read, rfl, rfl | ⟨s, outer, he⟩⟩ := stepInside?_suffix hs
    · exact List.mem_cons_self
    · exact List.mem_append_right _ (ih (Sum.inr.inj he).symm)
  | close hs _ _ =>
    obtain ⟨y, read, rfl, rfl | ⟨s, outer, he⟩⟩ := stepInside?_suffix hs
    · exact List.mem_cons_self
    · cases he

/-- One that is open is closed by a bracket within the text that it begins in. -/
theorem hasClosing_of_start (h : Resolves [(OpenSet.start l).1] (OpenSet.start l).2 out) :
    HasClosing l := by
  obtain ⟨read, hread⟩ := start_suffix l
  rw [hread]
  exact List.mem_append_right _ h.hasClosing

/-- A text has its symbols also before a parenthesis that closes. -/
theorem append (h : Resolves sets l out) (hb : Resolves [] (.plain ')' :: b) y) :
    Resolves sets (l ++ .plain ')' :: b) (out ++ y) := by
  induction h with
  | nil => exact hb
  | keep hx hn _ ih => exact .keep hx (naming?_parenthesis hn) ih
  | named hn _ ih => exact .named (opening?_append hn) ih
  | enter h ih =>
    rw [List.cons_append]
    refine .enter ?_
    rw [start_append h.hasClosing_of_start]
    exact ih
  | @step s outer sets l rest out hs h ih =>
    refine .step ?_ ih
    rw [stepInside?_append (Resolves.step hs h).hasClosing, hs]
    rfl
  | @close s outer t l rest out hs h ih =>
    refine .close ?_ ih
    rw [stepInside?_append (Resolves.close hs h).hasClosing, hs]
    rfl

/-- What is read of a text by itself is read of it before a parenthesis that closes. -/
theorem rest (h : Resolves sets l x) (hout : Resolves sets (l ++ .plain ')' :: b) out) :
    ∃ y, out = x ++ y ∧ Resolves [] (.plain ')' :: b) y := by
  induction h generalizing out with
  | nil => exact ⟨out, rfl, hout⟩
  | keep hx hn _ ih =>
    cases hout with
    | keep _ _ hout =>
      obtain ⟨y, rfl, hy⟩ := ih hout
      exact ⟨y, rfl, hy⟩
    | named hn' => exact absurd (naming?_parenthesis hn) (naming?_ne_none hn')
    | enter => exact absurd rfl hx
  | @named name l rest x hn _ ih =>
    -- what follows does not change the name, so that the text is read as an opening here too
    have hn := opening?_append (b := .plain ')' :: b) hn
    generalize l ++ .plain ')' :: b = t at hn hout
    cases hout with
    | nil => cases hn
    | keep _ hnone => exact absurd hnone (naming?_ne_none hn)
    | named hn' hout =>
      cases hn.symm.trans hn'
      obtain ⟨y, rfl, hy⟩ := ih hout
      exact ⟨y, rfl, hy⟩
    | enter => cases hn
  | enter h ih =>
    rw [List.cons_append] at hout
    cases hout with
    | keep hx => exact absurd rfl hx
    | named hn => cases hn
    | enter hout =>
      rw [start_append h.hasClosing_of_start] at hout
      exact ih hout
  | step hs h ih =>
    have hclosing := (Resolves.step hs h).hasClosing
    cases hout with
    | step hs' hout =>
      obtain ⟨rest, hl, rfl⟩ := stepInside?_cut hclosing hs'
      cases hl.symm.trans hs
      exact ih hout
    | close hs' =>
      obtain ⟨rest, hl, -⟩ := stepInside?_cut hclosing hs'
      cases hl.symm.trans hs
  | close hs h ih =>
    have hclosing := (Resolves.close hs h).hasClosing
    cases hout with
    | step hs' =>
      obtain ⟨rest, hl, -⟩ := stepInside?_cut hclosing hs'
      cases hl.symm.trans hs
    | close hs' hout =>
      obtain ⟨rest, hl, rfl⟩ := stepInside?_cut hclosing hs'
      cases hl.symm.trans hs
      obtain ⟨y, rfl, hy⟩ := ih hout
      exact ⟨y, rfl, hy⟩

/-- Symbols that end neither a set nor a name are read apart from those before them. -/
theorem cut (h : Resolves sets (l ++ b) out) (hb : ¬ HasClosing b) (hb' : .plain '>' ∉ b) :
    ∃ y z, out = y ++ z ∧ Resolves sets l y ∧ Resolves [] b z := by
  have hleft {l : List Symbol} (h : HasClosing (l ++ b)) : HasClosing l :=
    (List.mem_append.1 h).resolve_right hb
  generalize hlb : l ++ b = t at h
  induction h generalizing l with
  | nil =>
    obtain ⟨rfl, rfl⟩ := List.append_eq_nil_iff.1 hlb
    exact ⟨[], [], rfl, .nil, .nil⟩
  | @keep x t out hx hn h ih =>
    cases l with
    | nil =>
      rw [List.nil_append] at hlb
      exact ⟨[], x :: out, rfl, .nil, hlb ▸ .keep hx hn h⟩
    | cons x' l =>
      rw [List.cons_append, List.cons.injEq] at hlb
      obtain ⟨rfl, rfl⟩ := hlb
      obtain ⟨y, z, rfl, hy, hz⟩ := ih rfl
      exact ⟨x' :: y, z, rfl, .keep hx (naming?_of_append hn) hy, hz⟩
  | named hn _ ih =>
    subst hlb
    obtain ⟨rest, hl, rfl⟩ := opening?_cut hn hb'
    obtain ⟨y, z, rfl, hy, hz⟩ := ih rfl
    exact ⟨.opening _ :: y, z, rfl, .named hl hy, hz⟩
  | @enter t out h ih =>
    cases l with
    | nil =>
      rw [List.nil_append] at hlb
      exact absurd (hlb ▸ List.mem_cons_of_mem _ h.hasClosing_of_start) hb
    | cons x' l =>
      rw [List.cons_append, List.cons.injEq] at hlb
      obtain ⟨rfl, rfl⟩ := hlb
      rw [start_append (hleft h.hasClosing_of_start)] at ih
      obtain ⟨y, z, rfl, hy, hz⟩ := ih rfl
      exact ⟨y, z, rfl, .enter hy, hz⟩
  | step hs h ih =>
    subst hlb
    obtain ⟨l, hl, rfl⟩ := stepInside?_cut (hleft (Resolves.step hs h).hasClosing) hs
    obtain ⟨y, z, rfl, hy, hz⟩ := ih rfl
    exact ⟨y, z, rfl, .step hl hy, hz⟩
  | @close _ _ a _ _ _ hs h ih =>
    subst hlb
    obtain ⟨l, hl, rfl⟩ := stepInside?_cut (hleft (Resolves.close hs h).hasClosing) hs
    obtain ⟨y, z, rfl, hy, hz⟩ := ih rfl
    exact ⟨.set a :: y, z, rfl, .close hl hy, hz⟩

/-- A plain symbol of the result stands for itself, between what becomes the symbols before it and
what becomes those after it. -/
theorem split (h : Resolves sets l (f ++ .plain c :: g)) :
    ∃ front back, l = front ++ .plain c :: back ∧ Resolves sets front f ∧ Resolves [] back g := by
  generalize hx : f ++ .plain c :: g = x at h
  induction h generalizing f with
  | nil => simp at hx
  | @keep x l out hne hn h ih =>
    cases f with
    | nil =>
      rw [List.nil_append, List.cons.injEq] at hx
      obtain ⟨rfl, rfl⟩ := hx
      exact ⟨[], l, rfl, .nil, h⟩
    | cons x' f =>
      rw [List.cons_append, List.cons.injEq] at hx
      obtain ⟨rfl, hx⟩ := hx
      obtain ⟨front, back, rfl, hf, hb⟩ := ih hx
      exact ⟨x' :: front, back, rfl, .keep hne (naming?_of_append hn) hf, hb⟩
  | named hn _ ih =>
    cases f with
    | nil => cases hx
    | cons x' f =>
      rw [List.cons_append, List.cons.injEq] at hx
      obtain ⟨rfl, hx⟩ := hx
      obtain ⟨front, back, rfl, hf, hb⟩ := ih hx
      obtain ⟨o, ho, rfl⟩ := opening?_eq_some_iff.1 hn
      exact ⟨o ++ front, back, (List.append_assoc ..).symm,
        .named (opening?_eq_some_iff.2 ⟨o, ho, rfl⟩) hf, hb⟩
  | @enter l out h ih =>
    obtain ⟨front, back, hl, hf, hb⟩ := ih hx
    obtain ⟨read, hread⟩ := start_suffix l
    rw [hl, ← List.append_assoc] at hread
    -- the set closes before the symbol, so that it begins the same way without what follows
    have hstart := start_append (b := .plain c :: back) (List.mem_append_right read hf.hasClosing)
    rw [← hread, Prod.ext_iff] at hstart
    refine ⟨.plain '[' :: (read ++ front), back, congrArg _ hread, .enter ?_, hb⟩
    have hrest : (OpenSet.start (read ++ front)).2 = front :=
      List.append_cancel_right (hstart.2.symm.trans hl)
    have hfirst : (OpenSet.start l).1 = (OpenSet.start (read ++ front)).1 := hstart.1
    rw [hrest, ← hfirst]
    exact hf
  | step hs h ih =>
    obtain ⟨front, back, rfl, hf, hb⟩ := ih hx
    obtain ⟨y, read, rfl, hopen⟩ := stepInside?_suffix hs
    rw [← List.append_assoc] at hs ⊢
    refine ⟨y :: read ++ front, back, rfl, ?_, hb⟩
    have hclosing : HasClosing (y :: read ++ front) := by
      rcases hopen with rfl | ⟨s, outer, he⟩
      · exact List.mem_cons_self
      · cases he
        exact List.mem_append_right _ hf.hasClosing
    obtain ⟨rest, hs, he⟩ := stepInside?_cut hclosing hs
    obtain rfl := List.append_cancel_right he
    exact .step hs hf
  | @close _ _ a _ _ _ hs h ih =>
    cases f with
    | nil => cases hx
    | cons x f =>
      rw [List.cons_append, List.cons.injEq] at hx
      obtain ⟨rfl, hx⟩ := hx
      obtain ⟨front, back, rfl, hf, hb⟩ := ih hx
      obtain ⟨y, read, rfl, rfl | ⟨s, outer, he⟩⟩ := stepInside?_suffix hs
      · rw [← List.append_assoc] at hs ⊢
        refine ⟨.plain ']' :: read ++ front, back, rfl, ?_, hb⟩
        obtain ⟨rest, hs, he⟩ := stepInside?_cut List.mem_cons_self hs
        obtain rfl := List.append_cancel_right he
        exact .close hs hf
      · cases he

end Resolves

/-- The marks of a group without a name stand for themselves, and so does an anchor before it. -/
theorem symbols?_anchored : symbols? ('^' :: '(' :: '?' :: ':' :: text) =
    (symbols? text).map (['^', '(', '?', ':'].map .plain ++ ·) := by
  have htext : Symbol.ofText? ('^' :: '(' :: '?' :: ':' :: text) =
      (Symbol.ofText? text).map (['^', '(', '?', ':'].map .plain ++ ·) := by
    cases h : Symbol.ofTextFrom? .ready text <;>
      simp [Symbol.ofText?, Symbol.ofTextFrom?, Symbol.Spelling.step?, h]
  rw [symbols?, symbols?, htext]
  cases Symbol.ofText? text with
  | none => rfl
  | some x => cases h : resolveWithin x.length [] x <;> simp [resolveWithin, naming?, h]

/-- A text has its symbols also before a parenthesis that closes. -/
theorem symbols?_append {a b : List Char} (ha : symbols? a = some x)
    (hb : symbols? (')' :: b) = some y) : symbols? (a ++ ')' :: b) = some (x ++ y) := by
  obtain ⟨u, hu, ha⟩ := symbols?_eq_some_iff.1 ha
  obtain ⟨v, hv, hb⟩ := symbols?_eq_some_iff.1 hb
  cases hv with
  | cons hs hv =>
    cases hs
    exact symbols?_eq_some_iff.2 ⟨_, hu.append (.cons rfl hv), ha.append hb⟩

theorem symbols?_rest {a b : List Char} (ha : symbols? a = some x)
    (h : symbols? (a ++ ')' :: b) = some out) :
    ∃ y, out = x ++ y ∧ symbols? (')' :: b) = some y := by
  obtain ⟨u, hu, ha⟩ := symbols?_eq_some_iff.1 ha
  obtain ⟨v, hv, h⟩ := symbols?_eq_some_iff.1 h
  obtain ⟨w, rfl, hw⟩ := hu.rest hv
  cases hw with
  | cons hs hw =>
    cases hs
    obtain ⟨y, rfl, hy⟩ := ha.rest h
    exact ⟨y, rfl, symbols?_eq_some_iff.2 ⟨_, .cons rfl hw, hy⟩⟩

theorem symbols?_split (h : symbols? text = some (f ++ .plain c :: g)) :
    ∃ front back, text = front ++ c :: back ∧ symbols? front = some f ∧ symbols? back = some g := by
  obtain ⟨u, hu, h⟩ := symbols?_eq_some_iff.1 h
  obtain ⟨v, w, rfl, hv, hw⟩ := h.split
  obtain ⟨front, back, rfl, hfront, hback⟩ := hu.split
  exact ⟨front, back, rfl, symbols?_eq_some_iff.2 ⟨v, hfront, hv⟩,
    symbols?_eq_some_iff.2 ⟨w, hback, hw⟩⟩

/-- A parenthesis after a text stands for itself, unless a backslash at the end escapes it. -/
theorem symbols?_close {a : List Char} (h : symbols? (a ++ [')', '$']) = some out) :
    (∃ x, symbols? a = some x ∧ out = x ++ [.plain ')', .plain '$']) ∨
      ∃ front x, a = front ++ ['\\'] ∧ symbols? front = some x ∧
        out = x ++ [.quoted ')', .plain '$'] := by
  have hdollar {z : List Symbol} (hz : Symbol.Spell .ready ['$'] z .ready) : z = [.plain '$'] := by
    obtain ⟨rfl, -⟩ := hz.unique (.cons rfl .nil)
    rfl
  obtain ⟨u, hu, h⟩ := symbols?_eq_some_iff.1 h
  rcases hu.cut with ⟨v, w, rfl, hv, hw⟩ | ⟨front, v, w, rfl, rfl, hv, hw⟩
  · obtain rfl := hdollar hw
    obtain ⟨x, z, rfl, hx, hz⟩ := h.cut (by decide) (by decide)
    obtain rfl := hz.eq_of_not_mem (by decide) (by decide)
    exact .inl ⟨x, symbols?_eq_some_iff.2 ⟨v, hv, hx⟩, rfl⟩
  · obtain rfl := hdollar hw
    obtain ⟨x, z, rfl, hx, hz⟩ := h.cut (by decide) (by decide)
    obtain rfl := hz.eq_of_not_mem (by decide) (by decide)
    exact .inr ⟨front, x, rfl, symbols?_eq_some_iff.2 ⟨v, hv, hx⟩, rfl⟩

end LineCost.Pattern
