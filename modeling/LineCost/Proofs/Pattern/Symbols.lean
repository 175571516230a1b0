import LineCost.Pattern.Symbol
import Mathlib.Data.List.Basic

/-!
How a text falls into symbols. What can be read by itself is read in the same way where more
follows, since the reader is ready for a new symbol then. So a longer text falls into the symbols of
its parts.
-/

namespace LineCost.Pattern

namespace Symbol

variable {t t' u : Spelling} {a b : List Char} {x y f g : List Symbol} {c d : Char}
  {s : Option Symbol}

theorem escaped?_ne_plain : escaped? c ≠ some (.plain d) := by
  unfold escaped?
  repeat' split
  all_goals simp

theorem ofCode?_ne_plain {n : Nat} : ofCode? n ≠ some (.plain d) := by
  unfold ofCode?
  split <;> simp

namespace Spelling

/-- A backslash begins an escape, any other character stands for itself, and one in the middle of a
symbol does neither. -/
theorem step?_cases (h : t.step? c = some (u, s)) :
    t = .ready ∧ c = '\\' ∧ u = .escape ∧ s = none ∨
      t = .ready ∧ u = .ready ∧ s = some (.plain c) ∨
      u ≠ .escape ∧ ∀ d, s ≠ some (.plain d) := by
  cases t with
  | ready =>
    simp only [step?] at h
    split at h
    · rename_i hc
      cases h
      exact .inl ⟨rfl, hc, rfl, rfl⟩
    · cases h
      exact .inr (.inl ⟨rfl, rfl, rfl⟩)
  | escape =>
    refine .inr (.inr ?_)
    simp only [step?] at h
    split at h
    · cases h
      simp
    · obtain ⟨r, hr, h⟩ := Option.bind_eq_some_iff.1 h
      cases h
      exact ⟨by simp, fun d he => escaped?_ne_plain (hr.trans he)⟩
  | code left value =>
    refine .inr (.inr ?_)
    simp only [step?] at h
    split at h
    · cases h
      simp
    · obtain ⟨digit, -, h⟩ := Option.bind_eq_some_iff.1 h
      split at h
      · cases h
        simp
      · obtain ⟨r, hr, h⟩ := Option.bind_eq_some_iff.1 h
        cases h
        exact ⟨by simp, fun d he => ofCode?_ne_plain (hr.trans he)⟩
  | braces value =>
    refine .inr (.inr ?_)
    simp only [step?] at h
    split at h
    · obtain ⟨code, -, h⟩ := Option.bind_eq_some_iff.1 h
      obtain ⟨r, hr, h⟩ := Option.bind_eq_some_iff.1 h
      cases h
      exact ⟨by simp, fun d he => ofCode?_ne_plain (hr.trans he)⟩
    · obtain ⟨digit, -, h⟩ := Option.bind_eq_some_iff.1 h
      cases h
      simp

/-- A parenthesis is never part of a code. -/
theorem step?_parenthesis (h : t.step? ')' = some (u, s)) :
    u = .ready ∧ (t = .ready ∧ s = some (.plain ')') ∨ t = .escape ∧ s = some (.quoted ')')) := by
  cases t with
  | ready =>
    cases h
    exact ⟨rfl, .inl ⟨rfl, rfl⟩⟩
  | escape =>
    cases h
    exact ⟨rfl, .inr ⟨rfl, rfl⟩⟩
  | code left value => cases h
  | braces value => cases h

end Spelling

/-- The symbols that end in a text, with what is being read before it and after it. -/
inductive Spell : Spelling → List Char → List Symbol → Spelling → Prop where
  | nil {t : Spelling} : Spell t [] [] t
  | cons {t u v : Spelling} {c : Char} {s : Option Symbol} {a : List Char} {x : List Symbol}
      (hs : t.step? c = some (u, s)) (h : Spell u a x v) : Spell t (c :: a) (s.toList ++ x) v

theorem ofTextFrom?_eq_some_iff : ofTextFrom? t a = some x ↔ Spell t a x .ready := by
  constructor
  · intro h
    induction a generalizing t x with
    | nil =>
      cases t with
      | ready =>
        obtain rfl := Option.some.inj h
        exact .nil
      | _ => cases h
    | cons c a ih =>
      simp only [ofTextFrom?, Option.bind_eq_bind, Option.bind_eq_some_iff] at h
      obtain ⟨⟨u, s⟩, hs, y, hy, h⟩ := h
      obtain rfl := Option.some.inj h
      exact .cons hs (ih hy)
  · intro h
    generalize hv : Spelling.ready = v at h
    induction h with
    | nil =>
      subst hv
      rfl
    | cons hs _ ih => simp [ofTextFrom?, hs, ih hv]

theorem ofText?_eq_some_iff : ofText? a = some x ↔ Spell .ready a x .ready :=
  ofTextFrom?_eq_some_iff

namespace Spell

theorem append (ha : Spell t a x u) (hb : Spell u b y t') : Spell t (a ++ b) (x ++ y) t' := by
  induction ha with
  | nil => exact hb
  | cons hs _ ih =>
    rw [List.append_assoc]
    exact .cons hs (ih hb)

theorem of_append (h : Spell t (a ++ b) x t') :
    ∃ y z u, x = y ++ z ∧ Spell t a y u ∧ Spell u b z t' := by
  induction a generalizing t x with
  | nil => exact ⟨[], x, t, rfl, .nil, h⟩
  | cons c a ih =>
    cases h with
    | cons hs h =>
      obtain ⟨y, z, u, rfl, hy, hz⟩ := ih h
      exact ⟨_, z, u, (List.append_assoc ..).symm, .cons hs hy, hz⟩

theorem unique (h : Spell t a x u) (h' : Spell t a y t') : x = y ∧ u = t' := by
  induction h generalizing y t' with
  | nil =>
    cases h'
    exact ⟨rfl, rfl⟩
  | cons hs _ ih =>
    cases h' with
    | cons hs' h' =>
      cases hs.symm.trans hs'
      obtain ⟨rfl, rfl⟩ := ih h'
      exact ⟨rfl, rfl⟩

/-- What is read of a text by itself is read of it where more follows. -/
theorem rest (h : Spell t a x u) (hy : Spell t (a ++ b) y t') :
    ∃ z, y = x ++ z ∧ Spell u b z t' := by
  obtain ⟨x', z, u', rfl, hx, hz⟩ := hy.of_append
  obtain ⟨rfl, rfl⟩ := h.unique hx
  exact ⟨z, rfl, hz⟩

/-- A plain symbol stands for itself, between what falls into the symbols before it and what falls
into those after it. -/
theorem split (h : Spell t a (f ++ .plain c :: g) u) :
    ∃ front back, a = front ++ c :: back ∧ Spell t front f .ready ∧ Spell .ready back g u := by
  generalize hx : f ++ .plain c :: g = x at h
  induction h generalizing f with
  | nil => simp at hx
  | @cons t v u d s a x hs h ih =>
    cases s with
    | none =>
      obtain ⟨front, back, rfl, hf, hb⟩ := ih hx
      exact ⟨d :: front, back, rfl, .cons hs hf, hb⟩
    | some s =>
      cases f with
      | nil =>
        -- only a character that is not in the middle of a symbol stands for itself
        obtain ⟨rfl, rfl⟩ := List.cons.inj hx
        obtain ⟨-, -, -, he⟩ | ⟨rfl, rfl, he⟩ | ⟨-, hplain⟩ := Spelling.step?_cases hs
        · cases he
        · cases he
          exact ⟨[], a, rfl, .nil, h⟩
        · exact absurd rfl (hplain c)
      | cons s' f =>
        obtain ⟨rfl, htail⟩ := List.cons.inj hx
        obtain ⟨front, back, rfl, hf, hb⟩ := ih htail
        exact ⟨d :: front, back, rfl, .cons hs hf, hb⟩

/-- An escape that has just begun did so with a backslash. -/
theorem of_escape (h : Spell .ready a x .escape) :
    ∃ front, a = front ++ ['\\'] ∧ Spell .ready front x .ready := by
  rcases List.eq_nil_or_concat' a with rfl | ⟨front, c, rfl⟩
  · cases h
  · obtain ⟨y, z, u, rfl, hy, hz⟩ := h.of_append
    cases hz with
    | cons hs hz =>
      cases hz
      obtain ⟨rfl, rfl, -, rfl⟩ | ⟨-, he, -⟩ | ⟨he, -⟩ := Spelling.step?_cases hs
      · exact ⟨front, rfl, by simpa using hy⟩
      · cases he
      · exact absurd rfl he

/-- Before a parenthesis a text falls into symbols by itself, unless it ends with a backslash that
escapes the parenthesis. -/
theorem cut (h : Spell .ready (a ++ ')' :: b) x t) :
    (∃ y z, x = y ++ .plain ')' :: z ∧ Spell .ready a y .ready ∧ Spell .ready b z t) ∨
      ∃ front y z, a = front ++ ['\\'] ∧ x = y ++ .quoted ')' :: z ∧
        Spell .ready front y .ready ∧ Spell .ready b z t := by
  obtain ⟨y, z, u, rfl, hy, hz⟩ := h.of_append
  cases hz with
  | @cons _ _ _ _ _ _ z hs hz =>
    obtain ⟨rfl, ⟨rfl, rfl⟩ | ⟨rfl, rfl⟩⟩ := Spelling.step?_parenthesis hs
    · exact .inl ⟨y, z, rfl, hy, hz⟩
    · obtain ⟨front, rfl, hfront⟩ := hy.of_escape
      exact .inr ⟨front, y, z, rfl, rfl, hfront, hz⟩

end Spell

section Codes

variable {letter : Char} {digits : List Char} {value : Option Nat} {left n : Nat}

/-- The number that hexadecimal digits make behind those that make `n`. -/
def hexValue? (n : Nat) (digits : List Char) : Option Nat :=
  digits.foldlM (fun n c => (hexDigit? c).map (16 * n + ·)) n

theorem hexValue?_cons : hexValue? n (c :: digits) = some left ↔
    ∃ digit, hexDigit? c = some digit ∧ hexValue? (16 * n + digit) digits = some left := by
  simp [hexValue?, Option.bind_eq_some_iff]

theorem ne_of_hexDigit? {digit : Nat} (h : hexDigit? c = some digit) :
    c ≠ '\x7b' ∧ c ≠ '\x7d' := by
  constructor <;> (intro hc; subst hc; cases h)

theorem ofTextFrom?_within (hs : t.step? c = some (u, none)) :
    ofTextFrom? t (c :: a) = ofTextFrom? u a := by
  simp [ofTextFrom?, hs]

theorem ofTextFrom?_code (h : hexValue? (value.getD 0) digits = some n) (hd : digits ≠ []) :
    ofTextFrom? (.code digits.length value) digits = (ofCode? n).map ([·]) := by
  induction digits generalizing value with
  | nil => exact absurd rfl hd
  | cons c rest ih =>
    obtain ⟨digit, hdigit, h⟩ := hexValue?_cons.1 h
    have hc : ¬ (c = '\x7b' ∧ value = none) := fun he => (ne_of_hexDigit? hdigit).1 he.1
    cases rest with
    | nil =>
      obtain rfl := Option.some.inj h
      cases hs : ofCode? (16 * value.getD 0 + digit) <;>
        simp [ofTextFrom?, Spelling.step?, hc, hdigit, hs]
    | cons c' rest =>
      have hstep : (Spelling.code (c :: c' :: rest).length value).step? c =
          some (.code (c' :: rest).length (some (16 * value.getD 0 + digit)), none) := by
        simp [Spelling.step?, hc, hdigit]
      have hrest := @ih (some (16 * value.getD 0 + digit)) h (List.cons_ne_nil _ _)
      rw [ofTextFrom?_within hstep, hrest]

theorem ofTextFrom?_braces (h : hexValue? (value.getD 0) digits = some n)
    (hd : digits = [] → value.isSome = true) :
    ofTextFrom? (.braces value) (digits ++ ['\x7d']) = (ofCode? n).map ([·]) := by
  induction digits generalizing value with
  | nil =>
    obtain ⟨m, rfl⟩ := Option.isSome_iff_exists.1 (hd rfl)
    obtain rfl := Option.some.inj h
    cases hs : ofCode? m <;> simp [ofTextFrom?, Spelling.step?, hs]
  | cons c rest ih =>
    obtain ⟨digit, hdigit, h⟩ := hexValue?_cons.1 h
    have hc := (ne_of_hexDigit? hdigit).2
    have hstep : (Spelling.braces value).step? c =
        some (.braces (some (16 * value.getD 0 + digit)), none) := by
      simp [Spelling.step?, hc, hdigit]
    have hrest := @ih (some (16 * value.getD 0 + digit)) h fun _ => rfl
    rw [List.cons_append, ofTextFrom?_within hstep, hrest]

/-- A code stands for the character of its number: as many digits as the letter takes, or any number
of them in braces. -/
theorem ofText?_code (h : hexValue? 0 digits = some n) (hd : digits ≠ [])
    (hl : codeLength? letter = some left) :
    (left = digits.length → ofText? ('\\' :: letter :: digits) = (ofCode? n).map ([·])) ∧
      ofText? ('\\' :: letter :: '\x7b' :: digits ++ ['\x7d']) = (ofCode? n).map ([·]) := by
  have hstep : Spelling.escape.step? letter = some (.code left none, none) := by
    simp [Spelling.step?, hl]
  have hbegin (rest : List Char) :
      ofText? ('\\' :: letter :: rest) = ofTextFrom? (.code left none) rest := by
    have hbackslash : Spelling.ready.step? '\\' = some (.escape, none) := rfl
    rw [ofText?, ofTextFrom?_within hbackslash, ofTextFrom?_within hstep]
  constructor
  · intro hleft
    rw [hbegin, hleft]
    exact ofTextFrom?_code h hd
  · have hbrace : (Spelling.code left none).step? '\x7b' = some (.braces none, none) := by
      simp [Spelling.step?]
    have hbraces : ofTextFrom? (.braces none) (digits ++ ['\x7d']) = (ofCode? n).map ([·]) :=
      ofTextFrom?_braces h fun he => absurd he hd
    rw [List.cons_append, List.cons_append, List.cons_append, hbegin, ofTextFrom?_within hbrace,
      hbraces]

example : ofText? "\\x42\\u0042\\U00000042".toList =
    some [.quoted 'B', .quoted 'B', .quoted 'B'] := by
  decide

end Codes

end Symbol

end LineCost.Pattern
