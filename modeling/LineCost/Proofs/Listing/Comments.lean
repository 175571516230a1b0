import LineCost.Listing.Line
import LineCost.Proofs.Text.Runs

/-!
The comments that mark where a function begins and where it ends: what stands in the line when a mark
is found, and that it is found wherever it stands.
-/

namespace LineCost.Listing

open Text

/-- What begins a comment. -/
inductive Leader where
  | hash
  | atSign
  | slashes
  deriving DecidableEq, Repr

def Leader.sign : Leader → List Char
  | .hash => ['#']
  | .atSign => ['@']
  | .slashes => ['/', '/']

theorem Leader.isBlank_sign (l : Leader) {c : Char} (h : c ∈ l.sign) : isBlank c = false := by
  have hall : l.sign.all (!isBlank ·) = true := by cases l <;> decide +kernel
  simpa using List.all_eq_true.1 hall c h

/-- Somewhere in the line a comment says that a function begins, and names it. -/
def BeginsFunction (s : List Char) : Prop :=
  ∃ (l : Leader) (c : Char), isBlank c = false ∧
    l.sign ++ (" -- Begin function ".toList ++ [c]) <:+: s

/-- Somewhere in the line a comment says that a function ends. -/
def EndsFunction (s : List Char) : Prop :=
  ∃ l : Leader, l.sign ++ " -- End function".toList <:+: s

def Marked (s : List Char) : Prop := BeginsFunction s ∨ EndsFunction s

namespace Line

variable {α : Type} {s t : List Char}

theorem afterLeader?_eq_some_iff : afterLeader? s = some t ↔ ∃ l : Leader, s = l.sign ++ t := by
  constructor
  · intro h
    unfold afterLeader? at h
    split at h
    · exact ⟨.hash, by cases h; rfl⟩
    · exact ⟨.atSign, by cases h; rfl⟩
    · exact ⟨.slashes, by cases h; rfl⟩
    · cases h
  · rintro ⟨_ | _ | _, rfl⟩ <;> rfl

@[simp] theorem afterLeader?_sign (l : Leader) (s : List Char) :
    afterLeader? (l.sign ++ s) = some s :=
  afterLeader?_eq_some_iff.2 ⟨l, rfl⟩

theorem trimStart_sign (l : Leader) (s : List Char) : trimStart (l.sign ++ s) = l.sign ++ s := by
  rw [trimStart_eq_self_iff]
  intro c hc
  have hhead : l.sign.head? = some c := by cases l <;> exact hc
  exact l.isBlank_sign (List.mem_of_mem_head? hhead)

theorem after?_eq_some_iff {beginning : String} :
    after? beginning s = some t ↔ s = beginning.toList ++ t :=
  ⟨eq_of_after?, fun h => h ▸ after?_append beginning t⟩

theorem findFrom?_isSome_iff {next? : List Char → Option α} :
    (findFrom? next? s).isSome ↔ ∃ t, t <:+ s ∧ (next? t).isSome := by
  induction s with
  | nil => simp [findFrom?]
  | cons c rest ih =>
    simp only [List.suffix_cons_iff, or_and_right, exists_or, exists_eq_left]
    rw [← ih, findFrom?]
    cases next? (c :: rest) <;> simp

theorem here?_isSome_iff : (opening?.here? s).isSome ↔
    ∃ (l : Leader) (c : Char), isBlank c = false ∧
      l.sign ++ (" -- Begin function ".toList ++ [c]) <+: s := by
  constructor
  · intro h
    obtain ⟨name, hname⟩ := Option.isSome_iff_exists.1 h
    simp only [opening?.here?, Option.bind_eq_bind, Option.bind_eq_some_iff] at hname
    obtain ⟨a, ha, b, hb, hname⟩ := hname
    obtain ⟨l, rfl⟩ := afterLeader?_eq_some_iff.1 ha
    obtain rfl := after?_eq_some_iff.1 hb
    cases b with
    | nil => simp at hname
    | cons c rest =>
      have hc : isBlank c = false := by
        rw [Bool.eq_false_iff]
        intro hc
        simp [hc] at hname
      exact ⟨l, c, hc, rest, by simp⟩
  · rintro ⟨l, c, hc, rest, rfl⟩
    simp only [opening?.here?, List.append_assoc, List.singleton_append, afterLeader?_sign,
      Option.bind_eq_bind, Option.bind_some, after?_append]
    simp [hc]

/-- A function begins in a line that has a name for it after the mark. -/
theorem opening?_isSome_iff : (opening? s).isSome ↔ BeginsFunction s := by
  simp only [opening?, findFrom?_isSome_iff, here?_isSome_iff, BeginsFunction,
    List.infix_iff_prefix_suffix]
  constructor
  · rintro ⟨t, ht, l, c, hc, hp⟩
    exact ⟨l, c, hc, t, hp, ht⟩
  · rintro ⟨l, c, hc, t, hp, ht⟩
    exact ⟨t, ht, l, c, hc, hp⟩

theorem isClosing_iff : isClosing s = true ↔ EndsFunction s := by
  have hhere : ∀ t, (afterLeader? t >>= after? " -- End function").isSome ↔
      ∃ l : Leader, l.sign ++ " -- End function".toList <+: t := by
    intro t
    simp only [Option.isSome_iff_exists, Option.bind_eq_bind, Option.bind_eq_some_iff,
      afterLeader?_eq_some_iff, after?_eq_some_iff]
    constructor
    · rintro ⟨rest, _, ⟨l, rfl⟩, rfl⟩
      exact ⟨l, rest, by simp⟩
    · rintro ⟨l, rest, rfl⟩
      exact ⟨rest, _, ⟨l, List.append_assoc _ _ _⟩, rfl⟩
  simp only [isClosing, findFrom?_isSome_iff, hhere, EndsFunction, List.infix_iff_prefix_suffix]
  constructor
  · rintro ⟨t, ht, l, hp⟩
    exact ⟨l, t, hp, ht⟩
  · rintro ⟨l, t, hp, ht⟩
    exact ⟨t, ht, l, hp⟩

end Line

end LineCost.Listing
