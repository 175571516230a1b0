import LineCost.Pattern.Lanes
import LineCost.Pattern.Turns

/-!
Patterns made ready for reading a text: what has to be looked up again and again is worked out
beforehand. A pattern allows to skip it exactly where it spans the empty piece (`allow_skips_iff`).
-/

namespace LineCost.Pattern

/-- Whether the empty piece is spanned, for each of the places that it can stand at. -/
structure Skips where
  inside : Bool
  front : Bool
  back : Bool
  alone : Bool
  deriving DecidableEq

namespace Skips

/-- Whether the empty piece is spanned, where nothing stands before it if `atStart` and nothing
stands after it if `atEnd`. -/
def allow (k : Skips) : (atStart atEnd : Bool) → Bool
  | false, false => k.inside
  | true, false => k.front
  | false, true => k.back
  | true, true => k.alone

def ofFun (f : Bool → Bool → Bool) : Skips :=
  ⟨f false false, f true false, f false true, f true true⟩

/-- Where both sets of places span it. -/
def both (k l : Skips) : Skips := ofFun fun s e => k.allow s e && l.allow s e

/-- Where one of the two spans it. -/
def either (k l : Skips) : Skips := ofFun fun s e => k.allow s e || l.allow s e

theorem allow_ofFun {f : Bool → Bool → Bool} {s e : Bool} : (ofFun f).allow s e = f s e := by
  cases s <;> cases e <;> rfl

end Skips

/-- Where the pattern spans the empty piece. -/
def skips : Pattern → Skips
  | .empty => .ofFun fun _ _ => true
  | .one _ => .ofFun fun _ _ => false
  | .textStart => .ofFun fun s _ => s
  | .textEnd => .ofFun fun _ e => e
  | .seq p q => p.skips.both q.skips
  | .alt p q => p.skips.either q.skips
  | .repeated p least _ _ => if least = 0 then .ofFun fun _ _ => true else p.skips
  | .group _ p => p.skips

theorem allow_skips_iff {p : Pattern} {s e : Bool} :
    p.skips.allow s e = true ↔ Spans p s [] e := by
  induction p with
  | empty => simp [skips, Skips.allow_ofFun, spans_empty_iff]
  | one a => simp [skips, Skips.allow_ofFun, spans_one_iff]
  | textStart => simp [skips, Skips.allow_ofFun, spans_textStart_iff]
  | textEnd => simp [skips, Skips.allow_ofFun, spans_textEnd_iff]
  | seq p q ihp ihq =>
    rw [skips, Skips.both, Skips.allow_ofFun, Bool.and_eq_true, ihp, ihq, spans_seq_nil_iff]
  | alt p q ihp ihq =>
    rw [skips, Skips.either, Skips.allow_ofFun, Bool.or_eq_true, ihp, ihq, spans_alt_iff]
  | repeated p n x l ih =>
    rw [skips, spans_repeated_nil_iff]
    split
    · simp [Skips.allow_ofFun, *]
    · simp [*]
  | group n p ih => rw [skips, ih, spans_group_iff]

/-- A pattern ready for reading. -/
inductive Track where
  /-- Reads nothing. -/
  | still
  /-- A letter with its fold. -/
  | letter (fold : Nat)
  | one (s : CharSet)
  /-- Two parts, and where each of them spans the empty piece. -/
  | seq (before after : Skips) (a b : Track)
  | alt (a b : Track)
  /-- A repetition of what spans the empty piece where `inner` tells. -/
  | repeated (inner : Skips) (slots : Slots) (least : Nat) (endless : Bool) (a : Track)
  deriving DecidableEq

namespace Track

/-- A repetition, unless there is nothing to read in it. -/
def ofRepeated (inner : Skips) (slots : Slots) (least : Nat) (endless : Bool) : Track → Track
  | .still => .still
  | a => if slots.count = 0 then .still else .repeated inner slots least endless a

/-- The track of a pattern on so many lanes. -/
def ofPattern : Pattern → (lanes : Nat) → Track
  | .empty, _ => .still
  | .one (.letter c), _ => .letter (Text.fold c)
  | .one s, _ => .one s
  | .textStart, _ => .still
  | .textEnd, _ => .still
  | .seq p q, n => .seq p.skips q.skips (ofPattern p n) (ofPattern q n)
  | .alt p q, n => .alt (ofPattern p n) (ofPattern q n)
  | .repeated p least extra _, n =>
    let slots : Slots := ⟨n, slotCount least extra⟩
    ofRepeated p.skips slots least extra.isNone (ofPattern p (slots.count * n))
  | .group _ p, n => ofPattern p n

end Track

end LineCost.Pattern
