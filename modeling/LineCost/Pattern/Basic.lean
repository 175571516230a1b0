import LineCost.Pattern.CharSet

/-!
Patterns for mnemonics, and the relation between a pattern and the pieces of text it spans.
-/

namespace LineCost

/-- A pattern over characters. A branch of several parts and a choice of several branches lean to
the right; where one is part of the other, a group stands around it. -/
inductive Pattern where
  /-- The empty piece. -/
  | empty
  /-- One character of a set. -/
  | one (s : Pattern.CharSet)
  /-- The empty piece, where nothing stands before it. -/
  | textStart
  /-- The empty piece, where nothing stands after it. -/
  | textEnd
  | seq (p q : Pattern)
  | alt (p q : Pattern)
  /-- At least `least` pieces in a row and, if there is a limit, at most `extra` more. -/
  | repeated (p : Pattern) (least : Nat) (extra : Option Nat) (lazy : Bool)
  /-- A group that captures has a number, counted by opening parentheses. -/
  | group (number : Option Nat) (p : Pattern)
  deriving DecidableEq

namespace Pattern

/-- The statement `Spans p atStart v atEnd` says that `p` spans the piece `v` of a text, where
`atStart` tells that nothing stands before the piece and `atEnd` that nothing stands after it. That
a repetition is lazy makes no difference to what it can span, and no more does a group. -/
inductive Spans : Pattern → Bool → List Char → Bool → Prop where
  | empty {s e} : Spans .empty s [] e
  | one {a c s e} (h : a.contains c = true) : Spans (.one a) s [c] e
  | textStart {e} : Spans .textStart true [] e
  | textEnd {s} : Spans .textEnd s [] true
  | seq {p q s v w e} (hp : Spans p s v (e && w.isEmpty)) (hq : Spans q (s && v.isEmpty) w e) :
      Spans (.seq p q) s (v ++ w) e
  | left {p q s v e} (h : Spans p s v e) : Spans (.alt p q) s v e
  | right {p q s v e} (h : Spans q s v e) : Spans (.alt p q) s v e
  | stop {p x l s e} : Spans (.repeated p 0 x l) s [] e
  | owed {p n x l s v w e} (hp : Spans p s v (e && w.isEmpty))
      (hr : Spans (.repeated p n x l) (s && v.isEmpty) w e) :
      Spans (.repeated p (n + 1) x l) s (v ++ w) e
  | more {p x l s v w e} (hx : x ≠ some 0) (hp : Spans p s v (e && w.isEmpty))
      (hr : Spans (.repeated p 0 (x.map (· - 1)) l) (s && v.isEmpty) w e) :
      Spans (.repeated p 0 x l) s (v ++ w) e
  | group {n p s v e} (h : Spans p s v e) : Spans (.group n p) s v e

/-- Some piece of the text is spanned by the pattern. -/
def OccursIn (p : Pattern) (text : List Char) : Prop :=
  ∃ u v w, text = u ++ v ++ w ∧ Spans p u.isEmpty v w.isEmpty

def ofParts : List Pattern → Pattern
  | [] => .empty
  | [p] => p
  | p :: rest => .seq p (ofParts rest)

def ofBranches : List Pattern → Pattern
  | [] => .empty
  | [p] => p
  | p :: rest => .alt p (ofBranches rest)

def isSeq : Pattern → Bool
  | .seq _ _ => true
  | _ => false

def isAlt : Pattern → Bool
  | .alt _ _ => true
  | _ => false

/-- How deeply the pattern is nested. Parts in a row count once, and so do branches. -/
def depth : Pattern → Nat
  | .empty => 0
  | .one s => s.depth
  | .textStart => 0
  | .textEnd => 0
  | .seq p q => max (p.depth + 1) (if q.isSeq then q.depth else q.depth + 1)
  | .alt p q => max (p.depth + 1) (if q.isAlt then q.depth else q.depth + 1)
  | .repeated p _ _ _ => p.depth + 1
  | .group _ p => p.depth + 1

end Pattern

end LineCost
