import LineCost.Pattern.Basic

/-!
Patterns in normal form, which is what an automaton is built from. Characters in a row are one
literal, sets that are alternatives are one set, and what all branches begin with stands before
them.
-/

namespace LineCost.Pattern

inductive Form where
  | empty
  | fail
  | literal (s : List Char)
  /-- One character out of ascending code ranges; there is more than one such character. -/
  | set (ranges : List (Nat × Nat))
  | textStart
  | textEnd
  | group (number : Nat) (p : Form)
  /-- A first part and the other ones. -/
  | cat (p q : Form)
  /-- A choice of several literals. -/
  | words (ws : List (List Char))
  /-- A first branch and the other ones, which are not all literals. -/
  | alt (p q : Form)
  | repeated (p : Form) (least : Nat) (extra : Option Nat) (lazy : Bool)
  deriving DecidableEq

namespace Form

def ofRanges : List (Nat × Nat) → Form
  | [] => .fail
  | [(first, last)] => if first = last then .literal [Char.ofNat first] else .set [(first, last)]
  | ranges => .set ranges

/-- Whether the form spans the empty piece and nothing else. -/
def onlyEmpty : Form → Bool
  | .empty => true
  | .fail => false
  | .literal _ => false
  | .set _ => false
  | .textStart => true
  | .textEnd => true
  | .group _ p => p.onlyEmpty
  | .cat p q => p.onlyEmpty && q.onlyEmpty
  | .words _ => false
  | .alt p q => p.onlyEmpty && q.onlyEmpty
  | .repeated p _ extra _ => extra.isSome && p.onlyEmpty

/-- Puts a part that is not made of several in front of a form. -/
def before : Form → Form → Form
  | .literal s, .literal t => .literal (s ++ t)
  | .literal s, .cat (.literal t) q => .cat (.literal (s ++ t)) q
  | p, .empty => p
  | p, q => .cat p q

def join : Form → Form → Form
  | .empty, q => q
  | .cat p r, q => p.before (join r q)
  | p, q => p.before q

def joinAll (ps : List Form) : Form := ps.foldr join .empty

def parts : Form → List Form
  | .cat p q => p :: q.parts
  | p => [p]

def branches : Form → List Form
  | .alt p q => p :: q.branches
  | .words ws => ws.map literal
  | p => [p]

/-- The ranges of branches that are one character each. -/
def characters? : List Form → Option (List (Nat × Nat))
  | [] => some []
  | .literal [c] :: rest => (characters? rest).map ((c.toNat, c.toNat) :: ·)
  | _ => none

/-- The ranges of branches that are all sets. -/
def sets? : List Form → Option (List (Nat × Nat))
  | [] => some []
  | .fail :: rest => sets? rest
  | .set ranges :: rest => (sets? rest).map (ranges ++ ·)
  | _ => none

/-- What two rows begin with. -/
def sharedStart : List Form → List Form → List Form
  | p :: ps, q :: qs => if p = q then p :: sharedStart ps qs else []
  | _, _ => []

/-- The parts that all branches begin with, if each has several parts. -/
def sharedParts : List Form → List Form
  | [] => []
  | p :: rest =>
    if (p :: rest).all (2 ≤ ·.parts.length) then
      rest.foldl (fun start q => sharedStart start q.parts) p.parts
    else []

/-- The words of branches that are all literals. -/
def words? : List Form → Option (List (List Char))
  | [] => some []
  | .literal s :: rest => (words? rest).map (s :: ·)
  | _ => none

def altAll : List Form → Form
  | [] => .fail
  | [p] => p
  | p :: rest => .alt p (altAll rest)

/-- Branches that have nothing in common. -/
def ofBranches (bs : List Form) : Form :=
  match words? bs with
  | some ws => .words ws
  | none => altAll bs

/-- How many parts and branches the form has at all levels. -/
def size : Form → Nat
  | .cat p q => p.size + q.size
  | .alt p q => p.size + q.size
  | _ => 1

/-- A choice of branches, from which shared parts can be taken out in front at most `depth` times.
-/
def choiceWithin (depth : Nat) (forms : List Form) : Form :=
  let bs := forms.flatMap branches
  match bs with
  | [] => .fail
  | [p] => p
  | bs =>
    match characters? bs, sets? bs with
    | some ranges, _ => .ofRanges (Text.ascending ranges)
    | _, some ranges => .ofRanges (Text.ascending ranges)
    | _, _ =>
      match depth, sharedParts bs with
      | _, [] => ofBranches bs
      | 0, _ => ofBranches bs
      | n + 1, shared =>
        joinAll (shared ++
          [choiceWithin n (bs.map fun p => joinAll (p.parts.drop shared.length))])

/-- A choice of branches. Taking shared parts out makes every branch smaller. -/
def choice : List Form → Form
  | [p] => p
  | ps => choiceWithin (ps.foldr (fun p n => p.size + n) 0) ps

/-- A form in a row, at least `least` times. To repeat what spans only the empty piece makes no
difference after the first time. -/
def times (p : Form) (least : Nat) (extra : Option Nat) (lazy : Bool) : Form :=
  let extra := if p.onlyEmpty then some (min (extra.getD 1) (1 - least)) else extra
  let least := if p.onlyEmpty then min least 1 else least
  if extra = some 0 ∧ least = 0 then .empty
  else if extra = some 0 ∧ least = 1 then p
  else .repeated p least extra lazy

end Form

def forms : Pattern → List Form
  | .empty => [.empty]
  | .one s => [.ofRanges s.ranges]
  | .textStart => [.textStart]
  | .textEnd => [.textEnd]
  | .seq p q => [(Form.choice p.forms).join (.choice q.forms)]
  | .alt p q => .choice p.forms :: q.forms
  | .repeated p least extra lazy => [(Form.choice p.forms).times least extra lazy]
  | .group none p => [.choice p.forms]
  | .group (some n) p => [.group n (.choice p.forms)]

def form (p : Pattern) : Form := .choice p.forms

end LineCost.Pattern
