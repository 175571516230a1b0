import LineCost.Text.Blank
import LineCost.Text.Digit
import LineCost.Text.Fold
import LineCost.Text.Word

/-!
Sets of characters as a pattern names them. Letters, ranges and named sets stand for their
characters in any case; a complement is taken after that.
-/

namespace LineCost.Pattern

inductive Kind where
  | digit
  | word
  | blank
  deriving DecidableEq

namespace Kind

def contains : Kind → Char → Bool
  | .digit => Text.isDigit
  | .word => Text.isWordChar
  | .blank => Text.isBlank

def ranges : Kind → List (Nat × Nat)
  | .digit => Text.digitRanges
  | .word => Text.wordRanges
  | .blank => Text.blankRanges

end Kind

/-- The sets of ASCII characters that can be named between brackets. -/
inductive AsciiSet where
  | alnum
  | alpha
  | ascii
  | blank
  | cntrl
  | digit
  | graph
  | lower
  | print
  | punct
  | space
  | upper
  | word
  | xdigit
  deriving DecidableEq

namespace AsciiSet

def all : List AsciiSet :=
  [alnum, alpha, ascii, blank, cntrl, digit, graph, lower, print, punct, space, upper, word, xdigit]

def name : AsciiSet → String
  | alnum => "alnum"
  | alpha => "alpha"
  | ascii => "ascii"
  | blank => "blank"
  | cntrl => "cntrl"
  | digit => "digit"
  | graph => "graph"
  | lower => "lower"
  | print => "print"
  | punct => "punct"
  | space => "space"
  | upper => "upper"
  | word => "word"
  | xdigit => "xdigit"

def ranges : AsciiSet → List (Nat × Nat)
  | alnum => [(0x30, 0x39), (0x41, 0x5A), (0x61, 0x7A)]
  | alpha => [(0x41, 0x5A), (0x61, 0x7A)]
  | ascii => [(0x00, 0x7F)]
  | blank => [(0x09, 0x09), (0x20, 0x20)]
  | cntrl => [(0x00, 0x1F), (0x7F, 0x7F)]
  | digit => [(0x30, 0x39)]
  | graph => [(0x21, 0x7E)]
  | lower => [(0x61, 0x7A)]
  | print => [(0x20, 0x7E)]
  | punct => [(0x21, 0x2F), (0x3A, 0x40), (0x5B, 0x60), (0x7B, 0x7E)]
  | space => [(0x09, 0x0D), (0x20, 0x20)]
  | upper => [(0x41, 0x5A)]
  | word => [(0x30, 0x39), (0x41, 0x5A), (0x5F, 0x5F), (0x61, 0x7A)]
  | xdigit => [(0x30, 0x39), (0x41, 0x46), (0x61, 0x66)]

end AsciiSet

/-- The operators between the two sides of a bracketed set. -/
inductive SetOperator where
  /-- In both sets. -/
  | both
  /-- In the first set only. -/
  | without
  /-- In exactly one of the sets. -/
  | either
  deriving DecidableEq

namespace SetOperator

def apply : SetOperator → Bool → Bool → Bool
  | .both, a, b => a && b
  | .without, a, b => a && !b
  | .either, a, b => a != b

end SetOperator

/-- A set as it is written. -/
inductive CharSet where
  | none
  | letter (c : Char)
  | range (first last : Char)
  | kind (k : Kind) (negated : Bool)
  | ascii (a : AsciiSet) (negated : Bool)
  /-- Every character but the newline. -/
  | dot
  /-- The first item of a list and the others. -/
  | union (s t : CharSet)
  | combined (o : SetOperator) (s t : CharSet)
  /-- A set between brackets of its own. -/
  | bracketed (negated : Bool) (s : CharSet)
  deriving DecidableEq

namespace CharSet

/-- A letter contains what has the same fold, a range what has a variant between its ends. -/
def contains : CharSet → Char → Bool
  | .none, _ => false
  | .letter d, c => Text.fold d == Text.fold c
  | .range first last, c =>
    (Text.variants c).any fun n => first.toNat ≤ n && n ≤ last.toNat
  | .kind k negated, c => k.contains c != negated
  | .ascii a negated, c => (Text.variants c).any (Text.within a.ranges) != negated
  | .dot, c => c != '\n'
  | .union s t, c => s.contains c || t.contains c
  | .combined o s t, c => o.apply (s.contains c) (t.contains c)
  | .bracketed negated s, c => s.contains c != negated

def ofItems : List CharSet → CharSet
  | [] => .none
  | [s] => s
  | s :: rest => .union s (ofItems rest)

def isUnion : CharSet → Bool
  | .union _ _ => true
  | _ => false

/-- How deeply brackets, operators and lists of items are nested. A list counts once, however long
it is. -/
def depth : CharSet → Nat
  | .union s t => max (s.depth + 1) (if t.isUnion then t.depth else t.depth + 1)
  | .combined _ s t => max s.depth t.depth + 1
  | .bracketed _ s => s.depth + 1
  | _ => 0

/-- How many letters, ranges and named sets are written. -/
def items : CharSet → Nat
  | .union s t => s.items + t.items
  | .combined _ s t => s.items + t.items
  | .bracketed _ s => s.items + 1
  | _ => 1

/-- The codes of the characters of the set as ascending ranges. -/
def ranges : CharSet → List (Nat × Nat)
  | .none => []
  | .letter c => Text.ascending ((Text.variants c).map fun n => (n, n))
  | .range first last =>
    Text.caseClosure (Text.complement (Text.complement [(first.toNat, last.toNat)]))
  | .kind k negated => if negated then Text.complement k.ranges else k.ranges
  | .ascii a negated =>
    let closure := Text.caseClosure a.ranges
    if negated then Text.complement closure else closure
  | .dot => Text.complement [(0xA, 0xA)]
  | .union s t => Text.ascending (s.ranges ++ t.ranges)
  | .combined o s t =>
    let a := s.ranges
    let b := t.ranges
    match o with
    | .both => Text.common a b
    | .without => Text.common a (Text.complement b)
    | .either =>
      Text.ascending (Text.common a (Text.complement b) ++ Text.common b (Text.complement a))
  | .bracketed negated s => if negated then Text.complement s.ranges else s.ranges

end CharSet

end LineCost.Pattern
