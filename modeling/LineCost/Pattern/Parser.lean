import LineCost.Pattern.Basic
import LineCost.Pattern.Bracket
import LineCost.Text.Lines
import LineCost.Text.Number

/-!
Reading a pattern. The language has literals, `.`, escapes, `|`, groups with or without a name,
bracketed sets, the kinds digit, word and blank, the anchors `^`, `$`, `\A` and `\z`, and the
repetitions `?`, `*`, `+` and counts in braces. A `?` after a repetition makes it lazy. Word
boundaries, sets by a property of characters and flags are not known.

The symbols of the text are read one at a time over the stack of the groups that are open.
-/

namespace LineCost.Pattern

/-- The number between braces and how much more than that is allowed: one number, a number and a
comma, or two numbers that ascend. Blanks may stand around a number. -/
def bounds? (body : List Char) : Option (Nat × Option Nat) :=
  let number? s := Text.readDigits? Text.lineLimit (Text.trim s)
  match Text.pieces ',' body with
  | [n] => do
    let n ← number? n
    return (n, some 0)
  | [n, []] => do
    let n ← number? n
    return (n, none)
  | [n, m] => do
    let n ← number? n
    let m ← number? m
    if n ≤ m then return (n, some (m - n)) else none
  | _ => none

/-- A group that is open: its number if it captures, its finished branches and the parts of the
current one, last first. -/
structure Group where
  number : Option Nat
  branches : List Pattern
  parts : List Pattern

namespace Group

def new (number : Option Nat) : Group := ⟨number, [], []⟩

def push (g : Group) (p : Pattern) : Group := { g with parts := p :: g.parts }

def split (g : Group) : Group :=
  { g with branches := .ofParts g.parts.reverse :: g.branches, parts := [] }

def content (g : Group) : Pattern := .ofBranches g.split.branches.reverse

/-- Repeats the last part; there must be one in the current branch. -/
def repeatLast? (g : Group) (least : Nat) (extra : Option Nat) : Option Group :=
  match g.parts with
  | [] => none
  | p :: before => some { g with parts := .repeated p least extra false :: before }

/-- Makes the repetition that has just been read lazy. -/
def relax (g : Group) : Group :=
  match g.parts with
  | .repeated p least extra _ :: before =>
    { g with parts := .repeated p least extra true :: before }
  | _ => g

end Group

/-- What the reader is in the middle of. -/
inductive Mode where
  | ready
  /-- A repetition has just been read, and may be followed by the mark that makes it lazy. -/
  | repeated
  /-- After an opening parenthesis. -/
  | opened
  /-- After an opening parenthesis and a question mark. -/
  | flagged
  /-- Between braces, with the characters so far, last first. -/
  | braces (body : List Char)

/-- The group being read, those around it, how many groups capture, the names of groups, and the
mode. -/
structure Reader where
  group : Group
  outer : List Group
  captures : Nat
  names : List (List Char)
  mode : Mode

namespace Reader

def start : Reader := ⟨.new none, [], 0, [], .ready⟩

def push (r : Reader) (p : Pattern) : Reader := { r with group := r.group.push p, mode := .ready }

def enter (r : Reader) : Reader :=
  ⟨.new (some (r.captures + 1)), r.group :: r.outer, r.captures + 1, r.names, .ready⟩

/-- Opens a group with a name, which no other group has. -/
def enterNamed? (r : Reader) (name : List Char) : Option Reader :=
  if name ∈ r.names then none else some { r.enter with names := name :: r.names }

def enterPlain (r : Reader) : Reader :=
  ⟨.new none, r.group :: r.outer, r.captures, r.names, .ready⟩

/-- Closes the current group, which becomes a part of the one around it. -/
def leave? (r : Reader) : Option Reader :=
  match r.outer with
  | [] => none
  | g :: outer =>
    some ⟨g.push (.group r.group.number r.group.content), outer, r.captures, r.names, .ready⟩

def repeatLast? (r : Reader) (least : Nat) (extra : Option Nat) : Option Reader := do
  let g ← r.group.repeatLast? least extra
  return { r with group := g, mode := .repeated }

/-- Reads a symbol where a new part may begin. -/
def part? (r : Reader) : Symbol → Option Reader
  | .quoted c => some (r.push (.one (.letter c)))
  | .set s => some (r.push (.one s))
  | .textStart => some (r.push .textStart)
  | .textEnd => some (r.push .textEnd)
  | .opening name => r.enterNamed? name
  | .plain c =>
    match c with
    | '(' => some { r with mode := .opened }
    | ')' => r.leave?
    | '|' => some { r with group := r.group.split, mode := .ready }
    | '\x7b' => if r.group.parts.isEmpty then none else some { r with mode := .braces [] }
    | '?' => r.repeatLast? 0 (some 1)
    | '*' => r.repeatLast? 0 none
    | '+' => r.repeatLast? 1 none
    | '.' => some (r.push (.one .dot))
    | '^' => some (r.push .textStart)
    | '$' => some (r.push .textEnd)
    | c => some (r.push (.one (.letter c)))

/-- Reads one symbol. Of the groups with a question mark but no name only the plain `(?:` is known.
-/
def step? (r : Reader) (s : Symbol) : Option Reader :=
  match r.mode with
  | .ready => r.part? s
  | .repeated =>
    if s = .plain '?' then some { r with group := r.group.relax, mode := .ready } else r.part? s
  | .opened => if s = .plain '?' then some { r with mode := .flagged } else r.enter.part? s
  | .flagged => if s = .plain ':' then some r.enterPlain else none
  | .braces body =>
    match s with
    | .plain '\x7d' => do
      let (least, extra) ← bounds? body.reverse
      r.repeatLast? least extra
    | .plain c => some { r with mode := .braces (c :: body) }
    | _ => none

/-- The pattern, if every group and repetition is closed. -/
def finish? (r : Reader) : Option Pattern :=
  match r.outer, r.mode with
  | [], .ready => some r.group.content
  | [], .repeated => some r.group.content
  | _, _ => none

end Reader

/-- The pattern that a text describes, however large it is. -/
def parse? (text : List Char) : Option Pattern := do
  let symbols ← symbols? text
  let r ← symbols.foldlM Reader.step? Reader.start
  r.finish?

end LineCost.Pattern
