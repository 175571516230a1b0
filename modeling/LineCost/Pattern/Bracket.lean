import LineCost.Pattern.GroupName

/-!
Bracketed sets. They hold letters, ranges, kinds, named sets of ASCII characters and other bracketed
sets, and the operators `&&`, `--` and `~~` between two sides. A set that has been read is one
symbol, and so is the opening of a group with a name, in which brackets stand for themselves.
-/

namespace LineCost.Pattern

/-- A bracketed set that is open: what stands before its last operator, if it has one, and the items
since then, last first. -/
structure OpenSet where
  negated : Bool
  before : Option (SetOperator × CharSet)
  items : List CharSet

namespace OpenSet

def add (s : OpenSet) (item : CharSet) : OpenSet := { s with items := item :: s.items }

/-- All that has been read of the set. Operators bind alike and from the left. -/
def content (s : OpenSet) : CharSet :=
  let items := CharSet.ofItems s.items.reverse
  match s.before with
  | none => items
  | some (o, before) => .combined o before items

/-- Begins the side after an operator. -/
def operate (s : OpenSet) (o : SetOperator) : OpenSet :=
  { s with before := some (o, s.content), items := [] }

def close (s : OpenSet) : CharSet := .bracketed s.negated s.content

/-- The hyphens at the front, each an item of its own. -/
def hyphens : List Symbol → List CharSet × List Symbol
  | .plain '-' :: rest =>
    let (items, rest) := hyphens rest
    (.letter '-' :: items, rest)
  | symbols => ([], symbols)

/-- Opens a set: a caret that negates it, hyphens, and a closing bracket if it comes first of all.
-/
def start (symbols : List Symbol) : OpenSet × List Symbol :=
  let (negated, symbols) := match symbols with
    | .plain '^' :: rest => (true, rest)
    | symbols => (false, symbols)
  match symbols with
  | .plain ']' :: rest => (⟨negated, none, [.letter ']']⟩, rest)
  | symbols =>
    let (items, rest) := hyphens symbols
    (⟨negated, none, items⟩, rest)

end OpenSet

/-- A named set of ASCII characters, as in `[:alpha:]` or `[:^alpha:]`. -/
def named? : List Symbol → Option (CharSet × List Symbol)
  | .plain '[' :: .plain ':' :: symbols =>
    let (negated, symbols) := match symbols with
      | .plain '^' :: rest => (true, rest)
      | symbols => (false, symbols)
    AsciiSet.all.findSome? fun a =>
      let written := (a.name.toList ++ [':', ']']).map Symbol.plain
      if written.isPrefixOf symbols then some (.ascii a negated, symbols.drop written.length)
      else none
  | _ => none

/-- The next item of a bracketed set: a range if a hyphen stands between two characters, unless what
follows the hyphen closes the set or makes an operator of it. -/
def item? : List Symbol → Option (CharSet × List Symbol)
  | first :: .plain '-' :: .plain ']' :: rest =>
    first.item?.map (·, .plain '-' :: .plain ']' :: rest)
  | first :: .plain '-' :: .plain '-' :: rest =>
    first.item?.map (·, .plain '-' :: .plain '-' :: rest)
  | first :: .plain '-' :: last :: rest => do
    let first ← first.char?
    let last ← last.char?
    if first ≤ last then return (.range first last, rest) else none
  | first :: rest => first.item?.map (·, rest)
  | [] => none

/-- The operator that two symbols make, with what follows it. -/
def operator? : List Symbol → Option (SetOperator × List Symbol)
  | .plain '&' :: .plain '&' :: rest => some (.both, rest)
  | .plain '-' :: .plain '-' :: rest => some (.without, rest)
  | .plain '~' :: .plain '~' :: rest => some (.either, rest)
  | _ => none

/-- Replaces every bracketed set by a symbol of its own, where `sets` are those that are open, the
innermost first, and every opening of a named group outside of them. Every step reads a symbol, so
that as many steps as there are symbols are enough. -/
def resolveWithin : (steps : Nat) → (sets : List OpenSet) → List Symbol → Option (List Symbol)
  | _, [], [] => some []
  | _, _ :: _, [] => none
  | 0, _, _ :: _ => none
  | n + 1, [], symbol :: rest =>
    match naming? (symbol :: rest), symbol with
    | some named, _ => do
      let (name, rest) ← groupName? named
      let symbols ← resolveWithin n [] rest
      return .opening name :: symbols
    | none, .plain '[' =>
      let (s, rest) := OpenSet.start rest
      resolveWithin n [s] rest
    | none, symbol => do
      let symbols ← resolveWithin n [] rest
      return symbol :: symbols
  | n + 1, s :: outer, symbol :: rest =>
    match operator? (symbol :: rest), named? (symbol :: rest), symbol with
    | some (o, rest), _, _ => resolveWithin n (s.operate o :: outer) rest
    | _, some (item, rest), _ => resolveWithin n (s.add item :: outer) rest
    | _, _, .plain '[' =>
      let (inner, rest) := OpenSet.start rest
      resolveWithin n (inner :: s :: outer) rest
    | _, _, .plain ']' =>
      match outer with
      | [] => do
        let symbols ← resolveWithin n [] rest
        return .set s.close :: symbols
      | around :: outer => resolveWithin n (around.add s.close :: outer) rest
    | _, _, _ => do
      let (item, rest) ← item? (symbol :: rest)
      resolveWithin n (s.add item :: outer) rest

def symbols? (text : List Char) : Option (List Symbol) := do
  let symbols ← Symbol.ofText? text
  resolveWithin symbols.length [] symbols

end LineCost.Pattern
