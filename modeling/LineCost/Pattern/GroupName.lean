import LineCost.Pattern.Symbol
import LineCost.Text.Letter

/-!
The names of groups. A group is named by `?<name>` or `?P<name>` behind its opening parenthesis.
-/

namespace LineCost.Pattern

/-- A letter or an underscore, then also digits, dots and square brackets. -/
def isGroupName : List Char → Bool
  | [] => false
  | c :: rest =>
    (c == '_' || Text.isAlphabetic c) &&
      rest.all fun c => c == '_' || c == '.' || c == '[' || c == ']' || Text.isAlphanumeric c

/-- What follows the opening of a named group up to its first angle bracket, if the symbols begin
with one. -/
def naming? : List Symbol → Option (List Symbol)
  | .plain '(' :: .plain '?' :: .plain '<' :: rest => some rest
  | .plain '(' :: .plain '?' :: .plain 'P' :: .plain '<' :: rest => some rest
  | _ => none

/-- The characters up to an angle bracket that closes, with what follows that. -/
def angled? : List Symbol → Option (List Char × List Symbol)
  | .plain c :: rest =>
    if c = '>' then some ([], rest)
    else do
      let (name, rest) ← angled? rest
      return (c :: name, rest)
  | _ => none

/-- The name of a group, with what follows it. -/
def groupName? (symbols : List Symbol) : Option (List Char × List Symbol) := do
  let (name, rest) ← angled? symbols
  if isGroupName name then return (name, rest) else none

end LineCost.Pattern
