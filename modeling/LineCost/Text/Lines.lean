/-!
The lines of a text, and the pieces between separators.
-/

namespace LineCost.Text

def pushFirst (c : Char) : List (List Char) → List (List Char)
  | [] => [[c]]
  | l :: rest => (c :: l) :: rest

/-- The lines of a text without their ends. A line ends with a newline or with a carriage return
and a newline; what follows the last newline is a line unless it is empty. -/
def lines : List Char → List (List Char)
  | [] => []
  | '\n' :: rest => [] :: lines rest
  | '\r' :: '\n' :: rest => [] :: lines rest
  | c :: rest => pushFirst c (lines rest)

/-- Each line with its number, counted from one. -/
def numbered {α : Type} (ls : List α) : List (Nat × α) := (ls.zipIdx 1).map fun p => (p.2, p.1)

/-- The pieces between the separators: one more than there are separators. -/
def pieces (separator : Char) : List Char → List (List Char)
  | [] => [[]]
  | c :: rest =>
    if c = separator then [] :: pieces separator rest else pushFirst c (pieces separator rest)

/-- What stands before the first separator and what after it. -/
def cutFirst? (separator : Char) : List Char → Option (List Char × List Char)
  | [] => none
  | c :: rest =>
    if c = separator then some ([], rest)
    else (cutFirst? separator rest).map fun p => (c :: p.1, p.2)

/-- What stands before the last separator and what after it. -/
def cutLast? (separator : Char) : List Char → Option (List Char × List Char)
  | [] => none
  | c :: rest =>
    match cutLast? separator rest with
    | some p => some (c :: p.1, p.2)
    | none => if c = separator then some ([], rest) else none

/-- What follows a fixed beginning. -/
def after? (beginning : String) (s : List Char) : Option (List Char) :=
  if beginning.toList.isPrefixOf s then some (s.drop beginning.length) else none

end LineCost.Text
