import LineCost.Listing.Line

/-!
The sections of a listing: the lines between the marks of each function.
-/

namespace LineCost.Listing

/-- Why a listing cannot be divided into functions. Lines are counted from one. -/
inductive ReadError where
  | unterminated (name : String)
  | nested (line : Nat) (name : String)
  deriving DecidableEq, Repr

namespace ReadError

def message : ReadError → String
  | unterminated name => "function `" ++ name ++ "` has no end marker"
  | nested n name =>
    "line " ++ n.repr ++ ": function `" ++ name ++ "` begins inside another function"

end ReadError

/-- The name of a function and its lines, without the two marks. -/
structure Section where
  name : String
  lines : List Line
  deriving DecidableEq

/-- Divides numbered lines into sections. `open?` is the section that the first of them belongs to,
with its lines so far, last first. A closing mark outside a function means nothing. -/
def sectionsFrom (open? : Option Section) : List (Nat × Line) → Except ReadError (List Section)
  | [] =>
    match open? with
    | none => .ok []
    | some s => .error (.unterminated s.name)
  | (n, line) :: rest =>
    match open?, line with
    | none, .opening name => sectionsFrom (some ⟨name, []⟩) rest
    | none, _ => sectionsFrom none rest
    | some _, .opening name => .error (.nested n name)
    | some s, .closing =>
      (sectionsFrom none rest).map (⟨s.name, s.lines.reverse⟩ :: ·)
    | some s, line => sectionsFrom (some ⟨s.name, line :: s.lines⟩) rest

def sections (lines : List Line) : Except ReadError (List Section) :=
  sectionsFrom none (Text.numbered lines)

/-- The CPU that a listing chooses: the first one named, if that comes before any function. -/
def chosenCpu? : List Line → Option String
  | [] => none
  | .cpu name :: _ => some name
  | .opening _ :: _ => none
  | _ :: rest => chosenCpu? rest

end LineCost.Listing
