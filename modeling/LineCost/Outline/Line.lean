import LineCost.Source.Location
import LineCost.Tally

/-!
The lines of an outline. What a line is shows in its beginning, and the indentation is part of that:
none for functions, one space for what belongs to a function, two for what belongs to a block.
-/

namespace LineCost.Outline

/-- A line of an outline, read on its own. -/
inductive Line where
  | func (name : String)
  | decl (l : Location)
  | block (name : String)
  | size (n : Nat)
  | start (l : Location)
  | stop (l : Location)
  | tally (t : Tally)
  /-- A source line of a block, with a tally or without. -/
  | entry (line : Nat) (t : Option Tally)
  | blank
  | unknown
  deriving DecidableEq, Repr

namespace Line

/-- A payload that is not what the beginning of its line announces. -/
structure Malformed where
  payload : String
  deriving DecidableEq, Repr

/-- The value read from a payload, or the payload as the fault. -/
def orMalformed {α : Type} (payload : List Char) : Option α → Except Malformed α
  | some a => .ok a
  | none => .error ⟨String.ofList payload⟩

/-- A name is what remains between blanks, and may not be empty. -/
def readName (s : List Char) : Except Malformed String :=
  let name := Text.trim s
  if name.isEmpty then .error ⟨String.ofList s⟩ else .ok (String.ofList name)

def readLocation (s : List Char) : Except Malformed Location :=
  orMalformed s (Location.read? (Text.trimEnd s))

/-- A line of a block that begins with digits and a colon; anything else is unknown. -/
def readEntry (s : List Char) : Except Malformed Line :=
  match Text.cutFirst? ':' s with
  | none => .ok .unknown
  | some (number, rest) =>
    if number.isEmpty || !number.all Char.isDigit then .ok .unknown
    else do
      let n ← orMalformed number (Text.readDigits? Text.lineLimit number)
      let rest := Text.trim rest
      if rest.isEmpty then return .entry n none
      let t ← orMalformed rest (Tally.read? rest)
      return .entry n (some t)

/-- What follows the two spaces of a line that belongs to a block. -/
def readField (s : List Char) : Except Malformed Line :=
  if let some n := Text.after? "size: " s then
    .size <$> orMalformed n (Text.readNumber? Text.lineLimit (Text.trim n))
  else if let some l := Text.after? "from: " s then .start <$> readLocation l
  else if let some l := Text.after? "to: " s then .stop <$> readLocation l
  else if let some t := Text.after? "stat: " s then .tally <$> orMalformed t (Tally.read? t)
  else readEntry s

def withoutReturn (s : List Char) : List Char :=
  if s.getLast? = some '\r' then s.dropLast else s

def read (text : List Char) : Except Malformed Line :=
  let s := withoutReturn text
  if (Text.trim s).isEmpty then .ok .blank
  else if let some name := Text.after? "func: " s then .func <$> readName name
  else if let some l := Text.after? " at: " s then .decl <$> readLocation l
  else if let some name := Text.after? " block: " s then .block <$> readName name
  else if let some field := Text.after? "  " s then readField field
  else .ok .unknown

end Line

end LineCost.Outline
