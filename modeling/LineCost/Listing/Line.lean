import LineCost.Text.Digit
import LineCost.Text.Lines
import LineCost.Text.Number
import LineCost.Text.Word

/-!
The lines of an assembly listing that matter here: the choice of a CPU, the marks around a function,
source locations, block labels and instructions. Comments begin with `#`, `@` or `//`, depending on
the target.

A line is tried as each kind in turn. The first kind whose form fits decides, even if a number in it
turns out too large; the line then counts for nothing.
-/

namespace LineCost.Listing

/-- A line of a listing, read on its own. -/
inductive Line where
  | cpu (name : String)
  | opening (name : String)
  | closing
  | loc (file : String) (line : Nat)
  | label (id : Nat) (name : Option String)
  | instruction (mnemonic : String)
  | other
  deriving DecidableEq, Repr

namespace Line

def afterBlanks? (s : List Char) : Option (List Char) :=
  match s with
  | [] => none
  | c :: rest => if Text.isBlank c then some (Text.trimStart rest) else none

/-- What follows the sign that begins a comment. -/
def afterLeader? (s : List Char) : Option (List Char) :=
  match s with
  | '#' :: rest => some rest
  | '@' :: rest => some rest
  | '/' :: '/' :: rest => some rest
  | _ => none

/-- A row of at least one digit, as long as possible, and what follows it. -/
def digits? (s : List Char) : Option (List Char × List Char) :=
  let digits := s.takeWhile Text.isDigit
  if digits.isEmpty then none else some (digits, s.dropWhile Text.isDigit)

/-- What follows the first place where `next?` finds something. -/
def findFrom? {α : Type} (next? : List Char → Option α) : List Char → Option α
  | [] => next? []
  | c :: rest => (next? (c :: rest)).orElse fun _ => findFrom? next? rest

/-- The name in a `.cpu` directive, without a quote at its front. It ends at the next quote or
blank. -/
def cpu? (s : List Char) : Option String := do
  let s ← afterBlanks? s
  let s ← Text.after? ".cpu" s
  let s ← afterBlanks? s
  let s := match s with
    | '"' :: rest => rest
    | s => s
  let name := s.takeWhile fun c => c != '"' && !Text.isBlank c
  if name.isEmpty then none else some (String.ofList name)

/-- The name after the first comment that marks the beginning of a function. -/
def opening? (s : List Char) : Option String :=
  findFrom? here? s
where
  here? (s : List Char) : Option String := do
    let s ← afterLeader? s
    let s ← Text.after? " -- Begin function " s
    let name := s.takeWhile (!Text.isBlank ·)
    if name.isEmpty then none else some (String.ofList name)

/-- Whether a comment marks the end of a function. -/
def isClosing (s : List Char) : Bool :=
  (findFrom? (fun s => afterLeader? s >>= Text.after? " -- End function") s).isSome

/-- A colon, digits and perhaps a second colon with digits, and nothing but blanks after them; the
first digits are the answer. -/
def row? (s : List Char) : Option (List Char) :=
  match s with
  | ':' :: s => do
    let (row, rest) ← digits? s
    let rest := match rest with
      | ':' :: t => match digits? t with
        | some (_, rest) => rest
        | none => rest
      | rest => rest
    if rest.all Text.isBlank then some row else none
  | _ => none

/-- Splits a place written in a comment into the file and the digits of the line. The file is as
short as it can be, but not empty, and all on one line. -/
def place? : List Char → Option (List Char × List Char)
  | [] => none
  | c :: rest =>
    if c = '\n' then none
    else match row? rest with
      | some row => some ([c], row)
      | none => (place? rest).map fun p => (c :: p.1, p.2)

/-- The place in the first comment, set off by a blank, that holds one. -/
def comment? : List Char → Option (List Char × List Char)
  | [] => none
  | c :: rest =>
    let here := if Text.isBlank c then do
        let s ← afterLeader? rest
        let s ← Text.after? " " s
        place? s
      else none
    match here with
    | some p => some p
    | none => if c = '\n' then none else comment? rest

/-- The place in the comment of a `.loc` directive with three numbers: the file, and the digits of
the line. -/
def loc? (s : List Char) : Option (List Char × List Char) := do
  let s ← afterBlanks? s
  let s ← Text.after? ".loc" s
  let s ← afterBlanks? s
  let (_, s) ← digits? s
  let s ← afterBlanks? s
  let (_, s) ← digits? s
  let s ← afterBlanks? s
  let (_, s) ← digits? s
  comment? s

/-- The block name in what follows a label: nothing at all, or a comment with a percent sign and a
name. -/
def labelName? (s : List Char) : Option (Option String) :=
  let s := Text.trimStart s
  if s.isEmpty then some none
  else do
    let s ← afterLeader? s
    let s ← Text.after? " %" s
    match s with
    | [] => none
    | c :: rest =>
      let name := c :: Text.trimEnd rest
      if name.contains '\n' then none else some (some (String.ofList name))

/-- The digits of a label and its name, after the colon. -/
def labelEnd? (s : List Char) : Option (List Char × Option String) := do
  let (id, s) ← digits? s
  let s ← Text.after? ":" s
  let name ← labelName? s
  return (id, name)

/-- A label of a block that only a comment names, or of one that is jumped to: its digits and its
name. -/
def label? (s : List Char) : Option (List Char × Option String) :=
  (inComment? s).orElse fun _ => jumpedTo? s
where
  inComment? (s : List Char) : Option (List Char × Option String) := do
    let s ← afterLeader? (Text.trimStart s)
    let s ← Text.after? " %bb." s
    labelEnd? s
  jumpedTo? (s : List Char) : Option (List Char × Option String) := do
    let s ← Text.after? ".LBB" s
    let (_, s) ← digits? s
    let s ← Text.after? "_" s
    labelEnd? s

/-- A mnemonic: a letter or underscore, then word characters and full stops up to a blank or the
end. -/
def instruction? (s : List Char) : Option String := do
  match ← afterBlanks? s with
  | [] => none
  | c :: rest =>
    if c.isAlpha || c = '_' then
      let more := rest.takeWhile fun c => Text.isWordChar c || c = '.'
      match rest.drop more.length with
      | [] => some (String.ofList (c :: more))
      | d :: _ => if Text.isBlank d then some (String.ofList (c :: more)) else none
    else none

def number? (digits : List Char) : Option Nat := Text.readDigits? Text.lineLimit digits

def read (s : List Char) : Line :=
  if let some name := cpu? s then .cpu name
  else if let some name := opening? s then .opening name
  else if isClosing s then .closing
  else if let some (file, row) := loc? s then
    match number? row with
    | some n => .loc (String.ofList file) n
    | none => .other
  else if let some (id, name) := label? s then
    match number? id with
    | some n => .label n name
    | none => .other
  else if let some mnemonic := instruction? s then .instruction mnemonic
  else .other

end Line

end LineCost.Listing
