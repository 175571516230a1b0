import LineCost.Text.Lines
import LineCost.Text.Number

/-!
Places in source files: `file:line`.
-/

namespace LineCost

/-- A line of a source file. Line 0 stands for no line at all. -/
structure Location where
  file : String
  line : Nat
  deriving DecidableEq, Repr

namespace Location

def isValid (l : Location) : Bool := 0 < l.line

def text (l : Location) : String := l.file ++ ":" ++ l.line.repr

/-- Reads a location. The last colon divides it, so a file name may hold colons. -/
def read? (s : List Char) : Option Location := do
  let (file, line) ← Text.cutLast? ':' s
  let line ← Text.readNumber? Text.lineLimit (Text.trim line)
  return ⟨String.ofList file, line⟩

end Location

end LineCost
