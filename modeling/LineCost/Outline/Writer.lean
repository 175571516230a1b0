import LineCost.Outline.Basic

/-!
Writing an outline with its tallies. Skipped blocks are left out, and so are tallies without cycles.
-/

namespace LineCost.Outline

namespace Block

/-- The lines that carry cycles, each with its tally. -/
def lineTexts (b : Block) : List String :=
  (b.lines.entries.filter (!·.2.isEmpty)).map fun e => "  " ++ e.1.repr ++ ": " ++ e.2.text

def spanTexts (b : Block) : List String :=
  match b.span with
  | none => []
  | some s =>
    ["  size: " ++ s.size.repr, "  from: " ++ s.start.text, "  to: " ++ s.stop.text] ++
      if b.tally.isEmpty then [] else ["  stat: " ++ b.tally.text]

def texts (b : Block) (layout : Layout) : List String :=
  (" block: " ++ b.name) :: match layout with
    | .line => b.lineTexts
    | .block => b.spanTexts

end Block

def Func.texts (f : Func) : List String :=
  ("func: " ++ f.name) :: (" at: " ++ f.decl.text) :: f.kept.flatMap (·.texts f.layout)

/-- The text of an outline: every line with a newline at its end. -/
def write (fs : List Func) : String :=
  String.join ((fs.flatMap Func.texts).map (· ++ "\n"))

end LineCost.Outline
