import LineCost.Text.Lines

/-!
Paths as texts: pieces between slashes.
-/

namespace LineCost.Run.Path

/-- The pieces that name something: an empty piece or a single dot stays where it is. -/
def steps (path : String) : List String :=
  ((Text.pieces '/' path.toList).map String.ofList).filter fun p => p != "" && p != "."

def isAbsolute (path : String) : Bool := path.toList.head? == some '/'

/-- The last piece, unless there is none or it leads upward. -/
def fileName? (path : String) : Option String :=
  (steps path).getLast?.filter (· != "..")

/-- A path inside a directory. An absolute path stays as it is. -/
def join (dir path : String) : String :=
  if isAbsolute path then path
  else if dir.isEmpty || dir.toList.getLast? == some '/' then dir ++ path
  else dir ++ "/" ++ path

/-- The path of another name in the same directory. -/
def beside (path name : String) : String :=
  String.ofList (path.toList.reverse.dropWhile (· != '/')).reverse ++ name

end LineCost.Run.Path
