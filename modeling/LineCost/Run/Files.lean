import LineCost.Run.Path

/-!
A tree of directories and plain files, seen from a working directory. There are no links in it, so
each file has one place only.
-/

namespace LineCost.Run

/-- Where something is: the names on the way to it from the top of the tree. -/
abbrev Place := List String

inductive Entry where
  | directory
  | file (content : ByteArray)

instance : DecidableEq Entry
  | .directory, .directory => isTrue rfl
  | .directory, .file _ => isFalse nofun
  | .file _, .directory => isFalse nofun
  | .file a, .file b =>
    match ByteArray.instDecidableEq a b with
    | isTrue h => isTrue (congrArg Entry.file h)
    | isFalse h => isFalse fun e => h (Entry.file.inj e)

/-- The entries of a tree below its top, each at its place, and the working directory. All entries
are directories or plain files: no entry stands for another, as a link does. -/
structure Files where
  working : Place
  entries : List (Place × Entry)
  deriving DecidableEq

inductive ReadFault where
  | missing
  | isDirectory
  | notDirectory
  | nameTooLong
  /-- The path has a zero byte in it. -/
  | zeroByte
  | notText
  /-- Anything else that a system may report. -/
  | other (report : String)
  deriving DecidableEq, Repr

namespace ReadFault

def message : ReadFault → String
  | missing => "No such file or directory (os error 2)"
  | isDirectory => "Is a directory (os error 21)"
  | notDirectory => "Not a directory (os error 20)"
  | nameTooLong => "File name too long (os error 36)"
  | zeroByte => "file name contained an unexpected NUL byte"
  | notText => "stream did not contain valid UTF-8"
  | other report => report

end ReadFault

def nameLimit : Nat := 255

def pathLimit : Nat := 4095

namespace Files

/-- What is at a place; the top of the tree is a directory. -/
def lookup? (fs : Files) (p : Place) : Option Entry :=
  if p.isEmpty then some .directory else fs.entries.lookup p

/-- The place that is reached from a directory by going step by step. Every place on the way must be
a directory, and no directory has anything with too long a name; at the top, upward leads
nowhere. -/
def walk (fs : Files) (here : Place) : List String → Except ReadFault Place
  | [] => .ok here
  | step :: rest =>
    match fs.lookup? here with
    | none => .error .missing
    | some (.file _) => .error .notDirectory
    | some .directory =>
      if step = ".." then fs.walk here.dropLast rest
      else if step.utf8ByteSize ≤ nameLimit then fs.walk (here ++ [step]) rest
      else .error .nameTooLong

/-- The place that the steps of a path lead to, from the top or from the working directory. -/
def follow (fs : Files) (path : String) (steps : List String) : Except ReadFault Place :=
  if path.toList.contains '\x00' then .error .zeroByte
  else if pathLimit < path.utf8ByteSize then .error .nameTooLong
  else fs.walk (if Path.isAbsolute path then [] else fs.working) steps

/-- Whether a path asks for a directory by its form: it is empty, or ends with a slash or a dot
piece. -/
def asksDirectory (path : String) : Bool :=
  match (Text.pieces '/' path.toList).getLast? with
  | none => true
  | some p => p == [] || p == ['.']

def find (fs : Files) (path : String) : Except ReadFault (Place × Entry) :=
  if path.isEmpty then .error .missing
  else do
    let p ← fs.follow path (Path.steps path)
    match fs.lookup? p with
    | none => .error .missing
    | some (.file c) => if asksDirectory path then .error .notDirectory else .ok (p, .file c)
    | some .directory => .ok (p, .directory)

def readBytes (fs : Files) (path : String) : Except ReadFault ByteArray := do
  match ← fs.find path with
  | (_, .file content) => return content
  | (_, .directory) => throw .isDirectory

def readText (fs : Files) (path : String) : Except ReadFault String := do
  match String.fromUTF8? (← fs.readBytes path) with
  | some s => return s
  | none => throw .notText

/-- Sets the entry of a place in a list; the order of the others stays. -/
def setList (p : Place) (e : Entry) : List (Place × Entry) → List (Place × Entry)
  | [] => [(p, e)]
  | (q, f) :: rest => if q = p then (p, e) :: rest else (q, f) :: setList p e rest

theorem lookup_setList (p q : Place) (e : Entry) (l : List (Place × Entry)) :
    (setList p e l).lookup q = if q = p then some e else l.lookup q := by
  induction l with
  | nil => by_cases h : q = p <;> simp [setList, h]
  | cons a rest ih =>
    obtain ⟨k, f⟩ := a
    rw [setList]
    split
    · rename_i hk
      subst hk
      by_cases h : q = k
      · simp [h]
      · simp [List.lookup_cons, beq_eq_false_iff_ne.2 h, h]
    · rename_i hk
      rw [List.lookup_cons, ih, List.lookup_cons]
      by_cases h : q = k
      · subst h
        simp [hk]
      · simp [beq_eq_false_iff_ne.2 h]

def set (fs : Files) (p : Place) (e : Entry) : Files :=
  { fs with entries := setList p e fs.entries }

/-- Setting one place leaves the others as they are. -/
theorem lookup?_set (fs : Files) (p q : Place) (e : Entry) (hp : p ≠ []) :
    (fs.set p e).lookup? q = if q = p then some e else fs.lookup? q := by
  by_cases hq : q = []
  · subst hq
    simp [lookup?, Ne.symm hp]
  · simp [lookup?, hq, set, lookup_setList]

/-- The place for a new file: in a directory that exists, and not where a directory is. -/
def target? (fs : Files) (path : String) : Option Place := do
  let steps := Path.steps path
  let name ← steps.getLast?
  let parent ← (fs.follow path steps.dropLast).toOption
  let p := parent ++ [name]
  if name = ".." || nameLimit < name.utf8ByteSize || asksDirectory path then none
  else match fs.lookup? parent, fs.lookup? p with
    | some .directory, some .directory => none
    | some .directory, _ => some p
    | _, _ => none

/-- Puts a file in place of whatever file the path leads to, in one step. -/
def replace? (fs : Files) (path : String) (content : String) : Option Files := do
  let p ← fs.target? path
  return fs.set p (.file content.toUTF8)

end Files

end LineCost.Run
