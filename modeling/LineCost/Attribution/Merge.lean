import LineCost.Attribution.ByBlock
import LineCost.Attribution.ByLine
import LineCost.Attribution.Skip

/-!
The attribution of assembly costs to a whole outline. Functions are paired by name and line of
declaration, a pair that no two assembly functions may share.
-/

namespace LineCost.Attribution

/-- Two assembly functions of one name are declared on one line. -/
structure DuplicateFunction where
  name : String
  line : Nat
  deriving DecidableEq, Repr

def DuplicateFunction.message (d : DuplicateFunction) : String :=
  "assembly defines function `" ++ d.name ++ "` at line " ++ d.line.repr ++ " more than once"

/-- What an assembly function is found by. -/
def key (f : Listing.Func) : String × Nat := (f.name, f.decl.line)

def duplicate? (seen : List (String × Nat)) : List Listing.Func → Option DuplicateFunction
  | [] => none
  | f :: rest =>
    if key f ∈ seen then some ⟨f.name, f.decl.line⟩ else duplicate? (key f :: seen) rest

/-- Marks the blocks that are left out, and no others. -/
def markSkipped (skips : List String) (f : Outline.Func) : Outline.Func :=
  { f with blocks := f.blocks.map fun b => { b with skip := leavesOut skips b.name } }

/-- Gives the blocks of a function the costs of its assembly, in the way of its layout. -/
def mergeFunc (f : Outline.Func) (asm : Listing.Func) : Outline.Func × Report :=
  let served := match f.layout with
    | .block => f.blocks.map (mergeBlock asm.blocks)
    | .line => mergeLines asm f.blocks
  ({ f with blocks := served.map Prod.fst }, .ofMatched (served.map Prod.snd))

def mergeOne (skips : List String) (asm : List Listing.Func) (f : Outline.Func) :
    Outline.Func × Report :=
  let f := markSkipped skips f
  match asm.find? fun a => key a == (f.name, f.decl.line) with
  | some a => mergeFunc f a
  | none => (f, .ofUnmatched (f.blocks.countP (·.skip)))

/-- Attributes the costs of the assembly functions to the functions of an outline. -/
def merge (skips : List String) (asm : List Listing.Func) (fs : List Outline.Func) :
    Except DuplicateFunction (List Outline.Func × Report) :=
  match duplicate? [] asm with
  | some d => .error d
  | none =>
    let served := fs.map (mergeOne skips asm)
    .ok (served.map Prod.fst, Report.sum (served.map Prod.snd))

def checkedServe (f : Outline.Func) (asm : Listing.Func) :
    Except Overflow (List (Outline.Block × Outcome)) :=
  match f.layout with
  | .block => f.blocks.mapM (checkedMergeBlock asm.blocks)
  | .line => checkedMergeLines asm f.blocks

def checkedMergeFunc (f : Outline.Func) (asm : Listing.Func) :
    Except Overflow (Outline.Func × Report) := do
  let served ← checkedServe f asm
  return ({ f with blocks := served.map Prod.fst }, .ofMatched (served.map Prod.snd))

def checkedMergeOne (skips : List String) (asm : List Listing.Func) (f : Outline.Func) :
    Except Overflow (Outline.Func × Report) :=
  let f := markSkipped skips f
  match asm.find? fun a => key a == (f.name, f.decl.line) with
  | some a => checkedMergeFunc f a
  | none => .ok (f, .ofUnmatched (f.blocks.countP (·.skip)))

/-- Attributes the costs of the assembly functions to the functions of an outline, checking every
addition. -/
def checkedMerge (skips : List String) (asm : List Listing.Func) (fs : List Outline.Func) :
    Except Overflow (Except DuplicateFunction (List Outline.Func × Report)) :=
  match duplicate? [] asm with
  | some d => .ok (.error d)
  | none => do
    let served ← fs.mapM (checkedMergeOne skips asm)
    return .ok (served.map Prod.fst, Report.sum (served.map Prod.snd))

end LineCost.Attribution
