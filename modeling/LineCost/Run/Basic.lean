import LineCost.Attribution.Merge
import LineCost.Listing.Pass
import LineCost.Metrics
import LineCost.Outline.Reader
import LineCost.Outline.Writer
import LineCost.Run.Files
import LineCost.Run.Options

/-!
A run over one module: load the outline, parse the listing, merge the two, save the result. The
first stage that fails ends the run.
-/

namespace LineCost.Run

inductive Stage where
  | load
  | parse
  | merge
  | save
  deriving DecidableEq, Repr

namespace Stage

def all : List Stage := [.load, .parse, .merge, .save]

def name : Stage → String
  | load => "load"
  | parse => "parse"
  | merge => "merge"
  | save => "save"

def exitCode : Stage → Nat
  | load => 1
  | parse => 2
  | merge => 3
  | save => 4

end Stage

inductive RunError where
  | outlineUnreadable (path : String) (fault : ReadFault)
  | outline (e : Outline.ReadError)
  | listingUnreadable (path : String) (fault : ReadFault)
  | listing (e : Listing.ReadError)
  | duplicate (d : Attribution.DuplicateFunction)
  | unwritable (path : String)
  deriving DecidableEq, Repr

namespace RunError

def stage : RunError → Stage
  | outlineUnreadable _ _ => .load
  | outline _ => .load
  | listingUnreadable _ _ => .parse
  | listing _ => .parse
  | duplicate _ => .merge
  | unwritable _ => .save

def message : RunError → String
  | outlineUnreadable path f => "bbinfo error: failed to read " ++ path ++ ": " ++ f.message
  | outline e => "bbinfo error: " ++ e.message
  | listingUnreadable path f => "assembly error: failed to read " ++ path ++ ": " ++ f.message
  | listing e => "assembly error: " ++ e.message
  | duplicate d => "merge error: " ++ d.message
  | unwritable path => "output error: failed to write " ++ path

end RunError

structure Summary where
  paths : Paths
  report : Attribution.Report
  functions : List Outline.Func
  /-- The tally of all blocks that are not skipped. -/
  total : Tally
  deriving DecidableEq

/-- All stages but the last, given the two texts or why they cannot be read. -/
def prepare (catalog : Catalog) (o : Options) (paths : Paths)
    (outline listing : Except ReadFault String) : Except RunError Summary := do
  let outline ← outline.mapError (.outlineUnreadable paths.outline)
  let functions ← (Outline.read outline).mapError .outline
  let listing ← listing.mapError (.listingUnreadable paths.listing)
  let asm ← (Listing.read catalog o.cpu listing).mapError .listing
  let (functions, report) ← (Attribution.merge o.skips asm functions).mapError .duplicate
  return ⟨paths, report, functions, Outline.total functions⟩

/-- The same stages with every addition checked, that of the totals included. -/
def checkedPrepare (catalog : Catalog) (o : Options) (paths : Paths)
    (outline listing : Except ReadFault String) : Except Overflow (Except RunError Summary) := do
  match outline with
  | .error fault => return .error (.outlineUnreadable paths.outline fault)
  | .ok outline =>
    match ← Outline.checkedRead outline with
    | .error e => return .error (.outline e)
    | .ok functions =>
      match listing with
      | .error fault => return .error (.listingUnreadable paths.listing fault)
      | .ok listing =>
        match ← Listing.checkedRead catalog o.cpu listing with
        | .error e => return .error (.listing e)
        | .ok asm =>
          match ← Attribution.checkedMerge o.skips asm functions with
          | .error d => return .error (.duplicate d)
          | .ok (functions, report) =>
            let total ← Outline.checkedTotal functions
            return .ok ⟨paths, report, functions, total⟩

structure Outcome where
  result : Except RunError Summary
  files : Files
  metrics : Metrics

/-- A run over a module in a tree of files. The counters are added to once the first three stages
are done, before the result is saved. -/
def run (catalog : Catalog) (o : Options) (module : String) (fs : Files) (m : Metrics) : Outcome :=
  let paths := Paths.ofModule module o
  match prepare catalog o paths (fs.readText paths.outline) (fs.readText paths.listing) with
  | .error e => ⟨.error e, fs, m⟩
  | .ok s =>
    let m := m.addRun module s.report s.total
    match fs.replace? paths.output (Outline.write s.functions) with
    | none => ⟨.error (.unwritable paths.output), fs, m⟩
    | some fs => ⟨.ok s, fs, m⟩

/-- A run with every addition checked. If a sum is too large for a counter, nothing is saved. -/
def checkedRun (catalog : Catalog) (o : Options) (module : String) (fs : Files) (m : Metrics) :
    Except Overflow Outcome := do
  let paths := Paths.ofModule module o
  match ← checkedPrepare catalog o paths (fs.readText paths.outline) (fs.readText paths.listing) with
  | .error e => return ⟨.error e, fs, m⟩
  | .ok s =>
    let m ← m.checkedAddRun module s.report s.total
    match fs.replace? paths.output (Outline.write s.functions) with
    | none => return ⟨.error (.unwritable paths.output), fs, m⟩
    | some fs => return ⟨.ok s, fs, m⟩

end LineCost.Run
