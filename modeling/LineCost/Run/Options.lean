import LineCost.Attribution.Skip
import LineCost.Run.Path

/-!
The options of a run, and the names of its files.
-/

namespace LineCost.Run

def outlineSuffix : String := ".bbinfo.txt"

def outputSuffix : String := ".inststat.txt"

/-- What the name of a listing ends with unless an option says otherwise. -/
def defaultListingSuffix : String := ".s"

structure Options where
  listingSuffix : String
  /-- The CPU to count for, whatever the listing chooses. -/
  cpu : Option String
  /-- How the names of blocks begin that are left out. -/
  skips : List String
  /-- The directory for the output, which otherwise goes beside the inputs. -/
  outputDir : Option String
  deriving DecidableEq, Repr

namespace Options

def default : Options := ⟨defaultListingSuffix, none, Attribution.defaultSkips, none⟩

def addSkips (o : Options) (more : List String) : Options := { o with skips := o.skips ++ more }

end Options

structure Paths where
  outline : String
  listing : String
  output : String
  deriving DecidableEq, Repr

namespace Paths

/-- The inputs are named by the module and a suffix. In an output directory only the last piece of
the module names the output, if it has one. -/
def ofModule (module : String) (o : Options) : Paths where
  outline := module ++ outlineSuffix
  listing := module ++ o.listingSuffix
  output :=
    match o.outputDir, Path.fileName? module with
    | some dir, some name => Path.join dir (name ++ outputSuffix)
    | _, _ => module ++ outputSuffix

end Paths

end LineCost.Run
