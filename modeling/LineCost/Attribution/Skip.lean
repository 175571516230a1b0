/-!
Which blocks are left out: those whose names begin in one of given ways.
-/

namespace LineCost.Attribution

/-- How the names of exception-handling and cleanup blocks begin. -/
def defaultSkips : List String := ["lpad", "ehcleanup", "eh.", "terminate.", "cleanup"]

def leavesOut (skips : List String) (name : String) : Bool :=
  skips.any fun s => s.toList.isPrefixOf name.toList

end LineCost.Attribution
