import LineCost.Command.Reply

/-!
The program itself: it reads and writes real files, and leaves all decisions to the library.
-/

namespace LineCost.Main

def usage : String :=
  "Usage: inststat [OPTIONS] MODULE\n\n" ++
  "Estimate per-line instruction costs from bbinfo and assembly listings\n\n" ++
  "Options:\n" ++
  "      --asm-suffix SUFFIX   ending of the listing's name [default: .s]\n" ++
  "      --cpu NAME            CPU cost profile\n" ++
  "      --skip-prefix PREFIX  leave out blocks whose name starts so (repeatable)\n" ++
  "  -o, --output-dir DIR      where to put the output\n" ++
  "      --list-cpus           list the built-in CPU profiles\n" ++
  "      --metrics             show a summary of the counters\n" ++
  "  -v, --verbose             tell more\n" ++
  "  -s, --silent              tell errors only\n" ++
  "  -h, --help                show this text\n" ++
  "  -V, --version             show the version"

def faultOf : IO.Error → Run.ReadFault
  | .noFileOrDirectory _ _ _ => .missing
  | .inappropriateType _ code report => if code = 20 then .notDirectory
    else if code = 21 then .isDirectory else .other report
  | .invalidArgument _ code report => if code = 36 then .nameTooLong else .other report
  | e => .other (toString e)

def readText (path : String) : IO (Except Run.ReadFault String) := do
  try
    let bytes ← IO.FS.readBinFile path
    return match String.fromUTF8? bytes with
      | some s => .ok s
      | none => .error .notText
  catch e => return .error (faultOf e)

/-- Writes a file beside its destination and moves it into place. -/
def replace (path content : String) : IO Bool := do
  let draft := Run.Path.beside path ".inststat.draft"
  try
    IO.FS.writeFile draft content
    IO.FS.rename draft path
    return true
  catch _ =>
    try IO.FS.removeFile draft catch _ => pure ()
    return false

def run (o : Run.Options) (module : String) :
    IO (Except Overflow (Except Run.RunError Run.Summary × Metrics)) := do
  let paths := Run.Paths.ofModule module o
  let outline ← readText paths.outline
  let listing ← readText paths.listing
  match Run.checkedPrepare .builtin o paths outline listing with
  | .error overflow => return .error overflow
  | .ok (.error e) => return .ok (.error e, .empty)
  | .ok (.ok s) =>
    match Metrics.empty.checkedAddRun module s.report s.total with
    | .error overflow => return .error overflow
    | .ok m =>
      if ← replace paths.output (Outline.write s.functions) then return .ok (.ok s, m)
      else return .ok (.error (.unwritable paths.output), m)

def reply (r : Command.Request) : IO Command.Reply := do
  match r.listCpus, r.module with
  | false, some module =>
    match ← run r.options module with
    | .error _ => return Command.overflowReply
    | .ok (result, m) => return (Command.runReply r.silent result).withMetrics r m
  | _, _ => return (Command.perform r ⟨[], []⟩).1

end LineCost.Main

def main (words : List String) : IO UInt32 := do
  match LineCost.Command.Request.ofWords words with
  | .error .help =>
    IO.println LineCost.Main.usage
    return 0
  | .error .usage =>
    IO.eprintln LineCost.Main.usage
    return 2
  | .error s =>
    let reply := LineCost.Command.stopReply s
    reply.output.forM IO.println
    return UInt32.ofNat reply.code
  | .ok r =>
    let reply ← LineCost.Main.reply r
    reply.messages.forM IO.eprintln
    reply.output.forM IO.println
    return UInt32.ofNat reply.code
