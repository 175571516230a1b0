import LineCost.Command.Request
import LineCost.Cost.Builtin
import LineCost.Run.Basic

/-!
What the program answers to a request: lines of output, messages and an exit code.
-/

namespace LineCost.Command

structure Reply where
  code : Nat
  output : List String
  messages : List String
  deriving DecidableEq, Repr

def exitSuccess : Nat := 0

/-- The exit code of a failure outside all stages. -/
def exitFailure : Nat := 1

/-- The exit code of a run that a sum too large for its counter has ended. -/
def exitOverflow : Nat := 101

def version : String := "inststat 0.1.0"

def profileLines (c : Catalog) : List String :=
  c.names.map fun n => if n == c.default.name then n ++ " (default)" else n

def summaryMessages (s : Run.Summary) : List String :=
  let r := s.report
  (if 0 < r.functionsUnmatched then
    ["! " ++ r.functionsUnmatched.repr ++ " function(s) had no assembly"] else []) ++
  (if 0 < r.blocksUnresolved then
    ["! " ++ r.blocksUnresolved.repr ++ " block(s) left without costs"] else []) ++
  ["✓ " ++ s.functions.length.repr ++ " function(s), " ++ s.total.instructions.repr ++
      " instruction(s), " ++ s.total.cycles.repr ++ " cycle(s)",
    "  → " ++ s.paths.output]

/-- The reply to a run. Failures are told even when silence is asked for. -/
def runReply (silent : Bool) : Except Run.RunError Run.Summary → Reply
  | .ok s => ⟨exitSuccess, [], if silent then [] else summaryMessages s⟩
  | .error e => ⟨e.stage.exitCode, [], ["✗ " ++ e.stage.name ++ " failed: " ++ e.message]⟩

def overflowReply : Reply := ⟨exitOverflow, [], []⟩

namespace Reply

/-- Adds the summary of the counters, if it is asked for. -/
def withMetrics (reply : Reply) (r : Request) (m : Metrics) : Reply :=
  if r.metrics then { reply with output := reply.output ++ m.summary } else reply

end Reply

/-- The reply to words that make no request. -/
def stopReply (s : Stop) : Reply :=
  ⟨s.exitCode, if s = .version then [version] else [], []⟩

def perform (r : Request) (fs : Run.Files) : Reply × Run.Files :=
  if r.listCpus then
    (Reply.withMetrics ⟨exitSuccess, profileLines .builtin, []⟩ r .empty, fs)
  else match r.module with
    | none => (Reply.withMetrics ⟨exitFailure, [], []⟩ r .empty, fs)
    | some module =>
      match Run.checkedRun .builtin r.options module fs .empty with
      | .error _ => (overflowReply, fs)
      | .ok outcome =>
        ((runReply r.silent outcome.result).withMetrics r outcome.metrics, outcome.files)

/-- Carries out a command line in a tree of files. -/
def execute (words : List String) (fs : Run.Files) : Reply × Run.Files :=
  match Request.ofWords words with
  | .error s => (stopReply s, fs)
  | .ok r => perform r fs

end LineCost.Command
