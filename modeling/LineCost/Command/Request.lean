import LineCost.Run.Options

/-!
The command line: what its words ask for, and which words are faults.
-/

namespace LineCost.Command

/-- Why a command line is not carried out. -/
inductive Stop where
  | usage
  | help
  | version
  deriving DecidableEq, Repr

def Stop.exitCode : Stop → Nat
  | .usage => 2
  | .help => 0
  | .version => 0

/-- The options, which take a value. -/
inductive Setting where
  | listingSuffix
  | cpu
  | skip
  | outputDir
  deriving DecidableEq, Repr

/-- The flags, which take none. -/
inductive Flag where
  | listCpus
  | metrics
  | verbose
  | silent
  | help
  | version
  deriving DecidableEq, Repr

inductive Switch where
  | setting (s : Setting)
  | flag (f : Flag)
  deriving DecidableEq, Repr

namespace Switch

def ofLong? : String → Option Switch
  | "asm-suffix" => some (.setting .listingSuffix)
  | "cpu" => some (.setting .cpu)
  | "skip-prefix" => some (.setting .skip)
  | "output-dir" => some (.setting .outputDir)
  | "list-cpus" => some (.flag .listCpus)
  | "metrics" => some (.flag .metrics)
  | "verbose" => some (.flag .verbose)
  | "silent" => some (.flag .silent)
  | "help" => some (.flag .help)
  | "version" => some (.flag .version)
  | _ => none

def ofShort? : Char → Option Switch
  | 'o' => some (.setting .outputDir)
  | 'v' => some (.flag .verbose)
  | 's' => some (.flag .silent)
  | 'h' => some (.flag .help)
  | 'V' => some (.flag .version)
  | _ => none

end Switch

/-- What the words of a command line add up to. -/
structure Request where
  module : Option String
  listingSuffix : Option String
  cpu : Option String
  skips : List String
  outputDir : Option String
  listCpus : Bool
  metrics : Bool
  verbose : Bool
  silent : Bool
  deriving DecidableEq, Repr

namespace Request

def empty : Request := ⟨none, none, none, [], none, false, false, false, false⟩

/-- Gives a setting a value. Only the skips may be given more than once, and the name of a directory
may not be empty. -/
def set (r : Request) (s : Setting) (value : String) : Except Stop Request :=
  match s with
  | .listingSuffix =>
    if r.listingSuffix.isSome then .error .usage else .ok { r with listingSuffix := some value }
  | .cpu => if r.cpu.isSome then .error .usage else .ok { r with cpu := some value }
  | .skip => .ok { r with skips := r.skips ++ [value] }
  | .outputDir =>
    if r.outputDir.isSome || value.isEmpty then .error .usage
    else .ok { r with outputDir := some value }

/-- Raises a flag, which must not be up already. Help and version end the reading at once. -/
def raise (r : Request) : Flag → Except Stop Request
  | .listCpus => if r.listCpus then .error .usage else .ok { r with listCpus := true }
  | .metrics => if r.metrics then .error .usage else .ok { r with metrics := true }
  | .verbose => if r.verbose then .error .usage else .ok { r with verbose := true }
  | .silent => if r.silent then .error .usage else .ok { r with silent := true }
  | .help => .error .help
  | .version => .error .version

/-- Takes the module, of which there is only one and which has a name. -/
def setModule (r : Request) (word : String) : Except Stop Request :=
  if r.module.isSome || word.isEmpty then .error .usage else .ok { r with module := some word }

def readOperands (r : Request) : List String → Except Stop Request
  | [] => .ok r
  | w :: rest => do
    let r ← r.setModule w
    r.readOperands rest

/-- Reads the letters after a single hyphen. The rest after the letter of a setting is its value,
with or without an equals sign; a setting at the end is left waiting for the next word. -/
def readLetters (r : Request) : List Char → Except Stop (Request × Option Setting)
  | [] => .ok (r, none)
  | c :: rest =>
    match Switch.ofShort? c with
    | none => .error .usage
    | some (.flag f) => do
      let r ← r.raise f
      r.readLetters rest
    | some (.setting s) =>
      match rest with
      | [] => .ok (r, some s)
      | '=' :: value => (r.set s (String.ofList value)).map (·, none)
      | value => (r.set s (String.ofList value)).map (·, none)

/-- Reads what follows two hyphens: a flag, or a setting with its value after an equals sign; a
setting without is left waiting for the next word. -/
def readLong (r : Request) (word : List Char) : Except Stop (Request × Option Setting) :=
  let (name, value) := match Text.cutFirst? '=' word with
    | some (name, value) => (name, some (String.ofList value))
    | none => (word, none)
  match Switch.ofLong? (String.ofList name), value with
  | some (.flag f), none => (r.raise f).map (·, none)
  | some (.setting s), none => .ok (r, some s)
  | some (.setting s), some v => (r.set s v).map (·, none)
  | _, _ => .error .usage

/-- Whether a word can be the value of the setting before it. -/
def isValue (word : String) : Bool :=
  word == "-" || word.toList.head? != some '-'

/-- Reads one word. A single hyphen is a module like any other word. -/
def readWord (r : Request) (word : String) : Except Stop (Request × Option Setting) :=
  match word.toList with
  | '-' :: '-' :: name => r.readLong name
  | '-' :: c :: letters => r.readLetters (c :: letters)
  | _ => (r.setModule word).map (·, none)

/-- Reads the words one by one. After a word of two hyphens nothing is a switch any more. -/
def read (r : Request) : List String → Except Stop Request
  | [] => .ok r
  | w :: rest =>
    if w = "--" then r.readOperands rest
    else match r.readWord w with
      | .error s => .error s
      | .ok (r, none) => r.read rest
      | .ok (r, some s) =>
        match rest with
        | [] => .error .usage
        | value :: rest =>
          if isValue value then do
            let r ← r.set s value
            r.read rest
          else .error .usage

/-- A module is needed unless the CPUs are to be listed, and nothing is both verbose and silent. -/
def isComplete (r : Request) : Bool := (r.module.isSome || r.listCpus) && !(r.verbose && r.silent)

/-- The request that the words make. -/
def ofWords (words : List String) : Except Stop Request := do
  let r ← empty.read words
  if r.isComplete then return r else throw .usage

def options (r : Request) : Run.Options :=
  { Run.Options.default with
    listingSuffix := r.listingSuffix.getD Run.defaultListingSuffix
    cpu := r.cpu
    outputDir := r.outputDir }.addSkips r.skips

def logLevel (r : Request) : String :=
  if r.verbose then "inststat=debug" else if r.silent then "inststat=error" else "inststat=info"

end Request

end LineCost.Command
