import LineCost.Cost.Basic
import LineCost.Pattern.Match
import LineCost.Pattern.Limit

/-!
Cost rules: a pattern for mnemonics and the cost of those that it matches.
-/

namespace LineCost

/-- Why a cost table or a catalog of tables cannot be built or changed. -/
inductive CatalogError where
  | unkeyedPattern (pattern : String)
  | invalidPattern (pattern : String)
  | duplicateProfile (name : String)
  | unknownProfile (name : String)
  | emptyCatalog
  deriving DecidableEq, Repr

namespace CatalogError

def message : CatalogError → String
  | unkeyedPattern p => "mnemonic pattern `" ++ p ++ "` does not start with a letter or digit"
  | invalidPattern p => "invalid mnemonic pattern `" ++ p ++ "`"
  | duplicateProfile n => "duplicate CPU profile `" ++ n ++ "`"
  | unknownProfile n => "unknown CPU profile `" ++ n ++ "`"
  | emptyCatalog => "cost catalog has no profiles"

end CatalogError

/-- A rule as it is declared. -/
structure Rule where
  pattern : String
  cost : Cost
  deriving DecidableEq, Repr

/-- A rule that is ready for use: its key is the upper-cased first character of the pattern. -/
structure CompiledRule extends Rule where
  key : Char
  matcher : Pattern.Matcher

namespace Rule

/-- The character that a pattern is filed under. Only an ASCII letter or digit at its very front can
serve. -/
def key? : List Char → Option Char
  | c :: _ => if c.isAlphanum then some c.toUpper else none
  | [] => none

/-- The pattern as it is searched for: wrapped as text, so that it has to span a whole mnemonic
unless it closes the group around it itself. -/
def anchored (pattern : List Char) : List Char := '^' :: '(' :: '?' :: ':' :: pattern ++ [')', '$']

def compile (r : Rule) : Except CatalogError CompiledRule :=
  match key? r.pattern.toList, Pattern.ofText? (anchored r.pattern.toList) with
  | none, _ => .error (.unkeyedPattern r.pattern)
  | some _, none => .error (.invalidPattern r.pattern)
  | some key, some p => .ok { r with key := key, matcher := p.matcher }

def compiles (pattern : List Char) : Bool :=
  (key? pattern).isSome && (Pattern.ofText? (anchored pattern)).isSome

def compiled (r : Rule) (h : compiles r.pattern.toList = true) : CompiledRule :=
  { r with
    key := (key? r.pattern.toList).get (Bool.and_eq_true_iff.1 h).1
    matcher :=
      ((Pattern.ofText? (anchored r.pattern.toList)).get (Bool.and_eq_true_iff.1 h).2).matcher }

theorem compile_eq_ok {r : Rule} (h : compiles r.pattern.toList = true) :
    r.compile = .ok (r.compiled h) := by
  obtain ⟨hk, hp⟩ := Bool.and_eq_true_iff.1 h
  obtain ⟨key, hk⟩ := Option.isSome_iff_exists.1 hk
  obtain ⟨p, hp⟩ := Option.isSome_iff_exists.1 hp
  simp only [compile, compiled, hk, hp, Option.get_some]

end Rule

namespace CompiledRule

def accepts (r : CompiledRule) (mnemonic : String) : Bool := r.matcher.occursIn mnemonic.toList

end CompiledRule

end LineCost
