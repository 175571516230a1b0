import LineCost.Cost.Rule

/-!
Cost tables. The rules of a table are filed under their keys; of those under the first character of
a mnemonic, the first that matches gives its cost.
-/

namespace LineCost

/-- The cost table of one CPU profile, with its rules in the order of declaration. -/
structure Table where
  name : String
  rules : List CompiledRule

namespace Table

/-- Compiles the rules one after the other; the first that fails decides the error. -/
def compile (name : String) (rules : List Rule) : Except CatalogError Table := do
  let compiled ← rules.mapM Rule.compile
  return ⟨name, compiled⟩

/-- The table of rules that are all known to compile. -/
def ofRules (name : String) (rules : List Rule)
    (h : ∀ r ∈ rules, Rule.compiles r.pattern.toList = true) : Table :=
  ⟨name, rules.pmap Rule.compiled h⟩

theorem compile_eq_ok {name : String} {rules : List Rule}
    (h : ∀ r ∈ rules, Rule.compiles r.pattern.toList = true) :
    compile name rules = .ok (ofRules name rules h) := by
  have hm : rules.mapM Rule.compile = .ok (rules.pmap Rule.compiled h) := by
    induction rules with
    | nil => rfl
    | cons r rest ih =>
      rw [List.mapM_cons, Rule.compile_eq_ok (h r List.mem_cons_self),
        ih fun s hs => h s (List.mem_cons_of_mem _ hs)]
      rfl
  rw [compile, hm]
  rfl

def size (t : Table) : Nat := t.rules.length

def isEmpty (t : Table) : Bool := t.size == 0

/-- The rules filed under a character, whatever its case. -/
def candidates (t : Table) (first : Char) : List CompiledRule :=
  t.rules.filter (·.key == first.toUpper)

/-- The cost of a mnemonic: that of the first candidate that matches. -/
def classify (t : Table) (mnemonic : String) : Cost :=
  match mnemonic.toList with
  | [] => .none
  | first :: _ =>
    match (t.candidates first).find? (·.accepts mnemonic) with
    | some r => r.cost
    | none => .none

end Table

end LineCost
