import LineCost.Cost.Catalog
import LineCost.Cost.CortexA57
import LineCost.Cost.CortexR52

/-!
The catalog that comes with the library. All patterns of its profiles compile.
-/

namespace LineCost

namespace CortexR52

/-- What `conditional` appends to a mnemonic. -/
def conditionalTail : String :=
  "(EQ|NE|CS|HS|CC|LO|MI|PL|VS|VC|HI|LS|GE|LT|GT|LE|AL)?(\\.W|\\.N)?"

/-- What `typed` appends to a mnemonic. -/
def typedTail : String :=
  "(EQ|NE|CS|HS|CC|LO|MI|PL|VS|VC|HI|LS|GE|LT|GT|LE|AL)?(\\.(F16|F32|F64|S32|U32|32|64))*"

theorem toList_conditional (mnemonic : String) (category : Category) (cycles : Nat) :
    (conditional mnemonic category cycles).pattern.toList =
      mnemonic.toList ++ conditionalTail.toList := by
  simp [conditional, condition, conditionalTail]

theorem toList_typed (mnemonic : String) (category : Category) (cycles : Nat) :
    (typed mnemonic category cycles).pattern.toList = mnemonic.toList ++ typedTail.toList := by
  simp [typed, condition, typedTail]

theorem compiles_of_mem_rules : ∀ r ∈ rules, Rule.compiles r.pattern.toList = true := by
  rw [← List.all_eq_true]
  simp only [rules, branches, loads, stores, integer, multiplication, floatingPoint, system, rule,
    List.all_append, List.all_cons, List.all_nil, toList_conditional, toList_typed]
  decide +kernel

def table : Table := .ofRules name rules compiles_of_mem_rules

end CortexR52

namespace CortexA57

theorem compiles_of_mem_rules : ∀ r ∈ rules, Rule.compiles r.pattern.toList = true := by
  rw [← List.all_eq_true]
  decide +kernel

def table : Table := .ofRules name rules compiles_of_mem_rules

end CortexA57

namespace Catalog

/-- The profiles of the Cortex-R52, which is the default, and of the Cortex-A57. -/
def builtin : Catalog where
  tables := [CortexR52.table, CortexA57.table]
  default := CortexR52.table
  distinct := by
    show [CortexR52.name, CortexA57.name].Nodup
    decide
  default_mem := List.mem_cons_self

end Catalog

end LineCost
