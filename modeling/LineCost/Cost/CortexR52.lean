import LineCost.Cost.Rule

/-!
The costs of the Arm Cortex-R52, in unified assembler syntax: most mnemonics take a condition code
and a width qualifier.
-/

namespace LineCost.CortexR52

def name : String := "cortex-r52"

/-- An optional condition code. -/
def condition : String := "(EQ|NE|CS|HS|CC|LO|MI|PL|VS|VC|HI|LS|GE|LT|GT|LE|AL)?"

def rule (pattern : String) (category : Category) (cycles : Nat) : Rule :=
  ⟨pattern, category, cycles⟩

/-- A mnemonic with an optional condition code and width qualifier. -/
def conditional (mnemonic : String) (category : Category) (cycles : Nat) : Rule :=
  ⟨mnemonic ++ condition ++ "(\\.W|\\.N)?", category, cycles⟩

/-- A mnemonic with an optional condition code and any number of data types. -/
def typed (mnemonic : String) (category : Category) (cycles : Nat) : Rule :=
  ⟨mnemonic ++ condition ++ "(\\.(F16|F32|F64|S32|U32|32|64))*", category, cycles⟩

/-- Branches. `BLT`, `BLE` and `BLS` are conditional branches, not links. -/
def branches : List Rule := [
  conditional "B" .branch 1, conditional "BL" .branch 1, conditional "BLX" .branch 2,
  conditional "BX" .branch 1, rule "CBN?Z" .branch 1, conditional "TB(B|H)" .branch 3]

def loads : List Rule := [
  conditional "LDR(B|SB|H|SH|D|EX|EXB|EXH|EXD)?" .load 2,
  conditional "LDA(B|H|EX|EXB|EXH|EXD)?" .load 2,
  conditional "LDM(IA|IB|DA|DB|FD|FA|ED|EA)?" .load 3, conditional "POP" .load 3]

def stores : List Rule := [
  conditional "STR(B|H|D|EX|EXB|EXH|EXD)?" .store 1,
  conditional "STL(B|H|EX|EXB|EXH|EXD)?" .store 1,
  conditional "STM(IA|IB|DA|DB|FD|FA|ED|EA)?" .store 2, conditional "PUSH" .store 2]

/-- Integer arithmetic, and the blocks of conditional instructions. -/
def integer : List Rule := [
  conditional "ADDS?" .arithmetic 1, conditional "ADCS?" .arithmetic 1,
  conditional "ADR" .arithmetic 1, conditional "SUBS?" .arithmetic 1,
  conditional "SBCS?" .arithmetic 1, conditional "RSBS?" .arithmetic 1,
  conditional "RSCS?" .arithmetic 1, conditional "ANDS?" .arithmetic 1,
  conditional "ORRS?" .arithmetic 1, conditional "ORNS?" .arithmetic 1,
  conditional "EORS?" .arithmetic 1, conditional "BICS?" .arithmetic 1,
  conditional "MVNS?" .arithmetic 1, conditional "MOV(S|W|T)?" .arithmetic 1,
  conditional "CMP" .arithmetic 1, conditional "CMN" .arithmetic 1,
  conditional "TST" .arithmetic 1, conditional "TEQ" .arithmetic 1,
  conditional "LSLS?" .arithmetic 1, conditional "LSRS?" .arithmetic 1,
  conditional "ASRS?" .arithmetic 1, conditional "RORS?" .arithmetic 1,
  conditional "RRXS?" .arithmetic 1, conditional "SXTA?(B|H|B16)" .arithmetic 1,
  conditional "UXTA?(B|H|B16)" .arithmetic 1, conditional "SBFX" .arithmetic 1,
  conditional "UBFX" .arithmetic 1, conditional "BF(C|I)" .arithmetic 1,
  conditional "CLZ" .arithmetic 1, conditional "RBIT" .arithmetic 1,
  conditional "REV(16|SH)?" .arithmetic 1, rule "IT(T|E)\x7b0,3\x7d" .other 1]

def multiplication : List Rule := [
  conditional "MULS?" .arithmetic 2, conditional "ML(A|S)" .arithmetic 2,
  conditional "S(MULL|MLAL)S?" .arithmetic 2, conditional "U(MULL|MLAL)S?" .arithmetic 2,
  conditional "SMUL(BB|BT|TB|TT|WB|WT)" .arithmetic 2,
  conditional "SMLA(BB|BT|TB|TT|WB|WT|LBB|LBT|LTB|LTT|D|DX|LD|LDX)" .arithmetic 2,
  conditional "SMMULR?" .arithmetic 2, conditional "SDIV" .arithmetic 10,
  conditional "UDIV" .arithmetic 10]

/-- Floating point, with its loads and stores. -/
def floatingPoint : List Rule := [
  typed "VLDR" .load 2, typed "VLDM(IA|DB)?" .load 3, typed "VPOP" .load 3,
  typed "VSTR" .store 1, typed "VSTM(IA|DB)?" .store 2, typed "VPUSH" .store 2,
  typed "VMOV" .floatingPoint 2, typed "VMRS" .other 1, typed "VMSR" .other 1,
  typed "VADD" .floatingPoint 3, typed "VSUB" .floatingPoint 3, typed "VMUL" .floatingPoint 4,
  typed "VNMUL" .floatingPoint 4, typed "VN?ML(A|S)" .floatingPoint 6,
  typed "VFN?M(A|S)" .floatingPoint 6, typed "VDIV" .floatingPoint 14,
  typed "VSQRT" .floatingPoint 14, typed "VABS" .floatingPoint 2, typed "VNEG" .floatingPoint 2,
  typed "VCMPE?" .floatingPoint 2, typed "VCVT(R|A|N|P|M|B|T)?" .floatingPoint 3,
  typed "VSEL(EQ|GE|GT|VS)" .floatingPoint 2, typed "VMAXNM" .floatingPoint 3,
  typed "VMINNM" .floatingPoint 3, typed "VRINT(A|N|P|M|R|X|Z)" .floatingPoint 3]

/-- Barriers, status registers and the rest. -/
def system : List Rule := [
  conditional "NOP" .other 1, conditional "D(MB|SB)" .other 1, conditional "ISB" .other 1,
  conditional "M(RS|SR|RC|CR)" .other 1, conditional "SVC" .other 1, conditional "BKPT" .other 1,
  conditional "UDF" .other 1, conditional "WF(I|E)" .other 1, conditional "SEV" .other 1,
  conditional "CPSI(E|D)" .other 1]

/-- All rules, in the order in which they are tried. -/
def rules : List Rule :=
  branches ++ loads ++ stores ++ integer ++ multiplication ++ floatingPoint ++ system

end LineCost.CortexR52
