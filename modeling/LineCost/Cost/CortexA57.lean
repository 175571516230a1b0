import LineCost.Cost.Rule

/-!
The costs of the Arm Cortex-A57.
-/

namespace LineCost.CortexA57

def name : String := "cortex-a57"

def rule (pattern : String) (category : Category) (cycles : Nat) : Rule :=
  ⟨pattern, category, cycles⟩

/-- No operation, and the atomic exchanges. -/
def system : List Rule := [
  rule "NOP" .other 1, rule "CAS(A|L|AL)?(B|H|P)?" .other 1, rule "SWP(A|L|AL)?(B|H)?" .other 1]

/-- Branches, the conditional ones first. -/
def branches : List Rule := [
  rule "B\\.(EQ|NE|CS|HS|CC|LO|MI|PL|VS|VC|HI|LS|GE|LT|GT|LE|AL|NV)" .branch 1,
  rule "CBN?Z" .branch 1, rule "TBN?Z" .branch 1, rule "B" .branch 1, rule "BL" .branch 1,
  rule "BLR" .branch 2, rule "BR" .branch 1, rule "RET" .branch 1]

def loads : List Rule := [
  rule "LDR(B|SB|H|SH|SW)?" .load 4, rule "LDUR(B|SB|H|SH|SW)?" .load 4, rule "LDP(SW)?" .load 4,
  rule "LDNP" .load 4, rule "LDTR(B|SB|H|SH|SW)?" .load 4, rule "LDXR(B|H)?" .load 4,
  rule "LDXP" .load 4, rule "LDAPR(B|H)?" .load 4, rule "LDAR(B|H)?" .load 4,
  rule "LDAXR(B|H)?" .load 4, rule "LDAXP" .load 4, rule "LDLAR(B|H)?" .load 4]

def stores : List Rule := [
  rule "STR(B|H)?" .store 1, rule "STUR(B|H)?" .store 1, rule "STP" .store 2,
  rule "STNP" .store 2, rule "STTR(B|H)?" .store 1, rule "STXR(B|H)?" .store 1,
  rule "STXP" .store 1, rule "STLR(B|H)?" .store 1, rule "STLXR(B|H)?" .store 1,
  rule "STLXP" .store 1, rule "STLLR(B|H)?" .store 1]

def integer : List Rule := [
  rule "ADDS?" .arithmetic 1, rule "SUBS?" .arithmetic 1, rule "CMP" .arithmetic 1,
  rule "CMN" .arithmetic 1, rule "ANDS?" .arithmetic 1, rule "EOR" .arithmetic 1,
  rule "ORR" .arithmetic 1, rule "TST" .arithmetic 1, rule "MOV(Z|N|K)?" .arithmetic 1,
  rule "ADRP?" .arithmetic 1, rule "BFM" .arithmetic 2, rule "SBFM" .arithmetic 2,
  rule "UBFM" .arithmetic 2, rule "BFC" .arithmetic 2, rule "BFI" .arithmetic 2,
  rule "BFXIL" .arithmetic 1, rule "SBFIZ" .arithmetic 2, rule "SBFX" .arithmetic 1,
  rule "UBFIZ" .arithmetic 2, rule "UBFX" .arithmetic 1, rule "EXTR" .arithmetic 1,
  rule "ASRV?" .arithmetic 1, rule "LSLV?" .arithmetic 1, rule "LSRV?" .arithmetic 1,
  rule "RORV?" .arithmetic 1, rule "SXT(B|H|W)" .arithmetic 2, rule "UXT(B|H)" .arithmetic 2,
  rule "NEGS?" .arithmetic 1, rule "ADCS?" .arithmetic 1, rule "SBCS?" .arithmetic 1,
  rule "NGCS?" .arithmetic 1, rule "BICS?" .arithmetic 1, rule "EON" .arithmetic 1,
  rule "MVN" .arithmetic 1, rule "ORN" .arithmetic 1]

def multiplication : List Rule := [
  rule "MADD" .arithmetic 3, rule "MSUB" .arithmetic 3, rule "MNEG" .arithmetic 3,
  rule "MUL" .arithmetic 3, rule "SMADDL" .arithmetic 3, rule "SMSUBL" .arithmetic 3,
  rule "SMNEGL" .arithmetic 3, rule "SMULL" .arithmetic 3, rule "SMULH" .arithmetic 6,
  rule "UMADDL" .arithmetic 3, rule "UMSUBL" .arithmetic 3, rule "UMNEGL" .arithmetic 3,
  rule "UMULL" .arithmetic 3, rule "UMULH" .arithmetic 6, rule "SDIV" .arithmetic 20,
  rule "UDIV" .arithmetic 20]

/-- Bit counts and reversals, and conditional selection. -/
def bits : List Rule := [
  rule "CLS" .arithmetic 1, rule "CLZ" .arithmetic 1, rule "RBIT" .arithmetic 1,
  rule "REV(16|32|64)?" .arithmetic 1, rule "CSEL" .arithmetic 1, rule "CSINC" .arithmetic 1,
  rule "CSINV" .arithmetic 1, rule "CSNEG" .arithmetic 1, rule "CSETM?" .arithmetic 1,
  rule "CINC" .arithmetic 1, rule "CINV" .arithmetic 1, rule "CNEG" .arithmetic 1,
  rule "CCMN" .arithmetic 1, rule "CCMP" .arithmetic 1]

def floatingPoint : List Rule := [
  rule "FMOV" .floatingPoint 5, rule "FCVT(AS|AU|MS|MU|NS|NU|PS|PU|ZS|ZU)" .floatingPoint 10,
  rule "FCVTX?N?" .floatingPoint 5, rule "FJCVTZS" .floatingPoint 1,
  rule "SCVTF" .floatingPoint 10, rule "UCVTF" .floatingPoint 10,
  rule "FRINT(A|I|M|N|P|X|Z)?" .floatingPoint 5, rule "FMADD" .floatingPoint 9,
  rule "FMSUB" .floatingPoint 9, rule "FNMADD" .floatingPoint 9, rule "FNMSUB" .floatingPoint 9,
  rule "FABS" .floatingPoint 3, rule "FNEG" .floatingPoint 3, rule "FSQRT" .floatingPoint 20,
  rule "FADD" .floatingPoint 5, rule "FDIV" .floatingPoint 20, rule "FMUL" .floatingPoint 6,
  rule "FNMUL" .floatingPoint 6, rule "FSUB" .floatingPoint 5, rule "FMAXNM" .floatingPoint 5,
  rule "FMAX" .floatingPoint 5, rule "FMINNM" .floatingPoint 5, rule "FMIN" .floatingPoint 5,
  rule "FCMP(E|P|PE)?" .floatingPoint 3, rule "FCSEL" .floatingPoint 3]

/-- All rules, in the order in which they are tried. -/
def rules : List Rule :=
  system ++ branches ++ loads ++ stores ++ integer ++ multiplication ++ bits ++ floatingPoint

end LineCost.CortexA57
