import PowerPC.Instruction.Basic
import PowerPC.Register.File
import PowerPC.Word.Arithmetic
import PowerPC.Word.Shift

/-!
# Integer instructions

Results, and carries where the operation sets CA. Sources are read before the target is written.
-/

namespace PowerPC

namespace ArithmeticOp

/-- The result of an operation on two words and CA, and the new CA if it sets one. -/
def eval (op : ArithmeticOp) (a b : Word) (ca : Bool) : Word × Option Bool :=
  let carrying (sum : Word × Bool) := (sum.1, some sum.2)
  match op with
  | add => (a + b, none)
  | addc => carrying (Word.addOverflow a b)
  | adde => carrying (Word.addCarry a b ca)
  | addze => carrying (Word.addCarry a 0 ca)
  | addme => carrying (Word.addCarry a (BitVec.allOnes 32) ca)
  | subf => (~~~a + (b + 1), none)
  | subfc => carrying (Word.addCarry (~~~a) b true)
  | subfe => carrying (Word.addCarry (~~~a) b ca)
  | subfze => carrying (Word.addCarry (~~~a) 0 ca)
  | subfme => carrying (Word.addCarry (~~~a) (BitVec.allOnes 32) ca)
  | neg => (-a, none)
  | mullw => (a * b, none)
  | mulhw => (Word.mulHighSigned a b, none)
  | mulhwu => (Word.mulHighUnsigned a b, none)
  | divw => (Word.divSigned a b, none)
  | divwu => (Word.divUnsigned a b, none)

end ArithmeticOp

def LogicalImmediateOp.eval (op : LogicalImmediateOp) (s imm : Word) : Word :=
  match op with
  | ori => s ||| imm
  | oris => s ||| (imm <<< 16)
  | xori => s ^^^ imm
  | xoris => s ^^^ (imm <<< 16)
  | andi => s &&& imm
  | andis => s &&& (imm <<< 16)

def UnaryOp.eval (op : UnaryOp) (s : Word) : Word :=
  match op with
  | extsb => s.signExtendLow 8
  | extsh => s.signExtendLow 16
  | cntlzw => s.leadingZeros

namespace Registers

def setCarry? (r : Registers) : Option Bool → Registers
  | some carry => r.setCarry carry
  | none => r

def arithmeticImmediate (r : Registers) (op : ImmediateOp) (rt ra : Gpr) (imm : Word) :
    Registers :=
  match op with
  | .addi => r.setGpr rt (r.base ra + imm)
  | .addis => r.setGpr rt (r.base ra + (imm <<< 16))
  | .addic =>
    let (result, carry) := Word.addOverflow (r.gpr ra) imm
    (r.setCarry carry).setGpr rt result
  | .addicRecord =>
    let (result, carry) := Word.addOverflow (r.gpr ra) imm
    ((r.setCarry carry).setGpr rt result).record result
  | .subfic =>
    let (result, carry) := Word.addCarry (~~~(r.gpr ra)) imm true
    (r.setCarry carry).setGpr rt result
  | .mulli => r.setGpr rt (r.gpr ra * imm)

def arithmetic (r : Registers) (op : ArithmeticOp) (rt ra rb : Gpr) (rc : Bool) : Registers :=
  let (result, carry) := op.eval (r.gpr ra) (r.gpr rb) r.xer.ca
  ((r.setGpr rt result).setCarry? carry).recordIf rc result

def logicalImmediate (r : Registers) (op : LogicalImmediateOp) (rs ra : Gpr) (imm : Word) :
    Registers :=
  let result := op.eval (r.gpr rs) imm
  (r.setGpr ra result).recordIf op.records result

def logical (r : Registers) (op : LogicalOp) (rs ra rb : Gpr) (rc : Bool) : Registers :=
  let result := op.evalWord (r.gpr rs) (r.gpr rb)
  (r.setGpr ra result).recordIf rc result

def unary (r : Registers) (op : UnaryOp) (rs ra : Gpr) (rc : Bool) : Registers :=
  let result := op.eval (r.gpr rs)
  (r.setGpr ra result).recordIf rc result

def shiftRightAlgebraic (r : Registers) (rs ra : Gpr) (amount : Nat) (rc : Bool) : Registers :=
  let (result, carry) := (r.gpr rs).shiftRightAlgebraic amount
  ((r.setCarry carry).setGpr ra result).recordIf rc result

def shift (r : Registers) (op : ShiftOp) (rs ra rb : Gpr) (rc : Bool) : Registers :=
  let amount := (r.gpr rb).toNat % 64
  match op with
  | .slw =>
    let result := r.gpr rs <<< amount
    (r.setGpr ra result).recordIf rc result
  | .srw =>
    let result := r.gpr rs >>> amount
    (r.setGpr ra result).recordIf rc result
  | .sraw => r.shiftRightAlgebraic rs ra amount rc

/-- `rlwimi` keeps the bits of its target outside the mask, the other two clear them. -/
def rotate (r : Registers) (op : RotateOp) (rs ra : Gpr) (mb me : Byte) (rc : Bool) : Registers :=
  let mask := Word.mask mb me
  let result := match op with
    | .rlwimi sh => ((r.gpr rs).rotateLeft sh.toNat &&& mask) ||| (r.gpr ra &&& ~~~mask)
    | .rlwinm sh => (r.gpr rs).rotateLeft sh.toNat &&& mask
    | .rlwnm rb => (r.gpr rs).rotateLeft ((r.gpr rb).toNat % 32) &&& mask
  (r.setGpr ra result).recordIf rc result

end Registers

end PowerPC
