import PowerPC.Fault
import PowerPC.Instruction.Basic

/-!
# Decoding

A word is decoded by its opcode: the fields of the opcode's form become operands, immediates are
extended and branch offsets scaled. A word is refused if it has no opcode, or if its operands are
ones that the instruction does not allow.
-/

namespace PowerPC

namespace Opcode

/-- A load may update its base only if that is neither register 0 nor the target. -/
def decodeLoad (w : Word) (kind : LoadKind) (rt : Gpr) (ea : Addressing) (update : Bool) :
    Except Fault Instruction :=
  if update ∧ (ea.base = 0 ∨ ea.base = rt) then .error (.invalidForm w .loadUpdateBase)
  else .ok (.load kind rt ea update)

/-- A store may update its base only if that is not register 0. -/
def decodeStore (w : Word) (kind : StoreKind) (rs : Gpr) (ea : Addressing) (update : Bool) :
    Except Fault Instruction :=
  if update ∧ ea.base = 0 then .error (.invalidForm w .storeUpdateBase)
  else .ok (.store kind rs ea update)

def decode (w : Word) : Opcode → Except Fault Instruction
  | branch =>
    let f := IForm.ofWord w
    .ok (.branch (f.li.signExtend 32 <<< 2) f.aa f.lk)
  | branchConditional =>
    let f := BForm.ofWord w
    .ok (.branchConditional (f.bo.setWidth 8) (.ofOperand f.bi) (f.bd.signExtend 32 <<< 2) f.aa f.lk)
  | branchToLr =>
    let f := XlForm.ofWord w
    .ok (.branchToLr (f.bt.setWidth 8) (.ofOperand f.ba) f.lk)
  | branchToCtr =>
    let f := XlForm.ofWord w
    if BranchOption.skipsCounter (f.bt.setWidth 8) then
      .ok (.branchToCtr (f.bt.setWidth 8) (.ofOperand f.ba) f.lk)
    else .error (.invalidForm w .counterDecrement)
  | crLogical op =>
    let f := XlForm.ofWord w
    .ok (.crLogical op (.ofOperand f.bt) (.ofOperand f.ba) (.ofOperand f.bb))
  | moveCrField =>
    let f := XlForm.ofWord w
    .ok (.moveCrField (.ofOperand f.bt) (.ofOperand f.ba))
  | isync => .ok .isync
  | compareImmediate kind =>
    let f := DForm.ofWord w
    let imm := match kind with
      | .signed => f.d.signExtend 32
      | .logical => f.d.setWidth 32
    .ok (.compare kind (.ofOperand f.rt) (.ofOperand f.ra) (.immediate imm))
  | compare kind =>
    let f := XForm.ofWord w
    .ok (.compare kind (.ofOperand f.rt) (.ofOperand f.ra) (.gpr (.ofOperand f.rb)))
  | arithmeticImmediate op =>
    let f := DForm.ofWord w
    .ok (.arithmeticImmediate op (.ofOperand f.rt) (.ofOperand f.ra) (f.d.signExtend 32))
  | arithmetic op =>
    let f := XoForm.ofWord w
    .ok (.arithmetic op (.ofOperand f.rt) (.ofOperand f.ra) (.ofOperand f.rb) f.oe f.rc)
  | logicalImmediate op =>
    let f := DForm.ofWord w
    .ok (.logicalImmediate op (.ofOperand f.rt) (.ofOperand f.ra) (f.d.setWidth 32))
  | logical op =>
    let f := XForm.ofWord w
    .ok (.logical op (.ofOperand f.rt) (.ofOperand f.ra) (.ofOperand f.rb) f.rc)
  | unary op =>
    let f := XForm.ofWord w
    .ok (.unary op (.ofOperand f.rt) (.ofOperand f.ra) f.rc)
  | shift op =>
    let f := XForm.ofWord w
    .ok (.shift op (.ofOperand f.rt) (.ofOperand f.ra) (.ofOperand f.rb) f.rc)
  | srawi =>
    let f := XForm.ofWord w
    .ok (.shiftRightAlgebraicImmediate (.ofOperand f.rt) (.ofOperand f.ra) (f.rb.setWidth 8) f.rc)
  | rlwimi =>
    let f := MForm.ofWord w
    .ok (.rotate (.rlwimi (f.rb.setWidth 8)) (.ofOperand f.rs) (.ofOperand f.ra)
      (f.mb.setWidth 8) (f.me.setWidth 8) f.rc)
  | rlwinm =>
    let f := MForm.ofWord w
    .ok (.rotate (.rlwinm (f.rb.setWidth 8)) (.ofOperand f.rs) (.ofOperand f.ra)
      (f.mb.setWidth 8) (f.me.setWidth 8) f.rc)
  | rlwnm =>
    let f := MForm.ofWord w
    .ok (.rotate (.rlwnm (.ofOperand f.rb)) (.ofOperand f.rs) (.ofOperand f.ra)
      (f.mb.setWidth 8) (f.me.setWidth 8) f.rc)
  | load kind update =>
    let f := DForm.ofWord w
    decodeLoad w kind (.ofOperand f.rt) (.displaced (.ofOperand f.ra) (f.d.signExtend 32)) update
  | loadIndexed kind update =>
    let f := XForm.ofWord w
    decodeLoad w kind (.ofOperand f.rt) (.indexed (.ofOperand f.ra) (.ofOperand f.rb)) update
  | store kind update =>
    let f := DForm.ofWord w
    decodeStore w kind (.ofOperand f.rt) (.displaced (.ofOperand f.ra) (f.d.signExtend 32)) update
  | storeIndexed kind update =>
    let f := XForm.ofWord w
    decodeStore w kind (.ofOperand f.rt) (.indexed (.ofOperand f.ra) (.ofOperand f.rb)) update
  | loadMultiple =>
    let f := DForm.ofWord w
    if f.ra < f.rt then
      .ok (.loadMultiple (.ofOperand f.rt) (.ofOperand f.ra) (f.d.signExtend 32))
    else .error (.invalidForm w .loadMultipleOverBase)
  | storeMultiple =>
    let f := DForm.ofWord w
    .ok (.storeMultiple (.ofOperand f.rt) (.ofOperand f.ra) (f.d.signExtend 32))
  | moveFromSpr => do
    let f := XfxForm.ofWord w
    let spr ← Spr.ofNumber (Spr.numberOfField f.spr).toNat
    return .moveFromSpr (.ofOperand f.rt) spr
  | moveToSpr => do
    let f := XfxForm.ofWord w
    let spr ← Spr.ofNumber (Spr.numberOfField f.spr).toNat
    return .moveToSpr spr (.ofOperand f.rt)
  | moveFromCr => .ok (.moveFromCr (.ofOperand (XForm.ofWord w).rt))
  | moveToCrFields => .ok (.moveToCrFields (w.field 12 8) (.ofOperand (XForm.ofWord w).rt))
  | sync => .ok .sync

end Opcode

def Instruction.decode (w : Word) : Except Fault Instruction :=
  match Opcode.ofWord? w with
  | some op => op.decode w
  | none => .error (.unsupportedOpcode w)

end PowerPC
