import PowerPC.Execute.Branch
import PowerPC.Execute.Integer
import PowerPC.Execute.Transfer

/-!
# Executing an instruction

Only arithmetic with overflow enabled, and loads and stores, can fault.
-/

namespace PowerPC.Instruction

open Exec (modifyRegisters fault)

def execute : Instruction → Exec Unit
  | branch offset aa lk => modifyRegisters (·.branch offset aa lk)
  | branchConditional bo bi offset aa lk =>
    modifyRegisters (·.branchConditional bo bi offset aa lk)
  | branchToLr bo bi lk => modifyRegisters (·.branchToLr bo bi lk)
  | branchToCtr bo bi lk => modifyRegisters (·.branchToCtr bo bi lk)
  | crLogical op bt ba bb => modifyRegisters (·.crLogical op bt ba bb)
  | moveCrField bf bfa => modifyRegisters (·.moveCrField bf bfa)
  | compare kind bf ra rhs => modifyRegisters (·.compare kind bf ra rhs)
  | arithmeticImmediate op rt ra imm => modifyRegisters (·.arithmeticImmediate op rt ra imm)
  | arithmetic op rt ra rb oe rc =>
    if oe then fault (.overflowEnable op)
    else modifyRegisters (·.arithmetic op rt ra rb rc)
  | logicalImmediate op rs ra imm => modifyRegisters (·.logicalImmediate op rs ra imm)
  | logical op rs ra rb rc => modifyRegisters (·.logical op rs ra rb rc)
  | unary op rs ra rc => modifyRegisters (·.unary op rs ra rc)
  | shift op rs ra rb rc => modifyRegisters (·.shift op rs ra rb rc)
  | shiftRightAlgebraicImmediate rs ra sh rc =>
    modifyRegisters (·.shiftRightAlgebraic rs ra sh.toNat rc)
  | rotate op rs ra mb me rc => modifyRegisters (·.rotate op rs ra mb me rc)
  | load kind rt ea update => Exec.load kind rt ea update
  | store kind rs ea update => Exec.store kind rs ea update
  | loadMultiple rt ra d => Exec.loadMultiple rt ra d
  | storeMultiple rs ra d => Exec.storeMultiple rs ra d
  | moveFromSpr rt spr => modifyRegisters fun r => r.setGpr rt (r.spr spr)
  | moveToSpr spr rs => modifyRegisters fun r => r.setSpr spr (r.gpr rs)
  | moveFromCr rt => modifyRegisters fun r => r.setGpr rt r.cr.toWord
  | moveToCrFields fxm rs => modifyRegisters fun r => { r with cr := r.cr.load (r.gpr rs) fxm }
  | sync | isync => return

end PowerPC.Instruction
