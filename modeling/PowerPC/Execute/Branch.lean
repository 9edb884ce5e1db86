import PowerPC.Instruction.Basic
import PowerPC.Register.File

/-!
# Branches and condition register instructions

PC has already moved past the instruction: a relative branch counts from `pc - 4`, and a branch
that links saves `pc`, taken or not.
-/

namespace PowerPC.Registers

/-- Decrement CTR unless the option says not to; whether the counter lets the branch go. -/
def countDown (r : Registers) (bo : Byte) : Registers × Bool :=
  if BranchOption.skipsCounter bo then (r, true)
  else
    let ctr := r.ctr - 1
    ({ r with ctr }, decide (ctr = 0) == BranchOption.onZero bo)

def conditionHolds (r : Registers) (bo : Byte) (bi : CrBit) : Bool :=
  BranchOption.skipsCondition bo || r.cr.bit bi == BranchOption.onSet bo

def transfer (r : Registers) (taken : Bool) (target : Word) (lk : Bool) : Registers :=
  { r with
    lr := if lk then r.pc else r.lr
    pc := if taken then target else r.pc }

def branchTarget (r : Registers) (offset : Word) (aa : Bool) : Word :=
  if aa then offset else r.pc - 4 + offset

def branch (r : Registers) (offset : Word) (aa lk : Bool) : Registers :=
  r.transfer true (r.branchTarget offset aa) lk

/-- CTR is decremented also when the condition fails. -/
def branchConditional (r : Registers) (bo : Byte) (bi : CrBit) (offset : Word) (aa lk : Bool) :
    Registers :=
  let (r, counterOk) := r.countDown bo
  r.transfer (counterOk && r.conditionHolds bo bi) (r.branchTarget offset aa) lk

def branchToLr (r : Registers) (bo : Byte) (bi : CrBit) (lk : Bool) : Registers :=
  let (r, counterOk) := r.countDown bo
  r.transfer (counterOk && r.conditionHolds bo bi) r.lr.alignDown lk

/-- CTR is the target and never decremented. -/
def branchToCtr (r : Registers) (bo : Byte) (bi : CrBit) (lk : Bool) : Registers :=
  r.transfer (r.conditionHolds bo bi) r.ctr.alignDown lk

def crLogical (r : Registers) (op : LogicalOp) (bt ba bb : CrBit) : Registers :=
  { r with cr := r.cr.setBit bt (op.evalBit (r.cr.bit ba) (r.cr.bit bb)) }

def moveCrField (r : Registers) (bf bfa : CrField) : Registers :=
  { r with cr := r.cr.set bf (r.cr.get bfa) }

def compare (r : Registers) (kind : Comparison) (bf : CrField) (ra : Gpr) (rhs : CompareOperand) :
    Registers :=
  let b := match rhs with
    | .gpr rb => r.gpr rb
    | .immediate value => value
  let order := match kind with
    | .signed => (r.gpr ra).compareSigned b
    | .logical => (r.gpr ra).compareLogical b
  { r with cr := r.cr.record bf order }

def spr (r : Registers) : Spr → Word
  | .xer => r.xer.toWord
  | .lr => r.lr
  | .ctr => r.ctr

def setSpr (r : Registers) (s : Spr) (w : Word) : Registers :=
  match s with
  | .xer => { r with xer := .ofWord w }
  | .lr => { r with lr := w }
  | .ctr => { r with ctr := w }

end PowerPC.Registers
