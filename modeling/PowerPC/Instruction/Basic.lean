import PowerPC.Instruction.Operation

/-!
# Instructions

One constructor per family. Immediates are already extended to 32 bits and branch offsets already
scaled by four. The type is wider than what a word can hold: `bo`, `sh`, `mb` and `me` may use all
eight bits, and offsets and immediates all 32.
-/

namespace PowerPC

inductive CompareOperand where
  | gpr (rb : Gpr)
  | immediate (value : Word)
deriving DecidableEq, Repr

/-- The address of a load or store: a base register, of which register 0 stands for zero, and a
displacement or an index register. -/
inductive Addressing where
  | displaced (ra : Gpr) (d : Word)
  | indexed (ra rb : Gpr)
deriving DecidableEq, Repr

def Addressing.base : Addressing → Gpr
  | displaced ra _ => ra
  | indexed ra _ => ra

inductive Instruction where
  | branch (offset : Word) (aa lk : Bool)
  | branchConditional (bo : Byte) (bi : CrBit) (offset : Word) (aa lk : Bool)
  | branchToLr (bo : Byte) (bi : CrBit) (lk : Bool)
  | branchToCtr (bo : Byte) (bi : CrBit) (lk : Bool)
  | crLogical (op : LogicalOp) (bt ba bb : CrBit)
  | moveCrField (bf bfa : CrField)
  | compare (kind : Comparison) (bf : CrField) (ra : Gpr) (rhs : CompareOperand)
  | arithmeticImmediate (op : ImmediateOp) (rt ra : Gpr) (imm : Word)
  | arithmetic (op : ArithmeticOp) (rt ra rb : Gpr) (oe rc : Bool)
  | logicalImmediate (op : LogicalImmediateOp) (rs ra : Gpr) (imm : Word)
  | logical (op : LogicalOp) (rs ra rb : Gpr) (rc : Bool)
  | unary (op : UnaryOp) (rs ra : Gpr) (rc : Bool)
  | shift (op : ShiftOp) (rs ra rb : Gpr) (rc : Bool)
  | shiftRightAlgebraicImmediate (rs ra : Gpr) (sh : Byte) (rc : Bool)
  | rotate (op : RotateOp) (rs ra : Gpr) (mb me : Byte) (rc : Bool)
  | load (kind : LoadKind) (rt : Gpr) (ea : Addressing) (update : Bool)
  | store (kind : StoreKind) (rs : Gpr) (ea : Addressing) (update : Bool)
  | loadMultiple (rt ra : Gpr) (d : Word)
  | storeMultiple (rs ra : Gpr) (d : Word)
  | moveFromSpr (rt : Gpr) (spr : Spr)
  | moveToSpr (spr : Spr) (rs : Gpr)
  | moveFromCr (rt : Gpr)
  | moveToCrFields (fxm : Byte) (rs : Gpr)
  | sync
  | isync
deriving DecidableEq, Repr

/-! The bits of a branch option. -/

namespace BranchOption

/-- Do not test the condition register bit. -/
def skipsCondition (bo : Byte) : Bool := bo.getLsbD 4

/-- Branch if the tested bit is set, not if it is clear. -/
def onSet (bo : Byte) : Bool := bo.getLsbD 3

/-- Do not decrement and test CTR. -/
def skipsCounter (bo : Byte) : Bool := bo.getLsbD 2

/-- Branch if the decremented CTR is zero, not if it is nonzero. -/
def onZero (bo : Byte) : Bool := bo.getLsbD 1

end BranchOption

end PowerPC
