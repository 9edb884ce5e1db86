import PowerPC.Register.Condition
import PowerPC.Register.Xer

/-!
# The register file

General purpose registers, condition register, XER, link, count and program counter.
-/

namespace PowerPC

structure Registers where
  gprs : Vector Word 32 := .replicate 32 0
  cr : ConditionRegister := {}
  xer : Xer := {}
  lr : Word := 0
  ctr : Word := 0
  pc : Word := 0
deriving DecidableEq, Repr

namespace Registers

def gpr (r : Registers) (i : Gpr) : Word := r.gprs[i]

def setGpr (r : Registers) (i : Gpr) (w : Word) : Registers := { r with gprs := r.gprs.set i w }

/-- A base register, where register 0 stands for zero. -/
def base (r : Registers) (i : Gpr) : Word := if i = 0 then 0 else r.gpr i

def setCarry (r : Registers) (carry : Bool) : Registers :=
  { r with xer := { r.xer with ca := carry } }

def record (r : Registers) (result : Word) : Registers :=
  { r with cr := r.cr.record 0 (Word.compareSigned result 0) }

def recordIf (r : Registers) (rc : Bool) (result : Word) : Registers :=
  if rc then r.record result else r

theorem gpr_setGpr (r : Registers) (i j : Gpr) (w : Word) :
    (r.setGpr i w).gpr j = if j = i then w else r.gpr j := by
  simp only [gpr, setGpr, Fin.getElem_fin, Vector.getElem_set, Fin.ext_iff, eq_comm]

@[simp] theorem gpr_setGpr_self (r : Registers) (i : Gpr) (w : Word) :
    (r.setGpr i w).gpr i = w := by
  simp [gpr_setGpr]

end Registers

end PowerPC
