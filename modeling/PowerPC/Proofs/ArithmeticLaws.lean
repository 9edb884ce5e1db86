import PowerPC.Proofs.RecordLaws

/-!
# Results of arithmetic

Without overflow an arithmetic instruction succeeds. It leaves the result of its operation in its
target, and in CA the carry of the operation if it has one. The record bit touches neither.
-/

namespace PowerPC

namespace Registers

variable (r : Registers) (op : ArithmeticOp) (rt ra rb : Gpr) (rc : Bool)

@[simp] theorem xer_setGpr (w : Word) (i : Gpr) : (r.setGpr i w).xer = r.xer := rfl

@[simp] theorem gpr_recordIf (w : Word) (i : Gpr) : (r.recordIf rc w).gpr i = r.gpr i := by
  cases rc <;> rfl

@[simp] theorem xer_recordIf (w : Word) : (r.recordIf rc w).xer = r.xer := by
  cases rc <;> rfl

@[simp] theorem ca_setCarry? (carry : Option Bool) :
    (r.setCarry? carry).xer.ca = carry.getD r.xer.ca := by
  cases carry <;> rfl

theorem gpr_arithmetic : (r.arithmetic op rt ra rb rc).gpr rt =
    (op.eval (r.gpr ra) (r.gpr rb) r.xer.ca).1 := by
  simp [arithmetic]

theorem ca_arithmetic : (r.arithmetic op rt ra rb rc).xer.ca =
    (op.eval (r.gpr ra) (r.gpr rb) r.xer.ca).2.getD r.xer.ca := by
  simp [arithmetic]

variable {op rt ra rb rc}

theorem gpr_arithmetic_of_ne {i : Gpr} (h : i ≠ rt) :
    (r.arithmetic op rt ra rb rc).gpr i = r.gpr i := by
  simp [arithmetic, gpr_setGpr, h]

end Registers

namespace Instruction

/-- The instruction succeeds, with this word in the register and this CA. -/
def Yields (i : Instruction) (s : State) (rt : Gpr) (w : Word) (ca : Bool) : Prop :=
  ∃ t, i.execute s = (.ok (), t) ∧ t.registers.gpr rt = w ∧ t.registers.xer.ca = ca

theorem arithmetic_yields (op : ArithmeticOp) (rt ra rb : Gpr) (rc : Bool) (s : State) :
    (arithmetic op rt ra rb false rc).Yields s rt
      (op.eval (s.registers.gpr ra) (s.registers.gpr rb) s.registers.xer.ca).1
      ((op.eval (s.registers.gpr ra) (s.registers.gpr rb) s.registers.xer.ca).2.getD
        s.registers.xer.ca) :=
  ⟨_, rfl, Registers.gpr_arithmetic .., Registers.ca_arithmetic ..⟩

end Instruction

end PowerPC
