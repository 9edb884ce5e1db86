import PowerPC.Execute.Instruction

/-!
# Record forms

An instruction whose record bit is set does what it does without the bit, and then says in field 0
how its target compares with zero. The bit changes nothing else: SO stays, and so do the other
fields, the carry and the fault, if there is one.
-/

namespace PowerPC

-- ---------------------------------------------------------------------------
-- Recording a register
-- ---------------------------------------------------------------------------

namespace Registers

/-- LT, GT and EQ of field 0 say in `u` how a register compares with zero, as a signed number. All
else is in `u` as it is in `r`. -/
structure RecordedIn (r u : Registers) (target : Gpr) : Prop where
  lt_iff : (u.cr.get 0).lt = true ↔ (u.gpr target).toInt < 0
  gt_iff : (u.cr.get 0).gt = true ↔ 0 < (u.gpr target).toInt
  eq_iff : (u.cr.get 0).eq = true ↔ (u.gpr target).toInt = 0
  so_eq : (u.cr.get 0).so = (r.cr.get 0).so
  field_eq : ∀ f, f ≠ 0 → u.cr.get f = r.cr.get f
  rest_eq : { u with cr := r.cr } = r

@[simp] theorem cr_setGpr (r : Registers) (i : Gpr) (w : Word) : (r.setGpr i w).cr = r.cr := rfl

@[simp] theorem cr_setCarry (r : Registers) (carry : Bool) : (r.setCarry carry).cr = r.cr := rfl

@[simp] theorem cr_setCarry? (r : Registers) (carry : Option Bool) :
    (r.setCarry? carry).cr = r.cr := by
  cases carry <;> rfl

@[simp] theorem gpr_setCarry? (r : Registers) (carry : Option Bool) (i : Gpr) :
    (r.setCarry? carry).gpr i = r.gpr i := by
  cases carry <;> rfl

@[simp] theorem gpr_record (r : Registers) (w : Word) (i : Gpr) : (r.record w).gpr i = r.gpr i :=
  rfl

theorem get_record (r : Registers) (w : Word) (f : CrField) : (r.record w).cr.get f =
    if f = 0 then .ofOrdering (Word.compareSigned w 0) (r.cr.get 0).so else r.cr.get f :=
  ConditionRegister.get_set r.cr 0 f _

theorem recordedIn_record (r : Registers) (i : Gpr) : r.RecordedIn (r.record (r.gpr i)) i where
  lt_iff := by
    simp [get_record, Condition.ofOrdering, Word.compareSigned, Int.compare_eq_lt]
  gt_iff := by
    simp [get_record, Condition.ofOrdering, Word.compareSigned, Int.compare_eq_gt]
  eq_iff := by
    simp [get_record, Condition.ofOrdering, Word.compareSigned]
  so_eq := by
    simp [get_record, Condition.ofOrdering]
  field_eq f hf := by
    simp [get_record, hf]
  rest_eq := rfl

def Records (plain recording : Registers → Registers) (target : Gpr) : Prop :=
  ∀ r, (plain r).cr = r.cr ∧ recording r = (plain r).record ((plain r).gpr target)

theorem arithmetic_records (op : ArithmeticOp) (rt ra rb : Gpr) :
    Records (·.arithmetic op rt ra rb false) (·.arithmetic op rt ra rb true) rt := by
  intro r
  simp [arithmetic, recordIf]

theorem addic_records (rt ra : Gpr) (imm : Word) :
    Records (·.arithmeticImmediate .addic rt ra imm) (·.arithmeticImmediate .addicRecord rt ra imm)
      rt := by
  intro r
  simp [arithmeticImmediate]

theorem logical_records (op : LogicalOp) (rs ra rb : Gpr) :
    Records (·.logical op rs ra rb false) (·.logical op rs ra rb true) ra := by
  intro r
  simp [logical, recordIf]

theorem unary_records (op : UnaryOp) (rs ra : Gpr) :
    Records (·.unary op rs ra false) (·.unary op rs ra true) ra := by
  intro r
  simp [unary, recordIf]

theorem shiftRightAlgebraic_records (rs ra : Gpr) (amount : Registers → Nat) :
    Records (fun r => r.shiftRightAlgebraic rs ra (amount r) false)
      (fun r => r.shiftRightAlgebraic rs ra (amount r) true) ra := by
  intro r
  simp [shiftRightAlgebraic, recordIf]

theorem shift_records (op : ShiftOp) (rs ra rb : Gpr) :
    Records (·.shift op rs ra rb false) (·.shift op rs ra rb true) ra := by
  cases op with
  | slw | srw =>
    intro r
    simp [shift, recordIf]
  | sraw => exact shiftRightAlgebraic_records rs ra _

theorem rotate_records (op : RotateOp) (rs ra : Gpr) (mb me : Byte) :
    Records (·.rotate op rs ra mb me false) (·.rotate op rs ra mb me true) ra := by
  intro r
  simp [rotate, recordIf]

end Registers

-- ---------------------------------------------------------------------------
-- Instructions in two forms
-- ---------------------------------------------------------------------------

namespace Instruction

open Registers (Records)

variable {plain recording : Instruction} {target : Gpr} {s : State}

/-- An instruction without and with its record bit, and the register that the result goes to. -/
inductive HasRecordForm : Instruction → Instruction → Gpr → Prop where
  | arithmetic (op rt ra rb oe) :
    HasRecordForm (.arithmetic op rt ra rb oe false) (.arithmetic op rt ra rb oe true) rt
  | addic (rt ra imm) :
    HasRecordForm (.arithmeticImmediate .addic rt ra imm)
      (.arithmeticImmediate .addicRecord rt ra imm) rt
  | logical (op rs ra rb) :
    HasRecordForm (.logical op rs ra rb false) (.logical op rs ra rb true) ra
  | unary (op rs ra) : HasRecordForm (.unary op rs ra false) (.unary op rs ra true) ra
  | shift (op rs ra rb) : HasRecordForm (.shift op rs ra rb false) (.shift op rs ra rb true) ra
  | shiftRightAlgebraicImmediate (rs ra sh) :
    HasRecordForm (.shiftRightAlgebraicImmediate rs ra sh false)
      (.shiftRightAlgebraicImmediate rs ra sh true) ra
  | rotate (op rs ra mb me) :
    HasRecordForm (.rotate op rs ra mb me false) (.rotate op rs ra mb me true) ra

/-- Both forms fail alike and change nothing, or both succeed, the one without touching the
condition register and the other with the same result, recorded. -/
def OnlyRecords (plain recording : Instruction) (target : Gpr) (s : State) : Prop :=
  (∃ f, plain.execute s = (.error f, s) ∧ recording.execute s = (.error f, s)) ∨
  ∃ t u, plain.execute s = (.ok (), t) ∧ recording.execute s = (.ok (), u) ∧
    t.registers.cr = s.registers.cr ∧ u.memory = t.memory ∧
    t.registers.RecordedIn u.registers target

theorem onlyRecords_of_records {f g : Registers → Registers} (h : Records f g target)
    (hplain : plain.execute s = Exec.modifyRegisters f s)
    (hrecording : recording.execute s = Exec.modifyRegisters g s) :
    OnlyRecords plain recording target s := by
  obtain ⟨hcr, hrecord⟩ := h s.registers
  refine .inr ⟨{ s with registers := f s.registers }, { s with registers := g s.registers },
    hplain, hrecording, hcr, rfl, ?_⟩
  show (f s.registers).RecordedIn (g s.registers) target
  rw [hrecord]
  exact Registers.recordedIn_record _ _

theorem onlyRecords (h : HasRecordForm plain recording target) (s : State) :
    OnlyRecords plain recording target s := by
  cases h with
  | arithmetic op _ ra rb oe =>
    cases oe with
    | false => exact onlyRecords_of_records (Registers.arithmetic_records op target ra rb) rfl rfl
    | true => exact .inl ⟨_, rfl, rfl⟩
  | addic _ ra imm => exact onlyRecords_of_records (Registers.addic_records target ra imm) rfl rfl
  | logical op rs _ rb =>
    exact onlyRecords_of_records (Registers.logical_records op rs target rb) rfl rfl
  | unary op rs => exact onlyRecords_of_records (Registers.unary_records op rs target) rfl rfl
  | shift op rs _ rb =>
    exact onlyRecords_of_records (Registers.shift_records op rs target rb) rfl rfl
  | shiftRightAlgebraicImmediate rs _ sh =>
    exact onlyRecords_of_records
      (Registers.shiftRightAlgebraic_records rs target fun _ => sh.toNat) rfl rfl
  | rotate op rs _ mb me =>
    exact onlyRecords_of_records (Registers.rotate_records op rs target mb me) rfl rfl

theorem andImmediate_records {op : LogicalImmediateOp} (h : op.records = true) (rs ra : Gpr)
    (imm : Word) (s : State) : ∃ u, (logicalImmediate op rs ra imm).execute s = (.ok (), u) ∧
      u.memory = s.memory ∧
      (s.registers.setGpr ra (op.eval (s.registers.gpr rs) imm)).RecordedIn u.registers ra := by
  refine ⟨_, rfl, rfl, ?_⟩
  have hrecord := Registers.recordedIn_record
    (s.registers.setGpr ra (op.eval (s.registers.gpr rs) imm)) ra
  rw [Registers.gpr_setGpr_self] at hrecord
  simpa [Registers.logicalImmediate, Registers.recordIf, h] using hrecord

/-- The record bit makes an instruction record its result and do nothing else. The two that have no
such bit and record always do so in the same way. -/
theorem record_forms_only_record (s : State) :
    (∀ plain recording target, HasRecordForm plain recording target →
      OnlyRecords plain recording target s) ∧
    ∀ op rs ra imm, op = .andi ∨ op = .andis →
      ∃ u, (logicalImmediate op rs ra imm).execute s = (.ok (), u) ∧ u.memory = s.memory ∧
        (s.registers.setGpr ra (op.eval (s.registers.gpr rs) imm)).RecordedIn u.registers ra := by
  refine ⟨fun _ _ _ h => onlyRecords h s, fun op rs ra imm hop => ?_⟩
  rcases hop with rfl | rfl
  · exact andImmediate_records rfl rs ra imm s
  · exact andImmediate_records rfl rs ra imm s

/-- GT and SO of field 0 are set, and EQ of field 7. -/
def compared : State where
  registers := { (({} : Registers).setGpr 1 0x80000001).setGpr 3 1 with cr := .ofWord 0x50000002 }
  memory := .gamecube

/-- `sraw. r2, r1, r3` loses a bit of a negative number, so CA is set. Field 0 gets LT and keeps
SO. -/
theorem record_forms_only_record_sraw :
    OnlyRecords (.shift .sraw 1 2 3 false) (.shift .sraw 1 2 3 true) 2 compared ∧
    (((shift .sraw 1 2 3 true).execute compared).2.registers.gpr 2 = 0xC0000000 ∧
      ((shift .sraw 1 2 3 true).execute compared).2.registers.xer.ca = true ∧
      ((shift .sraw 1 2 3 true).execute compared).2.registers.cr.toWord = 0x90000002) :=
  ⟨(record_forms_only_record compared).1 _ _ _ (.shift .sraw 1 2 3), by decide⟩

end Instruction

end PowerPC
