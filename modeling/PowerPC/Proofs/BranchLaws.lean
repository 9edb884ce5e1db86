import PowerPC.Proofs.DecodeLaws
import PowerPC.Proofs.StepLaws
import PowerPC.Proofs.WriteLaws

/-!
# Branches read off their words

A branch word tells, bit by bit, what the step at it does: it counts CTR down or not, goes to its
target or to the next word, and saves the address of the next word or not. Nothing else changes.
-/

namespace PowerPC

inductive BranchKind where
  | always | conditional | toLr | toCtr
deriving DecidableEq, Repr

variable {w : Word} {kind : BranchKind}

-- ---------------------------------------------------------------------------
-- The bits of a branch word
-- ---------------------------------------------------------------------------

namespace Word

def Aligned (w : Word) : Prop := w.toNat % 4 = 0

instance (w : Word) : Decidable w.Aligned := inferInstanceAs (Decidable (_ = _))

/-- The word is a branch of the kind. One to CTR must not count CTR down. -/
def IsBranch (w : Word) : BranchKind → Prop
  | .always => w.primary = 18
  | .conditional => w.primary = 16
  | .toLr => w.primary = 19 ∧ w.field 21 10 = 16
  | .toCtr => w.primary = 19 ∧ w.field 21 10 = 528 ∧ w.bit 8 = true

def branchCtr (w : Word) (kind : BranchKind) (r : Registers) : Word :=
  if (kind = .conditional ∨ kind = .toLr) ∧ w.bit 8 = false then r.ctr - 1 else r.ctr

/-- The new CTR and one bit of the condition register let the branch go. -/
def BranchTaken (w : Word) (kind : BranchKind) (r : Registers) : Prop :=
  kind = .always ∨
    ((kind = .toCtr ∨ w.bit 8 = true ∨ (w.branchCtr kind r = 0 ↔ w.bit 9 = true)) ∧
      (w.bit 6 = true ∨ r.cr.bit (w.field 11 5).toFin = w.bit 7))

instance (r : Registers) : Decidable (w.BranchTaken kind r) := inferInstanceAs (Decidable (_ ∨ _))

/-- What a distance is counted from: the branch itself, or zero if the target is absolute. -/
def branchOrigin (w : Word) (r : Registers) : Nat := if w.bit 30 then 0 else r.pc.toNat

/-- Where the branch goes if it is taken. Distances are signed and counted in words. -/
def branchTarget (w : Word) (kind : BranchKind) (r : Registers) : Word :=
  match kind with
  | .always => BitVec.ofInt 32 ((w.field 6 24).toInt * 4 + w.branchOrigin r)
  | .conditional => BitVec.ofInt 32 ((w.field 16 14).toInt * 4 + w.branchOrigin r)
  | .toLr => BitVec.ofNat 32 (r.lr.toNat / 4 * 4)
  | .toCtr => BitVec.ofNat 32 (r.ctr.toNat / 4 * 4)

/-- The registers after the branch at PC. -/
def afterBranch (w : Word) (kind : BranchKind) (r : Registers) : Registers :=
  { r with
    pc := if w.BranchTaken kind r then w.branchTarget kind r else r.pc + 4
    lr := if w.bit 31 then r.pc + 4 else r.lr
    ctr := w.branchCtr kind r }

end Word

-- ---------------------------------------------------------------------------
-- Decoding
-- ---------------------------------------------------------------------------

namespace Word

def branchInstruction (w : Word) : BranchKind → Instruction
  | .always => .branch ((w.field 6 24).signExtend 32 <<< 2) (w.bit 30) (w.bit 31)
  | .conditional =>
    .branchConditional ((w.field 6 5).setWidth 8) (.ofOperand (w.field 11 5))
      ((w.field 16 14).signExtend 32 <<< 2) (w.bit 30) (w.bit 31)
  | .toLr => .branchToLr ((w.field 6 5).setWidth 8) (.ofOperand (w.field 11 5)) (w.bit 31)
  | .toCtr => .branchToCtr ((w.field 6 5).setWidth 8) (.ofOperand (w.field 11 5)) (w.bit 31)

theorem getLsbD_branchOption {n : Nat} (hn : n < 5) :
    ((w.field 6 5).setWidth 8).getLsbD n = w.bit (10 - n) := by
  rw [BitVec.getLsbD_setWidth, getLsbD_field w (by decide) hn, bit, BitVec.getMsbD]
  simp only [show n < 8 by omega, show 10 - n < 32 by omega, decide_true, Bool.true_and]
  congr 1
  omega

theorem decode_of_isBranch (h : w.IsBranch kind) :
    Instruction.decode w = .ok (w.branchInstruction kind) := by
  have hdecode {c : Opcode.Code} {op : Opcode} (hop : c.opcode? = some op)
      (hw : ∀ f ∈ c.fields, f.HeldBy w) : Instruction.decode w = op.decode w := by
    rw [Instruction.decode, Opcode.ofWord?_of_code hop hw]
  cases kind with
  | always => exact hdecode (c := .primary 18) rfl (Opcode.Code.heldBy_iff.mpr h)
  | conditional => exact hdecode (c := .primary 16) rfl (Opcode.Code.heldBy_iff.mpr h)
  | toLr => exact hdecode (c := .xl 16) rfl (Opcode.Code.heldBy_iff.mpr h)
  | toCtr =>
    obtain ⟨hprimary, hxo, hcount⟩ := h
    rw [hdecode (c := .xl 528) rfl (Opcode.Code.heldBy_iff.mpr ⟨hprimary, hxo⟩)]
    exact if_pos ((getLsbD_branchOption (by decide)).trans hcount)

theorem exists_isBranch {i : Instruction} (hi : Instruction.decode w = .ok i)
    (hbranch : i.WritesPc) : ∃ kind, w.IsBranch kind := by
  -- A word that decodes holds the code of its instruction, and to CTR the option that was allowed.
  obtain ⟨⟨hbounds, hallowed⟩, hfields⟩ := Instruction.decode_ok_iff.mp hi
  have hheld {c : Opcode.Code} (hc : i.opcode.code? = some c) :=
    (Instruction.heldBy_fields_iff hc).mp hfields
  cases i with
  | branch offset aa lk =>
    exact ⟨.always, Opcode.Code.heldBy_iff.mp (hheld (c := .primary 18) rfl).1⟩
  | branchConditional bo bi offset aa lk =>
    exact ⟨.conditional, Opcode.Code.heldBy_iff.mp (hheld (c := .primary 16) rfl).1⟩
  | branchToLr bo bi lk =>
    exact ⟨.toLr, Opcode.Code.heldBy_iff.mp (hheld (c := .xl 16) rfl).1⟩
  | branchToCtr bo bi lk =>
    obtain ⟨hcode, hoperands⟩ := hheld (c := .xl 528) rfl
    obtain ⟨hprimary, hxo⟩ := Opcode.Code.heldBy_iff.mp hcode
    have hbo : (w.field 6 5).setWidth 8 = bo :=
      amount_eq_iff.mpr ⟨hbounds, hoperands _ List.mem_cons_self⟩
    have hcount : w.bit (10 - 2) = true := by
      rw [← getLsbD_branchOption (by decide), hbo]
      exact hallowed
    exact ⟨.toCtr, hprimary, hxo, hcount⟩
  | _ => exact absurd hbranch id

end Word

-- ---------------------------------------------------------------------------
-- Targets
-- ---------------------------------------------------------------------------

theorem Word.toNat_alignDown (w : Word) : w.alignDown.toNat = w.toNat / 4 * 4 := by
  have hmask : w.alignDown = w >>> 2 <<< 2 := by
    refine BitVec.eq_of_getLsbD_eq fun i hi => ?_
    have hlow : ∀ i < 32, (~~~3#32).getLsbD i = !decide (i < 2) := by decide
    rw [alignDown, BitVec.getLsbD_and, hlow i hi]
    by_cases h : i < 2
    · simp [h]
    · simp [h, hi, show 2 + (i - 2) = i by omega]
  have hlt := w.isLt
  rw [hmask, BitVec.toNat_shiftLeft, BitVec.toNat_ushiftRight, Nat.shiftRight_eq_div_pow,
    Nat.shiftLeft_eq, Nat.mod_eq_of_lt (by omega)]

theorem Word.alignDown_eq (w : Word) : w.alignDown = BitVec.ofNat 32 (w.toNat / 4 * 4) := by
  rw [← w.toNat_alignDown, BitVec.ofNat_toNat, BitVec.setWidth_eq]

namespace Registers

variable (r : Registers) (bo : Byte) (bi : CrBit)

def next : Registers := { r with pc := r.pc + 4 }

theorem branchTarget_next (offset : Word) (aa : Bool) :
    r.next.branchTarget offset aa = if aa then offset else r.pc + offset := by
  have hback : r.next.pc - 4 = r.pc := BitVec.add_sub_cancel r.pc 4
  rw [branchTarget, hback]

theorem branchTarget_word {n : Nat} (x : BitVec n) (hn : n + 2 ≤ 32) :
    r.next.branchTarget (x.signExtend 32 <<< 2) (w.bit 30) =
      BitVec.ofInt 32 (x.toInt * 4 + w.branchOrigin r) := by
  have hdistance : BitVec.ofInt 32 (x.toInt * 4) = x.signExtend 32 <<< 2 := by
    rw [← Word.toInt_signExtend_shiftLeft x hn, BitVec.ofInt_toInt]
  rw [branchTarget_next, BitVec.ofInt_add, hdistance, Word.branchOrigin]
  cases w.bit 30 with
  | true => simp
  | false => simp [BitVec.add_comm]

-- ---------------------------------------------------------------------------
-- Branches that count CTR down
-- ---------------------------------------------------------------------------

def countedCtr : Word := (r.countDown bo).1.ctr

def lets : Bool := (r.countDown bo).2 && (r.countDown bo).1.conditionHolds bo bi

theorem countDown_fst : (r.countDown bo).1 = { r with ctr := r.countedCtr bo } := by
  unfold countedCtr countDown
  cases BranchOption.skipsCounter bo <;> rfl

theorem branchConditional_eq (offset : Word) (aa lk : Bool) :
    r.branchConditional bo bi offset aa lk =
      { r with ctr := r.countedCtr bo }.transfer (r.lets bo bi) (r.branchTarget offset aa) lk := by
  have htarget : (r.countDown bo).1.branchTarget offset aa = r.branchTarget offset aa := by
    rw [countDown_fst]
    rfl
  rw [← countDown_fst, ← htarget]
  rfl

theorem branchToLr_eq (lk : Bool) :
    r.branchToLr bo bi lk =
      { r with ctr := r.countedCtr bo }.transfer (r.lets bo bi) r.lr.alignDown lk := by
  have hlr : (r.countDown bo).1.lr = r.lr := by rw [countDown_fst]
  rw [← countDown_fst, ← hlr]
  rfl

-- ---------------------------------------------------------------------------
-- Options and bits in a word
-- ---------------------------------------------------------------------------

theorem countedCtr_word (hkind : kind = .conditional ∨ kind = .toLr) :
    r.next.countedCtr ((w.field 6 5).setWidth 8) = w.branchCtr kind r := by
  have hskip : BranchOption.skipsCounter ((w.field 6 5).setWidth 8) = w.bit 8 :=
    Word.getLsbD_branchOption (by decide)
  rw [countedCtr, countDown, hskip, Word.branchCtr]
  cases w.bit 8 with
  | true => simp [next]
  | false => simp [next, hkind]

/-- One bit of the condition register has to be as bit 7 says, unless bit 6 is set. -/
theorem conditionHolds_word :
    r.conditionHolds ((w.field 6 5).setWidth 8) (.ofOperand (w.field 11 5)) = true ↔
      w.bit 6 = true ∨ r.cr.bit (w.field 11 5).toFin = w.bit 7 := by
  have hskip : BranchOption.skipsCondition ((w.field 6 5).setWidth 8) = w.bit 6 :=
    Word.getLsbD_branchOption (by decide)
  have hset : BranchOption.onSet ((w.field 6 5).setWidth 8) = w.bit 7 :=
    Word.getLsbD_branchOption (by decide)
  rw [conditionHolds, hskip, hset, Bool.or_eq_true, beq_iff_eq]
  exact Iff.rfl

/-- If CTR is counted down, bit 9 says whether it has to be zero then. -/
theorem lets_word (hkind : kind = .conditional ∨ kind = .toLr) :
    r.next.lets ((w.field 6 5).setWidth 8) (.ofOperand (w.field 11 5)) = true ↔
      w.BranchTaken kind r := by
  have hskip : BranchOption.skipsCounter ((w.field 6 5).setWidth 8) = w.bit 8 :=
    Word.getLsbD_branchOption (by decide)
  have hzero : BranchOption.onZero ((w.field 6 5).setWidth 8) = w.bit 9 :=
    Word.getLsbD_branchOption (by decide)
  have hnot : kind ≠ .always ∧ kind ≠ .toCtr := by rcases hkind with rfl | rfl <;> decide
  have hcounter : (r.next.countDown ((w.field 6 5).setWidth 8)).2 = true ↔
      w.bit 8 = true ∨ (w.branchCtr kind r = 0 ↔ w.bit 9 = true) := by
    rw [← countedCtr_word r hkind, countedCtr, countDown, hskip, hzero]
    cases w.bit 8 with
    | true => simp
    | false =>
      simp only [Bool.false_eq_true, if_false, false_or]
      rw [beq_iff_eq, Bool.eq_iff_iff, decide_eq_true_eq]
  rw [lets, Bool.and_eq_true, hcounter, countDown_fst, conditionHolds_word, Word.BranchTaken]
  simp only [hnot.1, hnot.2, false_or]
  exact Iff.rfl

-- ---------------------------------------------------------------------------
-- Registers after a branch word
-- ---------------------------------------------------------------------------

theorem transfer_word {taken : Bool} (h : taken = true ↔ w.BranchTaken kind r) :
    { r.next with ctr := w.branchCtr kind r }.transfer taken (w.branchTarget kind r) (w.bit 31) =
      w.afterBranch kind r := by
  simp only [transfer, h]
  rfl

theorem branch_word :
    r.next.branch ((w.field 6 24).signExtend 32 <<< 2) (w.bit 30) (w.bit 31) =
      w.afterBranch .always r := by
  have hgo : true = true ↔ w.BranchTaken .always r := by simp [Word.BranchTaken]
  rw [← transfer_word r hgo, branch, branchTarget_word r _ (by decide)]
  rfl

theorem branchConditional_word :
    r.next.branchConditional ((w.field 6 5).setWidth 8) (.ofOperand (w.field 11 5))
        ((w.field 16 14).signExtend 32 <<< 2) (w.bit 30) (w.bit 31) =
      w.afterBranch .conditional r := by
  rw [branchConditional_eq, countedCtr_word r (.inl rfl), branchTarget_word r _ (by decide)]
  exact transfer_word r (lets_word r (.inl rfl))

theorem branchToLr_word :
    r.next.branchToLr ((w.field 6 5).setWidth 8) (.ofOperand (w.field 11 5)) (w.bit 31) =
      w.afterBranch .toLr r := by
  have htarget : r.next.lr.alignDown = w.branchTarget .toLr r := Word.alignDown_eq r.lr
  rw [branchToLr_eq, countedCtr_word r (.inr rfl), htarget]
  exact transfer_word r (lets_word r (.inr rfl))

theorem branchToCtr_word :
    r.next.branchToCtr ((w.field 6 5).setWidth 8) (.ofOperand (w.field 11 5)) (w.bit 31) =
      w.afterBranch .toCtr r := by
  have htarget : r.next.ctr.alignDown = w.branchTarget .toCtr r := Word.alignDown_eq r.ctr
  have htaken : r.next.conditionHolds ((w.field 6 5).setWidth 8) (.ofOperand (w.field 11 5)) =
      true ↔ w.BranchTaken .toCtr r := by
    rw [conditionHolds_word, Word.BranchTaken]
    simp only [reduceCtorEq, true_or, true_and, false_or]
    exact Iff.rfl
  rw [branchToCtr, htarget]
  exact transfer_word r htaken

end Registers

-- ---------------------------------------------------------------------------
-- Steps
-- ---------------------------------------------------------------------------

theorem Word.execute_branchInstruction (w : Word) (kind : BranchKind) (r : Registers)
    (memory : Memory) :
    (w.branchInstruction kind).execute { registers := r.next, memory } =
      (.ok (), { registers := w.afterBranch kind r, memory }) := by
  cases kind with
  | always =>
    rw [branchInstruction, Instruction.execute, Exec.modifyRegisters_run, Registers.branch_word]
  | conditional =>
    rw [branchInstruction, Instruction.execute, Exec.modifyRegisters_run,
      Registers.branchConditional_word]
  | toLr =>
    rw [branchInstruction, Instruction.execute, Exec.modifyRegisters_run, Registers.branchToLr_word]
  | toCtr =>
    rw [branchInstruction, Instruction.execute, Exec.modifyRegisters_run,
      Registers.branchToCtr_word]

namespace Machine

theorem fetch_of_read {s : State} (hpc : s.registers.pc.Aligned)
    (hw : s.memory.read32 s.registers.pc = .ok w) : fetch s = .ok w := by
  have hzero : s.registers.pc.toNat % 4 = 0 := hpc
  simp only [fetch, hzero, hw, ne_eq, not_true_eq_false, if_false]

theorem fetchInstruction_of_read {s : State} (hpc : s.registers.pc.Aligned)
    (hw : s.memory.read32 s.registers.pc = .ok w) : fetchInstruction s = Instruction.decode w := by
  rw [fetchInstruction_run, fetch_of_read hpc hw]

/-- A step at a branch word succeeds. Of the machine it changes PC, LR, CTR and the count, as the
bits of the word say. -/
theorem step_branch {m : Machine} (hpc : m.registers.pc.Aligned)
    (hw : m.memory.read32 m.registers.pc = .ok w) (hkind : w.IsBranch kind) :
    ∃ i, step m = (.ok i,
      { m with registers := w.afterBranch kind m.registers, count := m.count + 1 }) := by
  have hfetch : fetchInstruction m.toState = .ok (w.branchInstruction kind) := by
    rw [fetchInstruction_of_read hpc hw, Word.decode_of_isBranch hkind]
  exact ⟨_, step_of_execute_ok hfetch
    (w.execute_branchInstruction kind m.registers m.memory)⟩

/-- `bdnzl .+8` in the last word of the address space, with nothing left to count. -/
def countingPastEnd : Machine where
  memory := ({ layout := Memory.touching } : Memory).store ⟨1, 0xFFC⟩ [0x42, 0x00, 0x00, 0x09]
  registers := { pc := 0xFFFFFFFC }

/-- CTR, the target and the saved address all go round the end. -/
theorem step_branch_wrapping :
    countingPastEnd.registers.pc.Aligned ∧
    countingPastEnd.memory.read32 countingPastEnd.registers.pc = .ok 0x42000009 ∧
    Word.IsBranch 0x42000009 .conditional ∧
    (∃ i, step countingPastEnd = (.ok i, { countingPastEnd with
      registers := Word.afterBranch 0x42000009 .conditional countingPastEnd.registers
      count := 1 })) ∧
    Word.afterBranch 0x42000009 .conditional countingPastEnd.registers =
      { pc := 4, ctr := 0xFFFFFFFF } :=
  ⟨by decide, rfl, rfl, step_branch (by decide) rfl rfl, by decide⟩

end Machine

end PowerPC
