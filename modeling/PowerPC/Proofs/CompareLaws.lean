import PowerPC.Proofs.AlignmentLaws
import PowerPC.Proofs.ConditionLaws

/-!
# A compare and the branch after it

A compare leaves in its field which of two numbers is the greater, and the branch that tests a bit
of the field is taken as the numbers say. Bits that the compare does not write still say what they
said before.
-/

namespace PowerPC

-- ---------------------------------------------------------------------------
-- What is compared
-- ---------------------------------------------------------------------------

def Registers.comparand (r : Registers) : CompareOperand → Word
  | .gpr rb => r.gpr rb
  | .immediate value => value

/-- The number that a compare word has a register compared with: that of another register under
primary opcode 31, else of the low half of the word. -/
def Word.comparand (w : Word) (kind : Comparison) (r : Registers) : Int :=
  if w.primary = 31 then kind.value (r.gpr (w.field 16 5).toFin) else kind.value (w.field 16 16)

theorem Registers.compare_eq (r : Registers) (kind : Comparison) (bf : CrField) (ra : Gpr)
    (rhs : CompareOperand) : r.compare kind bf ra rhs =
      { r with cr := r.cr.record bf (kind.order (r.gpr ra) (r.comparand rhs)) } := by
  cases kind <;> cases rhs <;> rfl

section

variable {w : Word} {kind : Comparison} {bf : CrField} {ra : Gpr} {rhs : CompareOperand}

theorem Word.comparand_eq (r : Registers)
    (h : Instruction.decode w = .ok (.compare kind bf ra rhs)) :
    ra = (w.field 11 5).toFin ∧ kind.value (r.comparand rhs) = w.comparand kind r := by
  obtain ⟨op, hop, hdecode⟩ := Instruction.decode_ok_iff_opcode.mp h
  obtain rfl := Opcode.opcode_of_decode hdecode
  obtain ⟨c, hc, hcode⟩ := Opcode.ofWord?_eq_some_iff.mp hop
  rw [Opcode.Code.heldBy_iff] at hcode
  cases rhs with
  | gpr rb =>
    have hprimary : w.primary = 31 := by
      cases kind <;> cases hc <;> exact hcode.1
    cases hdecode
    refine ⟨rfl, ?_⟩
    rw [comparand, if_pos hprimary]
    rfl
  | immediate value =>
    have hprimary : w.primary ≠ 31 := by
      cases kind <;> cases hc <;> simp [hcode]
    rw [comparand, if_neg hprimary]
    cases kind with
    | signed =>
      cases hdecode
      exact ⟨rfl, BitVec.toInt_signExtend_of_le (by decide)⟩
    | logical =>
      cases hdecode
      refine ⟨rfl, ?_⟩
      show (((w.field 16 16).setWidth 32).toNat : Int) = (w.field 16 16).toNat
      rw [BitVec.toNat_setWidth_of_le (by decide)]

end

-- ---------------------------------------------------------------------------
-- What the branch tests
-- ---------------------------------------------------------------------------

/-- What a bit of the condition register says once `x` has been compared with `y` into a field. -/
def CrBit.SaysAfter (b : CrBit) (f : CrField) (x y : Int) (cr : ConditionRegister) : Prop :=
  if b.val = 4 * f.val then x < y
  else if b.val = 4 * f.val + 1 then x > y
  else if b.val = 4 * f.val + 2 then x = y
  else cr.bit b = true

instance (b : CrBit) (f : CrField) (x y : Int) (cr : ConditionRegister) :
    Decidable (b.SaysAfter f x y cr) :=
  inferInstanceAs (Decidable (ite _ _ _))

theorem ConditionRegister.bit_record (cr : ConditionRegister) (f : CrField) (b : CrBit)
    (x y : Int) : (cr.record f (compare x y)).bit b = true ↔ b.SaysAfter f x y cr := by
  have hfield : b.field.val = b.val / 4 := rfl
  have hplace : b.place.val = b.val % 4 := rfl
  rw [record, bit_set, CrBit.SaysAfter]
  by_cases h : b.field = f
  · subst h
    rw [if_pos rfl]
    have hcases : b.place.val = 0 ∨ b.place.val = 1 ∨ b.place.val = 2 ∨ b.place.val = 3 := by
      omega
    rcases hcases with hval | hval | hval | hval
    · have hp : b.place = 0 := Fin.ext hval
      rw [if_pos (by omega), hp]
      simp [Condition.ofOrdering, Condition.flag, Int.compare_eq_lt]
    · have hp : b.place = 1 := Fin.ext hval
      rw [if_neg (by omega), if_pos (by omega), hp]
      simp [Condition.ofOrdering, Condition.flag, Int.compare_eq_gt]
    · have hp : b.place = 2 := Fin.ext hval
      rw [if_neg (by omega), if_neg (by omega), if_pos (by omega), hp]
      simp [Condition.ofOrdering, Condition.flag]
    · have hp : b.place = 3 := Fin.ext hval
      rw [if_neg (by omega), if_neg (by omega), if_neg (by omega), bit, hp]
      rfl
  · rw [if_neg h, if_neg, if_neg, if_neg]
    all_goals
      intro heq
      exact h (Fin.ext (by omega))

namespace Registers

variable {r : Registers} {bo : Byte}

theorem pc_branchConditional (hcondition : BranchOption.skipsCondition bo = false)
    (hcounter : BranchOption.skipsCounter bo = true) (bi : CrBit) (offset : Word) (aa lk : Bool) :
    (r.branchConditional bo bi offset aa lk).pc =
      if r.cr.bit bi = BranchOption.onSet bo then r.branchTarget offset aa else r.pc := by
  simp [branchConditional, countDown, transfer, conditionHolds, hcondition, hcounter]

end Registers

-- ---------------------------------------------------------------------------
-- Two steps
-- ---------------------------------------------------------------------------

namespace Machine

variable {m : Machine} {w w' : Word} {kind : Comparison} {bf : CrField} {ra : Gpr}
  {rhs : CompareOperand} {bo : Byte} {bi : CrBit} {offset : Word} {aa lk : Bool}

theorem exists_step_of_modify {i : Instruction} {f : Registers → Registers}
    (hpc : m.registers.pc.Aligned) (hw : m.memory.read32 m.registers.pc = .ok w)
    (hi : Instruction.decode w = .ok i) (hexecute : i.execute = Exec.modifyRegisters f) :
    ∃ t, step m = (.ok i, t) ∧ t.registers = f m.registers.next ∧ t.memory = m.memory := by
  refine ⟨_, step_of_execute_ok (s := { m.toState with registers := f m.registers.next }) ?_ ?_,
    rfl, rfl⟩
  · rw [fetchInstruction_of_read hpc hw, hi]
  · rw [hexecute]
    rfl

/-- A branch that tests one bit of the condition register and leaves CTR alone, after a compare of
any kind: if the bit is one of the three that the compare wrote, the order of the two numbers
decides, and if not, the bit as it was before. -/
theorem step_compare_branch (hpc : m.registers.pc.Aligned)
    (hw : m.memory.read32 m.registers.pc = .ok w)
    (hcompare : Instruction.decode w = .ok (.compare kind bf ra rhs))
    (hw' : m.memory.read32 (m.registers.pc + 4) = .ok w')
    (hbranch : Instruction.decode w' = .ok (.branchConditional bo bi offset aa lk))
    (hcondition : BranchOption.skipsCondition bo = false)
    (hcounter : BranchOption.skipsCounter bo = true) :
    ∃ t u, step m = (.ok (.compare kind bf ra rhs), t) ∧
      step t = (.ok (.branchConditional bo bi offset aa lk), u) ∧
      u.registers.pc =
        if bi.SaysAfter bf (kind.value (m.registers.gpr (w.field 11 5).toFin))
            (w.comparand kind m.registers) m.registers.cr ↔ BranchOption.onSet bo = true then
          if aa then offset else m.registers.pc + 4 + offset
        else m.registers.pc + 8 := by
  obtain ⟨hra, hrhs⟩ := Word.comparand_eq m.registers hcompare
  obtain ⟨t, hfirst, ht, hmemory⟩ := exists_step_of_modify
    (f := fun r => r.compare kind bf ra rhs) hpc hw hcompare rfl
  have htpc : t.registers.pc = m.registers.pc + 4 := congrArg Registers.pc ht
  have hskip : m.registers.pc + 4 + 4 = m.registers.pc + 8 := BitVec.add_assoc _ 4 4
  obtain ⟨u, hsecond, hu, -⟩ := exists_step_of_modify (m := t)
    (f := fun r => r.branchConditional bo bi offset aa lk)
    (htpc ▸ hpc.next) (hmemory ▸ htpc ▸ hw') hbranch rfl
  have hcr : t.registers.cr.bit bi = true ↔
      bi.SaysAfter bf (kind.value (m.registers.gpr ra)) (kind.value (m.registers.comparand rhs))
        m.registers.cr := by
    rw [← ConditionRegister.bit_record, ← Comparison.order_eq, ht, Registers.compare_eq]
    rfl
  refine ⟨t, u, hfirst, hsecond, ?_⟩
  rw [hu, Registers.pc_branchConditional hcondition hcounter, Registers.branchTarget_next, ← hra,
    ← hrhs]
  simp only [← hcr, ← Bool.eq_iff_iff]
  show (if t.registers.cr.bit bi = _ then _ else t.registers.pc + 4) = _
  rw [htpc, hskip]

/-- `cmplwi cr7, r4, 0xFFFF` and `bgt cr7, .+8`, with a negative number in r4. -/
def comparingUnsigned : Machine where
  memory := Memory.gamecube.store ⟨0, 0⟩ [0x2B, 0x84, 0xFF, 0xFF, 0x41, 0x9D, 0x00, 0x08]
  registers := { ({} : Registers).setGpr 4 0x80000000 with pc := 0x80000000 }

/-- Read as unsigned, the number is the greater, so the branch is taken. -/
theorem step_compare_branch_unsigned :
    comparingUnsigned.registers.pc.Aligned ∧
    comparingUnsigned.memory.read32 comparingUnsigned.registers.pc = .ok 0x2B84FFFF ∧
    comparingUnsigned.memory.read32 (comparingUnsigned.registers.pc + 4) = .ok 0x419D0008 ∧
    Instruction.decode 0x2B84FFFF = .ok (.compare .logical 7 4 (.immediate 0xFFFF)) ∧
    Instruction.decode 0x419D0008 = .ok (.branchConditional 0x0C 29 8 false false) ∧
    CrBit.SaysAfter 29 7 0x80000000 0xFFFF {} ∧
    ∃ t u, step comparingUnsigned = (.ok (.compare .logical 7 4 (.immediate 0xFFFF)), t) ∧
      step t = (.ok (.branchConditional 0x0C 29 8 false false), u) ∧
      u.registers.pc = 0x8000000C := by
  have hpc : comparingUnsigned.registers.pc.Aligned := by decide
  have hw : comparingUnsigned.memory.read32 comparingUnsigned.registers.pc = .ok 0x2B84FFFF := rfl
  have hw' : comparingUnsigned.memory.read32 (comparingUnsigned.registers.pc + 4) =
      .ok 0x419D0008 := rfl
  obtain ⟨t, u, hfirst, hsecond, hu⟩ := step_compare_branch hpc hw rfl hw' rfl (by decide)
    (by decide)
  exact ⟨hpc, hw, hw', rfl, rfl, by decide, t, u, hfirst, hsecond, hu⟩

end Machine

end PowerPC
