import PowerPC.Machine.Basic
import PowerPC.Proofs.AccessLaws
import PowerPC.Proofs.PlaceLaws

/-!
# What an instruction may write

For every instruction the places of the register file and the cells of memory that it may change.
All else, and what belongs to the machine and not to its state, is after the instruction as it was
before.
-/

namespace PowerPC

namespace ArithmeticOp

def carries : ArithmeticOp → Bool
  | addc | adde | addze | addme | subfc | subfe | subfze | subfme => true
  | add | subf | neg | mullw | mulhw | mulhwu | divw | divwu => false

theorem isSome_carry (op : ArithmeticOp) (a b : Word) (ca : Bool) :
    (op.eval a b ca).2.isSome = op.carries := by
  cases op <;> rfl

end ArithmeticOp

namespace Instruction

-- ---------------------------------------------------------------------------
-- Write sets
-- ---------------------------------------------------------------------------

def WritesGpr : Instruction → Gpr → Prop
  | arithmeticImmediate _ rt _ _, r | arithmetic _ rt _ _ _ _, r | moveFromSpr rt _, r
  | moveFromCr rt, r => r = rt
  | logicalImmediate _ _ ra _, r | logical _ _ ra _ _, r | unary _ _ ra _, r
  | shift _ _ ra _ _, r | shiftRightAlgebraicImmediate _ ra _ _, r
  | rotate _ _ ra _ _ _, r => r = ra
  | load _ rt ea update, r => r = rt ∨ update = true ∧ r = ea.base
  | store _ _ ea update, r => update = true ∧ r = ea.base
  | loadMultiple rt _ _, r => rt ≤ r
  | _, _ => False

def records : Instruction → Bool
  | arithmeticImmediate op _ _ _ => op = .addicRecord
  | logicalImmediate op _ _ _ => op.records
  | arithmetic _ _ _ _ _ rc | logical _ _ _ _ rc | unary _ _ _ rc | shift _ _ _ _ rc
  | shiftRightAlgebraicImmediate _ _ _ rc | rotate _ _ _ _ _ rc => rc
  | _ => false

def WritesCrBit : Instruction → CrBit → Prop
  | crLogical _ bt _ _, b => b = bt
  | moveCrField bf _, b => b.field = bf
  | compare _ bf _ _, b => b.Compares bf
  | moveToCrFields fxm _, b => fxm.getMsbD b.field.val = true
  | i, b => i.records = true ∧ b.Compares 0

def carries : Instruction → Bool
  | arithmeticImmediate op _ _ _ => op = .addic ∨ op = .addicRecord ∨ op = .subfic
  | arithmetic op _ _ _ _ _ => op.carries
  | shift op _ _ _ _ => op = .sraw
  | shiftRightAlgebraicImmediate .. => true
  | _ => false

def WritesXerBit : Instruction → Fin 32 → Prop
  | moveToSpr spr _, _ => spr = .xer
  | i, weight => i.carries = true ∧ weight = 29

def WritesLr : Instruction → Prop
  | branch _ _ lk | branchConditional _ _ _ _ lk | branchToLr _ _ lk | branchToCtr _ _ lk =>
    lk = true
  | moveToSpr spr _ => spr = .lr
  | _ => False

def WritesCtr : Instruction → Prop
  | branchConditional bo _ _ _ _ | branchToLr bo _ _ => BranchOption.skipsCounter bo = false
  | moveToSpr spr _ => spr = .ctr
  | _ => False

def WritesPc : Instruction → Prop
  | branch .. | branchConditional .. | branchToLr .. | branchToCtr .. => True
  | _ => False

/-- The places that an instruction may write. -/
def Writes (i : Instruction) : Place → Prop
  | .gpr r => i.WritesGpr r
  | .crBit b => i.WritesCrBit b
  | .xerBit weight => i.WritesXerBit weight
  | .lr => i.WritesLr
  | .ctr => i.WritesCtr
  | .pc => i.WritesPc

def storeRange? (i : Instruction) (r : Registers) : Option (Word × Nat) :=
  match i with
  | store kind _ ea _ => some (r.effectiveAddress ea, kind.width)
  | storeMultiple rs ra d => some (r.effectiveAddress (.displaced ra d), 4 * (32 - rs.val))
  | _ => none

/-- One of the addresses that the instruction stores to stands for the cell. -/
def WritesCell (i : Instruction) (s : State) (c : Cell) : Prop :=
  ∃ a n, i.storeRange? s.registers = some (a, n) ∧
    ∃ k < n, Denotes s.memory.layout.regions (a + BitVec.ofNat 32 k) c

-- ---------------------------------------------------------------------------
-- Registers
-- ---------------------------------------------------------------------------

open Registers (AgreeOutside)

variable (r : Registers)

theorem arithmeticImmediate_agrees (op : ImmediateOp) (rt ra : Gpr) (imm : Word) :
    AgreeOutside (arithmeticImmediate op rt ra imm).Writes r
      (r.arithmeticImmediate op rt ra imm) := by
  have hr := AgreeOutside.refl (arithmeticImmediate op rt ra imm).Writes r
  cases op with
  | addi | addis | mulli => exact hr.setGpr rfl _
  | addic | subfic => exact (hr.setCarry ⟨rfl, rfl⟩ _).setGpr rfl _
  | addicRecord =>
    exact ((hr.setCarry ⟨rfl, rfl⟩ _).setGpr rfl _).recordField (fun b hb => ⟨rfl, hb⟩) _

theorem arithmetic_agrees (op : ArithmeticOp) (rt ra rb : Gpr) (oe rc : Bool) :
    AgreeOutside (arithmetic op rt ra rb oe rc).Writes r (r.arithmetic op rt ra rb rc) := by
  have hr := AgreeOutside.refl (arithmetic op rt ra rb oe rc).Writes r
  refine ((hr.setGpr rfl _).setCarry? fun hcarry => ?_).recordIf (fun hrc b hb => ⟨hrc, hb⟩) _
  exact ⟨(op.isSome_carry _ _ _).symm.trans hcarry, rfl⟩

theorem shiftRightAlgebraic_agrees {places : Place → Prop} {rs ra : Gpr} {rc : Bool}
    (hra : places (.gpr ra)) (hca : places (.xerBit 29))
    (hrc : rc = true → ∀ b : CrBit, b.Compares 0 → places (.crBit b)) (amount : Nat) :
    AgreeOutside places r (r.shiftRightAlgebraic rs ra amount rc) :=
  (((AgreeOutside.refl places r).setCarry hca _).setGpr hra _).recordIf hrc _

theorem shift_agrees (op : ShiftOp) (rs ra rb : Gpr) (rc : Bool) :
    AgreeOutside (shift op rs ra rb rc).Writes r (r.shift op rs ra rb rc) := by
  have hr := AgreeOutside.refl (shift op rs ra rb rc).Writes r
  cases op with
  | slw | srw => exact (hr.setGpr rfl _).recordIf (fun hrc b hb => ⟨hrc, hb⟩) _
  | sraw =>
    refine shiftRightAlgebraic_agrees r ?_ ?_ ?_ _
    · rfl
    · exact ⟨rfl, rfl⟩
    · exact fun hrc b hb => ⟨hrc, hb⟩

theorem setSpr_agrees (spr : Spr) (rs : Gpr) (w : Word) :
    AgreeOutside (moveToSpr spr rs).Writes r (r.setSpr spr w) := by
  have hr := AgreeOutside.refl (moveToSpr spr rs).Writes r
  cases spr with
  | xer => exact hr.setXer fun n hn => absurd rfl hn
  | lr => exact hr.setLr rfl w
  | ctr => exact hr.setCtr rfl w

theorem moveCrField_agrees (bf bfa : CrField) :
    AgreeOutside (moveCrField bf bfa).Writes r (r.moveCrField bf bfa) := by
  refine (AgreeOutside.refl _ r).setCr fun b hb => ?_
  rw [ConditionRegister.bit_set, if_neg (show ¬ b.field = bf from hb)]

theorem crLogical_agrees (op : LogicalOp) (bt ba bb : CrBit) :
    AgreeOutside (crLogical op bt ba bb).Writes r (r.crLogical op bt ba bb) := by
  refine (AgreeOutside.refl _ r).setCr fun b hb => ?_
  rw [ConditionRegister.bit_setBit, if_neg (show ¬ b = bt from hb)]

theorem moveToCrFields_agrees (fxm : Byte) (rs : Gpr) (w : Word) :
    AgreeOutside (moveToCrFields fxm rs).Writes r { r with cr := r.cr.load w fxm } := by
  refine (AgreeOutside.refl _ r).setCr fun b hb => ?_
  rw [ConditionRegister.bit, ConditionRegister.get_load,
    if_neg (show ¬ fxm.getMsbD b.field.val = true from hb)]
  rfl

theorem loads_agree (kind : LoadKind) (rt : Gpr) (ea : Addressing) (update : Bool) (a w : Word) :
    AgreeOutside (load kind rt ea update).Writes r ((r.setGpr rt w).updated update ea a) :=
  ((AgreeOutside.refl _ r).setGpr (.inl rfl) w).updated (fun hupdate => .inr ⟨hupdate, rfl⟩) a

-- ---------------------------------------------------------------------------
-- Memory
-- ---------------------------------------------------------------------------

variable {s t : State} {i : Instruction} {a : Word} {bytes : List Byte} {m : Memory}

theorem byte_write (hw : s.memory.write a bytes = .ok m)
    (hrange : i.storeRange? s.registers = some (a, bytes.length)) {c : Cell}
    (hc : ¬ i.WritesCell s c) : m.byte c = s.memory.byte c :=
  Memory.byte_write_of_not_denotes hw fun k hk hd => hc ⟨a, bytes.length, hrange, k, hk, hd⟩

-- ---------------------------------------------------------------------------
-- Instructions
-- ---------------------------------------------------------------------------

/-- The instruction has changed nothing that is not in its write sets. -/
structure Changes (i : Instruction) (s t : State) : Prop where
  registers : AgreeOutside i.Writes s.registers t.registers
  cells : ∀ c, ¬ i.WritesCell s c → t.memory.byte c = s.memory.byte c
  layout : t.memory.layout = s.memory.layout

theorem changes_of_modify {f : Registers → Registers}
    (h : Exec.modifyRegisters f s = (.ok (), t))
    (hf : AgreeOutside i.Writes s.registers (f s.registers)) : Changes i s t := by
  cases h
  exact ⟨hf, fun _ _ => rfl, rfl⟩

theorem load_changes {kind : LoadKind} {rt : Gpr} {ea : Addressing} {update : Bool}
    (h : Exec.load kind rt ea update s = (.ok (), t)) : Changes (load kind rt ea update) s t := by
  rw [Exec.load_run] at h
  obtain ⟨bytes, -, rfl⟩ := Exec.afterAccess_ok_iff.mp h
  exact ⟨loads_agree _ kind rt ea update _ _, fun _ _ => rfl, rfl⟩

theorem store_changes {kind : StoreKind} {rs : Gpr} {ea : Addressing} {update : Bool}
    (h : Exec.store kind rs ea update s = (.ok (), t)) : Changes (store kind rs ea update) s t := by
  rw [Exec.store_run] at h
  obtain ⟨memory, hw, rfl⟩ := Exec.afterAccess_ok_iff.mp h
  refine ⟨?_, fun c hc => byte_write hw ?_ hc, Memory.layout_write hw⟩
  · exact (AgreeOutside.refl _ _).updated (fun hupdate => ⟨hupdate, rfl⟩) _
  · rw [kind.length_bytes]
    rfl

theorem loadMultiple_changes {rt ra : Gpr} {d : Word}
    (h : Exec.loadMultiple rt ra d s = (.ok (), t)) : Changes (loadMultiple rt ra d) s t := by
  rw [Exec.loadMultiple_run] at h
  obtain ⟨bytes, -, rfl⟩ := Exec.afterAccess_ok_iff.mp h
  exact ⟨(AgreeOutside.refl _ _).loadWords (fun _ hi => hi) _, fun _ _ => rfl, rfl⟩

theorem storeMultiple_changes {rs ra : Gpr} {d : Word}
    (h : Exec.storeMultiple rs ra d s = (.ok (), t)) : Changes (storeMultiple rs ra d) s t := by
  rw [Exec.storeMultiple_run] at h
  obtain ⟨memory, hw, rfl⟩ := Exec.afterAccess_ok_iff.mp h
  refine ⟨AgreeOutside.refl _ _, fun c hc => byte_write hw ?_ hc, Memory.layout_write hw⟩
  rw [Registers.length_wordsFrom]
  rfl

theorem execute_changes (h : i.execute s = (.ok (), t)) : Changes i s t := by
  have hs := AgreeOutside.refl i.Writes s.registers
  rw [execute.eq_def] at h
  cases i with
  | branch offset aa lk => exact changes_of_modify h (hs.transfer id trivial _ _)
  | branchConditional bo bi offset aa lk =>
    exact changes_of_modify h ((hs.countDown id).transfer id trivial _ _)
  | branchToLr bo bi lk => exact changes_of_modify h ((hs.countDown id).transfer id trivial _ _)
  | branchToCtr bo bi lk => exact changes_of_modify h (hs.transfer id trivial _ _)
  | crLogical op bt ba bb => exact changes_of_modify h (crLogical_agrees _ op bt ba bb)
  | moveCrField bf bfa => exact changes_of_modify h (moveCrField_agrees _ bf bfa)
  | compare kind bf ra rhs => exact changes_of_modify h (hs.recordField (fun _ hb => hb) _)
  | arithmeticImmediate op rt ra imm =>
    exact changes_of_modify h (arithmeticImmediate_agrees _ op rt ra imm)
  | arithmetic op rt ra rb oe rc =>
    simp only at h
    split at h
    · cases h
    · exact changes_of_modify h (arithmetic_agrees _ op rt ra rb oe rc)
  | logicalImmediate op rs ra imm | logical op rs ra rb rc | unary op rs ra rc
  | rotate op rs ra mb me rc =>
    exact changes_of_modify h ((hs.setGpr rfl _).recordIf (fun hrc b hb => ⟨hrc, hb⟩) _)
  | shift op rs ra rb rc => exact changes_of_modify h (shift_agrees _ op rs ra rb rc)
  | shiftRightAlgebraicImmediate rs ra sh rc =>
    refine changes_of_modify h ?_
    refine shiftRightAlgebraic_agrees _ ?_ ?_ ?_ _
    · rfl
    · exact ⟨rfl, rfl⟩
    · exact fun hrc b hb => ⟨hrc, hb⟩
  | load kind rt ea update => exact load_changes h
  | store kind rs ea update => exact store_changes h
  | loadMultiple rt ra d => exact loadMultiple_changes h
  | storeMultiple rs ra d => exact storeMultiple_changes h
  | moveFromSpr rt spr | moveFromCr rt => exact changes_of_modify h (hs.setGpr rfl _)
  | moveToSpr spr rs => exact changes_of_modify h (setSpr_agrees _ spr rs _)
  | moveToCrFields fxm rs => exact changes_of_modify h (moveToCrFields_agrees _ fxm rs _)
  | sync | isync =>
    cases h
    exact ⟨hs, fun _ _ => rfl, rfl⟩

/-- An instruction that succeeds changes what is in its write sets, and nothing else of the whole
machine. -/
theorem execute_changes_only_writes {m m' : Machine} (h : Machine.execute i m = (.ok (), m')) :
    i.Changes m.toState m'.toState ∧ m'.count = m.count ∧ m'.sentinel = m.sentinel ∧
      m'.stop = m.stop ∧ m'.dumpDir = m.dumpDir := by
  have hm' : { m with toState := (i.execute m.toState).2 } = m' := congrArg Prod.snd h
  have hresult : (i.execute m.toState).1 = .ok () := congrArg Prod.fst h
  have hs : i.execute m.toState = (.ok (), m'.toState) :=
    Prod.ext hresult (congrArg Machine.toState hm')
  refine ⟨execute_changes hs, ?_⟩
  rw [← hm']
  exact ⟨rfl, rfl, rfl, rfl⟩

end Instruction

/-- The stack pointer points into memory. -/
def Machine.onStack : Machine where
  memory := .gamecube
  registers := ({} : Registers).setGpr 1 0x80001000

/-- `stwu r1, -16(r1)` stores the stack pointer and then moves it. -/
theorem Instruction.execute_changes_only_writes_stwu :
    ∃ m', Machine.execute (.store .word 1 (.displaced 1 (-16)) true) Machine.onStack =
        (.ok (), m') ∧
      (Instruction.store .word 1 (.displaced 1 (-16)) true).Changes Machine.onStack.toState
        m'.toState ∧
      m'.registers.gpr 1 = 0x80000FF0 ∧ m'.memory.byte ⟨0, 0xFF2⟩ = 0x10 :=
  ⟨_, rfl, (execute_changes_only_writes rfl).1, rfl, rfl⟩

end PowerPC
