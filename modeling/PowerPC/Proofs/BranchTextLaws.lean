import PowerPC.Proofs.AssemblyLaws
import PowerPC.Proofs.BranchLaws

/-!
# Branches read off their texts

The text of a branch at an address shows what the branch tests, whether it links, and, unless it
goes to a register, the address that it goes to. A reader who takes the text at its word is right
about PC, CTR and LR after the step.
-/

namespace PowerPC

-- ---------------------------------------------------------------------------
-- What a text shows
-- ---------------------------------------------------------------------------

/-- The test that a text shows. The flag is one of a condition register field; a test of both a bit
and the counter is shown as numbers, and not explained. -/
inductive ShownTest where
  | always
  | flag (f : CrField) (place : Fin 4) (onSet : Bool)
  | counter (onZero : Bool)
  | both (bo bi : Nat)
deriving DecidableEq, Repr

inductive ShownBranch where
  | toAddress (test : ShownTest) (lk aa : Bool) (target : Word)
  | toLr (test : ShownTest) (lk : Bool)
  | toCtr (test : ShownTest) (lk : Bool)
deriving DecidableEq, Repr

namespace ShownTest

def inMnemonic : ShownTest → BranchTest
  | always => .always
  | flag _ place onSet => .flag place onSet
  | counter onZero => .counter onZero
  | both _ _ => .both

def operands : ShownTest → List Operand
  | always | counter _ => []
  | flag f _ _ => [.crField f]
  | both bo bi => [.number bo, .number bi]

def countsDown : ShownTest → Bool
  | always | flag _ _ _ => false
  | counter _ | both _ _ => true

/-- What the test says about whether the branch is taken, CTR being read after it is counted. -/
def Says (t : ShownTest) (taken : Bool) (cr : ConditionRegister) (ctr : Word) : Prop :=
  match t with
  | always => taken = true
  | flag f place onSet => taken = true ↔ (cr.get f).flag place = onSet
  | counter onZero => taken = true ↔ (ctr = 0 ↔ onZero = true)
  | both _ _ => True

end ShownTest

namespace ShownBranch

def test : ShownBranch → ShownTest
  | toAddress t _ _ _ | toLr t _ | toCtr t _ => t

def links : ShownBranch → Bool
  | toAddress _ lk _ _ | toLr _ lk | toCtr _ lk => lk

def destination (b : ShownBranch) (r : Registers) : Word :=
  match b with
  | toAddress _ _ _ target => target
  | toLr _ _ => r.lr.alignDown
  | toCtr _ _ => r.ctr.alignDown

def mnemonic : ShownBranch → Mnemonic
  | toAddress t lk aa _ => .branch t.inMnemonic lk aa
  | toLr t lk => .branchToLr t.inMnemonic lk
  | toCtr t lk => .branchToCtr t.inMnemonic lk

def operands : ShownBranch → List Operand
  | toAddress t _ _ target => t.operands ++ [.target target]
  | toLr t _ | toCtr t _ => t.operands

def listing (b : ShownBranch) : Listing := ⟨b.mnemonic.text, b.operands⟩

def text (b : ShownBranch) : String := b.listing.text

/-- What the text says of the registers before and after the branch. -/
structure Tells (b : ShownBranch) (r r' : Registers) : Prop where
  pc : ∃ taken, b.test.Says taken r.cr r'.ctr ∧
    r'.pc = if taken then b.destination r else r.pc + 4
  ctr : r'.ctr = if b.test.countsDown then r.ctr - 1 else r.ctr
  lr : r'.lr = if b.links then r.pc + 4 else r.lr

end ShownBranch

-- ---------------------------------------------------------------------------
-- One branch for a text
-- ---------------------------------------------------------------------------

theorem ShownTest.kinds_operands (t : ShownTest) :
    t.operands.map Operand.kind = t.inMnemonic.signature := by
  cases t <;> rfl

theorem ShownTest.eq_of_shown {t t' : ShownTest} (hmnemonic : t.inMnemonic = t'.inMnemonic)
    (hoperands : t.operands = t'.operands) : t = t' := by
  cases t <;> cases t' <;> simp_all [inMnemonic, operands]

namespace ShownBranch

theorem kinds_operands (b : ShownBranch) (address : Word) :
    b.operands.map Operand.kind = b.mnemonic.signature (some address) := by
  cases b with
  | toAddress t lk aa target =>
    simp [operands, mnemonic, Mnemonic.signature, t.kinds_operands, Mnemonic.destinationKind,
      Operand.kind]
  | toLr t lk | toCtr t lk => exact t.kinds_operands

theorem eq_of_shown {b b' : ShownBranch} (hmnemonic : b.mnemonic = b'.mnemonic)
    (hoperands : b.operands = b'.operands) : b = b' := by
  cases b <;> cases b' <;> simp only [mnemonic, reduceCtorEq, Mnemonic.branch.injEq,
    Mnemonic.branchToLr.injEq, Mnemonic.branchToCtr.injEq] at hmnemonic
  · obtain ⟨htest, rfl, rfl⟩ := hmnemonic
    obtain ⟨hshown, htarget⟩ := List.append_inj' hoperands rfl
    obtain rfl := ShownTest.eq_of_shown htest hshown
    simp_all
  · obtain ⟨htest, rfl⟩ := hmnemonic
    rw [ShownTest.eq_of_shown htest hoperands]
  · obtain ⟨htest, rfl⟩ := hmnemonic
    rw [ShownTest.eq_of_shown htest hoperands]

theorem text_inj {b b' : ShownBranch} : b.text = b'.text ↔ b = b' := by
  refine ⟨fun h => ?_, congrArg text⟩
  have hblank (b : ShownBranch) : ' ' ∉ b.listing.mnemonic.toList := b.mnemonic.blank_notMem_text
  have htext : b.listing.text = b'.listing.text := h
  obtain ⟨hmnemonic, htexts⟩ := Listing.mnemonic_and_texts_eq (hblank b) (hblank b') htext
  rw [listing, listing, Mnemonic.text_inj] at hmnemonic
  -- Operands of different kinds may have one text, but the mnemonic says which kinds there are.
  refine eq_of_shown hmnemonic (Listing.operands_eq_of_texts_eq ?_ htexts)
  rw [b.kinds_operands 0, b'.kinds_operands 0, hmnemonic]

end ShownBranch

-- ---------------------------------------------------------------------------
-- The test of a branch option
-- ---------------------------------------------------------------------------

namespace ShownTest

open BranchOption

def ofOption (bo : Byte) (bi : CrBit) : ShownTest :=
  match skipsCondition bo, skipsCounter bo with
  | true, true => always
  | false, true => flag bi.field bi.place (onSet bo)
  | true, false => counter (onZero bo)
  | false, false => both bo.toNat bi.val

variable (bo : Byte) (bi : CrBit) (r : Registers)

theorem inMnemonic_ofOption : (ofOption bo bi).inMnemonic = BranchTest.ofOption bo bi := by
  unfold ofOption BranchTest.ofOption
  cases skipsCondition bo <;> cases skipsCounter bo <;> rfl

theorem listing_eq (tail : String) : BranchOption.listing bo bi tail =
    ⟨(ofOption bo bi).inMnemonic.stem ++ tail, (ofOption bo bi).operands⟩ := by
  rw [Listing.mk.injEq, inMnemonic_ofOption]
  refine ⟨listing_spelled bo bi tail, ?_⟩
  unfold BranchOption.listing extended? ofOption
  cases skipsCondition bo <;> cases skipsCounter bo <;> rfl

theorem countsDown_ofOption : (ofOption bo bi).countsDown = !skipsCounter bo := by
  unfold ofOption
  cases skipsCondition bo <;> cases skipsCounter bo <;> rfl

theorem countedCtr_eq :
    r.countedCtr bo = if (ofOption bo bi).countsDown then r.ctr - 1 else r.ctr := by
  rw [countsDown_ofOption, Registers.countedCtr, Registers.countDown]
  cases skipsCounter bo <;> rfl

theorem says_ofOption : (ofOption bo bi).Says (r.lets bo bi) r.cr (r.countedCtr bo) := by
  unfold ofOption Registers.lets Registers.countedCtr Registers.countDown Registers.conditionHolds
  cases hcondition : skipsCondition bo <;> cases hcounter : skipsCounter bo
  · trivial
  · simp [Says, ConditionRegister.bit]
  · simp only [Says, Bool.false_eq_true, if_false, Bool.true_or, Bool.and_true]
    rw [beq_iff_eq, Bool.eq_iff_iff, decide_eq_true_eq]
  · rfl

end ShownTest

-- ---------------------------------------------------------------------------
-- Instructions
-- ---------------------------------------------------------------------------

namespace Instruction

/-- The text of the instruction at PC is that of the branch, and is right about the registers that
the instruction leaves. -/
structure Shows (i : Instruction) (r : Registers) (b : ShownBranch) : Prop where
  text : i.textAt r.pc = b.text
  executes : ∃ r', b.Tells r r' ∧ ∀ memory,
    i.execute { registers := r.next, memory } = (.ok (), { registers := r', memory })

variable (r : Registers)

theorem textAt_eq {i : Instruction} {a : Word} {b : ShownBranch}
    (h : i.listing (some a) = b.listing) : i.textAt a = b.text := congrArg Listing.text h

theorem transfer_tells {b : ShownBranch} {ctr : Word} (taken : Bool)
    (htest : b.test.Says taken r.cr ctr)
    (hctr : ctr = if b.test.countsDown then r.ctr - 1 else r.ctr) :
    b.Tells r ({ r.next with ctr }.transfer taken (b.destination r) b.links) :=
  ⟨⟨taken, htest, rfl⟩, hctr, rfl⟩

theorem targetOperand_eq (offset : Word) (aa : Bool) :
    targetOperand offset aa (some r.pc) = .target (r.next.branchTarget offset aa) := by
  rw [r.branchTarget_next]
  cases aa <;> rfl

theorem branch_shows (offset : Word) (aa lk : Bool) : ∃ b, (branch offset aa lk).Shows r b := by
  refine ⟨.toAddress .always lk aa (r.next.branchTarget offset aa), textAt_eq ?_, _,
    transfer_tells r true rfl rfl, fun memory => rfl⟩
  rw [listing, targetOperand_eq, String.append_assoc]
  rfl

theorem branchConditional_shows (bo : Byte) (bi : CrBit) (offset : Word) (aa lk : Bool) :
    ∃ b, (branchConditional bo bi offset aa lk).Shows r b := by
  refine ⟨.toAddress (.ofOption bo bi) lk aa (r.next.branchTarget offset aa), textAt_eq ?_, _,
    transfer_tells r _ (ShownTest.says_ofOption bo bi r.next)
      (ShownTest.countedCtr_eq bo bi r.next), fun memory => ?_⟩
  · rw [listing, targetOperand_eq, ShownTest.listing_eq]
    rfl
  · rw [execute, Exec.modifyRegisters_run, Registers.branchConditional_eq]
    rfl

theorem branchToLr_shows (bo : Byte) (bi : CrBit) (lk : Bool) :
    ∃ b, (branchToLr bo bi lk).Shows r b := by
  refine ⟨.toLr (.ofOption bo bi) lk, textAt_eq ?_, _,
    transfer_tells r _ (ShownTest.says_ofOption bo bi r.next)
      (ShownTest.countedCtr_eq bo bi r.next), fun memory => ?_⟩
  · rw [listing, ShownTest.listing_eq]
    rfl
  · rw [execute, Exec.modifyRegisters_run, Registers.branchToLr_eq]
    rfl

/-- A branch to CTR that is allowed does not count it down, and so shows no test of it. -/
theorem branchToCtr_shows (bo : Byte) (bi : CrBit) (lk : Bool)
    (h : (branchToCtr bo bi lk).Allowed) : ∃ b, (branchToCtr bo bi lk).Shows r b := by
  have hcount : r.next.countDown bo = (r.next, true) := if_pos h
  have hctr : r.ctr = r.next.countedCtr bo := by
    rw [Registers.countedCtr, hcount]
    rfl
  have htaken : r.next.conditionHolds bo bi = r.next.lets bo bi := by
    rw [Registers.lets, hcount, Bool.true_and]
  have htest := ShownTest.says_ofOption bo bi r.next
  rw [← htaken, ← hctr] at htest
  refine ⟨.toCtr (.ofOption bo bi) lk, textAt_eq ?_, _,
    transfer_tells r _ htest (hctr.trans (ShownTest.countedCtr_eq bo bi r.next)), fun memory => rfl⟩
  rw [listing, ShownTest.listing_eq]
  rfl

theorem exists_shows {i : Instruction} (hbranch : i.WritesPc) (hallowed : i.Allowed) :
    ∃ b, i.Shows r b := by
  cases i with
  | branch offset aa lk => exact branch_shows r offset aa lk
  | branchConditional bo bi offset aa lk => exact branchConditional_shows r bo bi offset aa lk
  | branchToLr bo bi lk => exact branchToLr_shows r bo bi lk
  | branchToCtr bo bi lk => exact branchToCtr_shows r bo bi lk hallowed
  | _ => exact absurd hbranch id

end Instruction

-- ---------------------------------------------------------------------------
-- Steps
-- ---------------------------------------------------------------------------

namespace Machine

variable {m : Machine} {w : Word} {i : Instruction}

/-- A step at a branch succeeds, the text of the branch at PC is one that can be read, and what is
read there is right. -/
theorem step_as_shown (hpc : m.registers.pc.Aligned)
    (hw : m.memory.read32 m.registers.pc = .ok w) (hi : Instruction.decode w = .ok i)
    (hbranch : i.WritesPc) :
    ∃ m', step m = (.ok i, m') ∧ (∃ b : ShownBranch, i.textAt m.registers.pc = b.text) ∧
      ∀ b : ShownBranch, i.textAt m.registers.pc = b.text → b.Tells m.registers m'.registers := by
  obtain ⟨b, htext, r', htells, hexecute⟩ :=
    Instruction.exists_shows m.registers hbranch (Instruction.decode_ok_iff.mp hi).1.2
  have hfetch : fetchInstruction m.toState = .ok i := by rw [fetchInstruction_of_read hpc hw, hi]
  refine ⟨_, step_of_execute_ok hfetch (hexecute m.memory), ⟨b, htext⟩, fun b' htext' => ?_⟩
  obtain rfl := ShownBranch.text_inj.mp (htext.symm.trans htext')
  exact htells

/-- The text names the target past the end of the address space, and counts CTR down past zero. -/
theorem step_as_shown_wrapping :
    Instruction.decode 0x42000009 = .ok (.branchConditional 16 0 8 false true) ∧
    (Instruction.branchConditional 16 0 8 false true).WritesPc ∧
    (ShownBranch.toAddress (.counter false) true false 4).text = "bdnzl 0x00000004" ∧
    ∃ m', step countingPastEnd = (.ok (.branchConditional 16 0 8 false true), m') ∧
      (ShownBranch.toAddress (.counter false) true false 4).Tells countingPastEnd.registers
        m'.registers := by
  obtain ⟨m', hstep, -, htells⟩ := step_as_shown (m := countingPastEnd) (w := 0x42000009)
    (i := .branchConditional 16 0 8 false true) (by decide) rfl rfl trivial
  exact ⟨rfl, trivial, by decide +kernel, m', hstep, htells _ (by decide +kernel)⟩

end Machine

end PowerPC
