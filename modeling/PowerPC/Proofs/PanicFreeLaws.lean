import PowerPC.Proofs.CheckedExecuteLaws
import PowerPC.Proofs.StepLaws

/-!
# Nothing a guest does panics

A step with partial operations is the step of the machine, but for its last operation: the count of
executed instructions is a number of 64 bits, and the step that would take it past the greatest
panics. Decoding and executing never do, nor does the text of an instruction.
-/

namespace PowerPC

namespace Checked

-- ---------------------------------------------------------------------------
-- Listings
-- ---------------------------------------------------------------------------

/-- The extended mnemonic of a branch option. The name of a tested bit is looked up by its place in
its field. -/
def extended? (bo : Byte) (bi : CrBit) : Checked (Option (String × List Operand)) :=
  match BranchOption.skipsCondition bo, BranchOption.skipsCounter bo with
  | false, true => do
    let names :=
      if BranchOption.onSet bo then ["lt", "gt", "eq", "so"] else ["ge", "le", "ne", "ns"]
    return some (← nth names (bi.val % 4), [.crField bi.field])
  | _, _ => return BranchOption.extended? bo bi

def branchListing (bo : Byte) (bi : CrBit) (tail : String) : Checked Listing := do
  match ← extended? bo bi with
  | some (name, operands) => return ⟨"b" ++ name ++ tail, operands⟩
  | none => return ⟨"bc" ++ tail, [.number bo.toNat, .number bi.val]⟩

def listing (address : Option Word) : Instruction → Checked Listing
  | .branchConditional bo bi offset aa lk => do
    let l ← branchListing bo bi (letter lk "l" ++ letter aa "a")
    return ⟨l.mnemonic, l.operands ++ [Instruction.targetOperand offset aa address]⟩
  | .branchToLr bo bi lk => branchListing bo bi ("lr" ++ letter lk "l")
  | .branchToCtr bo bi lk => branchListing bo bi ("ctr" ++ letter lk "l")
  | i => return i.listing address

def text (i : Instruction) : Checked String := return (← listing none i).text

def textAt (i : Instruction) (address : Word) : Checked String :=
  return (← listing (some address) i).text

@[simp] theorem extended?_eq (bo : Byte) (bi : CrBit) :
    extended? bo bi = pure (BranchOption.extended? bo bi) := by
  have hplace : bi.val % 4 = bi.place.val := rfl
  rw [extended?, BranchOption.extended?, hplace]
  cases BranchOption.skipsCondition bo <;> cases BranchOption.skipsCounter bo <;> try rfl
  cases BranchOption.onSet bo <;>
    match bi.place with
    | 0 | 1 | 2 | 3 => rfl

@[simp] theorem branchListing_eq (bo : Byte) (bi : CrBit) (tail : String) :
    branchListing bo bi tail = pure (BranchOption.listing bo bi tail) := by
  rw [branchListing, extended?_eq, pure_bind, BranchOption.listing]
  cases BranchOption.extended? bo bi <;> rfl

@[simp] theorem listing_eq (address : Option Word) (i : Instruction) :
    listing address i = pure (i.listing address) := by
  cases i with
  | branchConditional | branchToLr | branchToCtr => simp [listing, Instruction.listing]
  | _ => rfl

theorem text_eq (i : Instruction) : text i = pure i.text := by
  simp [text, Instruction.text]

@[simp] theorem textAt_eq (i : Instruction) (address : Word) :
    textAt i address = pure (i.textAt address) := by
  simp [textAt, Instruction.textAt]

-- ---------------------------------------------------------------------------
-- Steps
-- ---------------------------------------------------------------------------

def fetch (s : State) : Checked (Except Fault Word) := do
  let pc := s.registers.pc
  if pc.toNat % 4 ≠ 0 then return .error (.memory (.misaligned pc 4))
  else
    match ← read32 s.memory pc with
    | .ok w => return .ok w
    | .error f => return .error (.memory f)

@[simp] theorem fetch_eq (s : State) : fetch s = pure (Machine.fetch s) := by
  rw [fetch, Machine.fetch]
  split
  · rfl
  · rw [read32_eq, pure_bind]
    cases s.memory.read32 s.registers.pc <;> rfl

/-- Fetch, decode and execute one instruction, and write its text as a trace does. -/
def step (m : Machine) : Checked (Except Fault Instruction × Machine) := do
  match ← fetch m.toState with
  | .error f => return (.error f, m)
  | .ok w =>
    match ← decode w with
    | .error f => return (.error f, m)
    | .ok i =>
      let pc := m.registers.pc
      let _ ← textAt i pc
      match ← execute (Machine.setPc m.toState (pc + 4)) i with
      | (.error f, s) => return (.error f, { m with toState := Machine.setPc s pc })
      | (.ok (), s) => return (.ok i, { m with toState := s, count := ← add m.count 1 })

theorem add_one (count : BitVec 64) : add count 1 =
    if count = BitVec.allOnes 64 then throw .overflow else pure (count + 1) := by
  have hone : (1 : BitVec 64).toNat = 1 := rfl
  have hmax : count = BitVec.allOnes 64 ↔ ¬ count.toNat + (1 : BitVec 64).toNat < 2 ^ 64 := by
    rw [← BitVec.toNat_inj, BitVec.toNat_allOnes]
    omega
  rw [add]
  simp only [hmax, ite_not]

/-- A step that does not fault ends with adding one to the count. -/
theorem step_eq (m : Machine) : step m = match Machine.step m with
    | (.error f, t) => pure (.error f, t)
    | (.ok i, t) =>
      if m.count = BitVec.allOnes 64 then throw .overflow else pure (.ok i, t) := by
  rw [step, fetch_eq, pure_bind, Machine.step, Machine.fetchInstruction_run]
  cases Machine.fetch m.toState with
  | error f => rfl
  | ok w =>
    simp only [decode_eq, pure_bind]
    cases Instruction.decode w with
    | error f => rfl
    | ok i =>
      simp only [textAt_eq, execute_eq, pure_bind]
      rcases i.execute (Machine.setPc m.toState (m.registers.pc + 4)) with ⟨_ | _, s⟩
      · rfl
      · by_cases hmax : m.count = BitVec.allOnes 64
        · simp only [add_one, if_pos hmax]
          rfl
        · simp only [add_one, if_neg hmax, pure_bind]

end Checked

/-- Every step that has room in the count, every word that is decoded, every instruction that is
executed and every text gets through its partial operations, to the value it has elsewhere.

The operand of a rotate is any byte, but that of `rlwnm` is the index of a register, and like the
other indices of registers it is at most 31. -/
theorem Machine.never_panics :
    (∀ m : Machine, m.count.toNat < 2 ^ 64 - 1 → Checked.step m = .ok (step m)) ∧
    (∀ w : Word, Checked.decode w = .ok (Instruction.decode w)) ∧
    (∀ (i : Instruction) (s : State), Checked.execute s i = .ok (i.execute s)) ∧
    (∀ (r : Registers) (kind : Checked.RotateKind) (rs ra : Gpr) (sh mb me : Byte) (rc : Bool),
      (kind = .rlwnm → sh.toNat ≤ 31) → Checked.rotateBy r kind rs ra sh mb me rc =
        .ok (r.rotate (kind.withOperand sh) rs ra mb me rc)) ∧
    ∀ (i : Instruction) (a : Word), Checked.text i = .ok i.text ∧
      Checked.textAt i a = .ok (i.textAt a) := by
  refine ⟨fun m hcount => ?_, Checked.decode_eq, Checked.execute_eq,
    fun r kind rs ra sh mb me rc => Checked.rotateBy_eq r rs ra rc mb me,
    fun i a => ⟨Checked.text_eq i, Checked.textAt_eq i a⟩⟩
  have hmax : m.count ≠ BitVec.allOnes 64 := by
    rintro hmax
    rw [hmax] at hcount
    exact absurd hcount (by decide)
  rw [Checked.step_eq]
  rcases step m with ⟨_ | _, t⟩
  · rfl
  · exact if_neg hmax

namespace Machine

/-- `rlwnm. r4, r5, r6, 24, 7` with 40 in r6, and room for one more in the count. -/
def rotatingLast : Machine where
  memory := Memory.gamecube.store ⟨0, 0⟩ [0x5C, 0xA4, 0x36, 0x0F]
  registers :=
    { (({} : Registers).setGpr 5 0x12345678).setGpr 6 40 with
      pc := 0x80000000
      xer := { so := true } }
  count := 0xFFFFFFFFFFFFFFFE

/-- The instruction is executed, by 8 to the left and with a mask that goes round, and the count is
then full. -/
theorem never_panics_last_count :
    let i : Instruction := .rotate (.rlwnm 6) 5 4 24 7 true
    rotatingLast.count.toNat < 2 ^ 64 - 1 ∧ Checked.step rotatingLast = .ok (step rotatingLast) ∧
      (step rotatingLast).1 = .ok i ∧ (step rotatingLast).2.registers.gpr 4 = 0x34000012 ∧
      (step rotatingLast).2.count = BitVec.allOnes 64 ∧
      Checked.rotateBy rotatingLast.registers .rlwnm 5 4 6 24 7 true =
        .ok (rotatingLast.registers.rotate (.rlwnm 6) 5 4 24 7 true) := by
  have hcount : rotatingLast.count.toNat < 2 ^ 64 - 1 := by decide
  obtain ⟨hstep, -, -, hrotate, -⟩ := never_panics
  refine ⟨hcount, hstep rotatingLast hcount, rfl, rfl, rfl, ?_⟩
  exact hrotate rotatingLast.registers .rlwnm 5 4 6 24 7 true fun _ => by decide

end Machine

end PowerPC
