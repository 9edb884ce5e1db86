import PowerPC.Proofs.BranchLaws

/-!
# When and how a step fails

A step fails for where PC points, for the word that stands there, or for the instruction in the
state it is executed in, and it is the first of these that is reported. Only overflow enabling and
the transfers from and to memory make an instruction fail.
-/

namespace PowerPC

variable {i : Instruction} {s t : State} {f : Fault} {w : Word}

-- ---------------------------------------------------------------------------
-- Instructions
-- ---------------------------------------------------------------------------

namespace Instruction

def transfer? : Instruction → Option (Addressing × Nat)
  | load kind _ ea _ => some (ea, kind.width)
  | store kind _ ea _ => some (ea, kind.width)
  | loadMultiple first ra d | storeMultiple first ra d =>
    some (.displaced ra d, 4 * (32 - first.val))
  | _ => none

inductive Faults (s : State) : Instruction → Fault → Prop where
  | overflowEnable (op rt ra rb rc) :
    Faults s (.arithmetic op rt ra rb true rc) (.overflowEnable op)
  | outOfBounds {i : Instruction} {ea : Addressing} {n : Nat} : i.transfer? = some (ea, n) →
    ¬ Fits s.memory.layout.regions (s.registers.effectiveAddress ea) n →
    Faults s i (.memory (.outOfBounds (s.registers.effectiveAddress ea) n))

theorem execute_error_iff_of_transfer {ea : Addressing} {n : Nat}
    (h : i.transfer? = some (ea, n)) : i.execute s = (.error f, t) ↔
      ¬ Fits s.memory.layout.regions (s.registers.effectiveAddress ea) n ∧
        f = .memory (.outOfBounds (s.registers.effectiveAddress ea) n) ∧ t = s := by
  cases i with
  | load =>
    cases h
    exact Exec.load_error_iff
  | store =>
    cases h
    exact Exec.store_error_iff
  | loadMultiple =>
    cases h
    exact Exec.loadMultiple_error_iff
  | storeMultiple =>
    cases h
    exact Exec.storeMultiple_error_iff
  | _ => cases h

theorem execute_error_iff : i.execute s = (.error f, t) ↔ i.Faults s f ∧ t = s := by
  constructor
  · intro h
    cases htransfer : i.transfer? with
    | some access =>
      obtain ⟨hfit, rfl, rfl⟩ := (execute_error_iff_of_transfer htransfer).mp h
      exact ⟨.outOfBounds htransfer hfit, rfl⟩
    | none =>
      cases i with
      | arithmetic op rt ra rb oe rc =>
        cases oe with
        | false => cases h
        | true =>
          cases h
          exact ⟨.overflowEnable op rt ra rb rc, rfl⟩
      | load | store | loadMultiple | storeMultiple => cases htransfer
      | _ => cases h
  · rintro ⟨h, rfl⟩
    cases h with
    | overflowEnable => rfl
    | outOfBounds htransfer hfit =>
      exact (execute_error_iff_of_transfer htransfer).mpr ⟨hfit, rfl, rfl⟩

theorem Faults.setPc (h : i.Faults s f) (a : Word) : i.Faults (Machine.setPc s a) f := by
  cases h with
  | overflowEnable => exact .overflowEnable _ _ _ _ _
  | outOfBounds htransfer hfit => exact .outOfBounds htransfer hfit

theorem faults_advance : i.Faults (Machine.advance s) f ↔ i.Faults s f :=
  ⟨fun h => h.setPc s.registers.pc, fun h => h.setPc _⟩

end Instruction

-- ---------------------------------------------------------------------------
-- Steps
-- ---------------------------------------------------------------------------

namespace Machine

theorem fetch_of_misaligned (h : ¬ s.registers.pc.Aligned) :
    fetch s = .error (.memory (.misaligned s.registers.pc 4)) := if_pos h

theorem fetch_of_read_error {g : AccessFault} (hpc : s.registers.pc.Aligned)
    (hread : s.memory.read32 s.registers.pc = .error g) : fetch s = .error (.memory g) := by
  have heven : s.registers.pc.toNat % 4 = 0 := hpc
  simp [fetch, heven, hread]

theorem fetch_ok_iff : fetch s = .ok w ↔
    s.registers.pc.Aligned ∧ s.memory.read32 s.registers.pc = .ok w := by
  by_cases hpc : s.registers.pc.Aligned
  · cases hread : s.memory.read32 s.registers.pc with
    | ok v => simp [fetch_of_read hpc hread, hpc]
    | error g => simp [fetch_of_read_error hpc hread]
  · simp [fetch_of_misaligned hpc, hpc]

theorem fetch_error_iff : fetch s = .error f ↔
    (¬ s.registers.pc.Aligned ∧ f = .memory (.misaligned s.registers.pc 4)) ∨
    (s.registers.pc.Aligned ∧ ¬ Fits s.memory.layout.regions s.registers.pc 4 ∧
      f = .memory (.outOfBounds s.registers.pc 4)) := by
  by_cases hpc : s.registers.pc.Aligned
  · cases hread : s.memory.read32 s.registers.pc with
    | ok w =>
      have hfit := Memory.read32_ok_iff.mp ⟨w, hread⟩
      simp [fetch_of_read hpc hread, hpc, hfit]
    | error g =>
      obtain ⟨hfit, rfl⟩ := Memory.read32_error_iff.mp hread
      simp [fetch_of_read_error hpc hread, hpc, hfit, eq_comm]
  · simp [fetch_of_misaligned hpc, hpc, eq_comm]

/-- The fault of a step. Each case presumes that the ones above it do not apply. -/
inductive StepFaults (s : State) : Fault → Prop where
  | misaligned : ¬ s.registers.pc.Aligned → StepFaults s (.memory (.misaligned s.registers.pc 4))
  | unmapped : s.registers.pc.Aligned → ¬ Fits s.memory.layout.regions s.registers.pc 4 →
    StepFaults s (.memory (.outOfBounds s.registers.pc 4))
  | undecodable {w : Word} {f : Fault} : s.registers.pc.Aligned →
    s.memory.read32 s.registers.pc = .ok w → Instruction.decode w = .error f → StepFaults s f
  | execution {w : Word} {i : Instruction} {f : Fault} : s.registers.pc.Aligned →
    s.memory.read32 s.registers.pc = .ok w → Instruction.decode w = .ok i → i.Faults s f →
    StepFaults s f

theorem fetchInstruction_ok_iff : fetchInstruction s = .ok i ↔
    ∃ w, fetch s = .ok w ∧ Instruction.decode w = .ok i := by
  rw [fetchInstruction_run]
  cases fetch s <;> simp

theorem fetchInstruction_error_iff : fetchInstruction s = .error f ↔
    fetch s = .error f ∨ ∃ w, fetch s = .ok w ∧ Instruction.decode w = .error f := by
  rw [fetchInstruction_run]
  cases fetch s <;> simp

theorem stepFaults_iff : StepFaults s f ↔
    fetchInstruction s = .error f ∨ ∃ i, fetchInstruction s = .ok i ∧ i.Faults s f := by
  simp only [fetchInstruction_error_iff, fetchInstruction_ok_iff, fetch_ok_iff, fetch_error_iff]
  constructor
  · rintro (hodd | ⟨hpc, hfit⟩ | ⟨hpc, hw, hdecode⟩ | ⟨hpc, hw, hdecode, hfault⟩)
    · exact .inl (.inl (.inl ⟨hodd, rfl⟩))
    · exact .inl (.inl (.inr ⟨hpc, hfit, rfl⟩))
    · exact .inl (.inr ⟨_, ⟨hpc, hw⟩, hdecode⟩)
    · exact .inr ⟨_, ⟨_, ⟨hpc, hw⟩, hdecode⟩, hfault⟩
  · rintro (((⟨hodd, rfl⟩ | ⟨hpc, hfit, rfl⟩) | ⟨w, ⟨hpc, hw⟩, hdecode⟩) |
      ⟨i, ⟨w, ⟨hpc, hw⟩, hdecode⟩, hfault⟩)
    · exact .misaligned hodd
    · exact .unmapped hpc hfit
    · exact .undecodable hpc hw hdecode
    · exact .execution hpc hw hdecode hfault

variable {m m' : Machine}

theorem step_error_iff : step m = (.error f, m') ↔ StepFaults m.toState f ∧ m' = m := by
  rw [stepFaults_iff]
  constructor
  · intro h
    refine ⟨?_, step_error_machine h⟩
    rcases step_cases m with ⟨g, hg, hm⟩ | ⟨i, g, hi, hx, hm⟩ | ⟨i, s, -, -, hm⟩
    · cases hm.symm.trans h
      exact .inl hg
    · cases hm.symm.trans h
      exact .inr ⟨i, hi, Instruction.faults_advance.mp
        (Instruction.execute_error_iff.mp (Prod.ext hx rfl)).1⟩
    · cases hm.symm.trans h
  · rintro ⟨hg | ⟨i, hi, hfault⟩, rfl⟩
    · exact step_of_fetch_error hg
    · have hx := Instruction.execute_error_iff.mpr
        ⟨Instruction.faults_advance.mpr hfault, rfl⟩
      exact step_of_execute_error hi (congrArg Prod.fst hx)

theorem step_ok_of_no_fault (h : ∀ f, ¬ StepFaults m.toState f) : ∃ w i m',
    m.memory.read32 m.registers.pc = .ok w ∧ Instruction.decode w = .ok i ∧
      step m = (.ok i, m') ∧ m'.count = m.count + 1 := by
  rcases step_cases m with ⟨f, -, hm⟩ | ⟨i, f, -, -, hm⟩ | ⟨i, s, hi, -, hm⟩
  · exact absurd (step_error_iff.mp hm).1 (h f)
  · exact absurd (step_error_iff.mp hm).1 (h f)
  · obtain ⟨w, hw, hdecode⟩ := fetchInstruction_ok_iff.mp hi
    exact ⟨w, i, _, (fetch_ok_iff.mp hw).2, hdecode, hm, rfl⟩

/-- A step fails with the faults listed and no others, and an instruction that is executed without
being fetched likewise. If there is no fault, what is decoded is executed and counted. -/
theorem step_outcome (m : Machine) :
    (∀ f m', step m = (.error f, m') ↔ StepFaults m.toState f ∧ m' = m) ∧
    ((∀ f, ¬ StepFaults m.toState f) → ∃ w i m', m.memory.read32 m.registers.pc = .ok w ∧
      Instruction.decode w = .ok i ∧ step m = (.ok i, m') ∧ m'.count = m.count + 1) ∧
    (∀ (i : Instruction) s f t, i.execute s = (.error f, t) ↔ i.Faults s f ∧ t = s) ∧
    ∀ op rt ra rb address, (Fault.overflowEnable op).message = "Unsupported feature in " ++
      ((Instruction.arithmetic op rt ra rb false false).listing address).mnemonic ++
        ": overflow enable (OE=1)" := by
  refine ⟨fun f m' => step_error_iff, step_ok_of_no_fault, fun i s f t => ?_,
    fun op rt ra rb address => ?_⟩
  · exact Instruction.execute_error_iff
  · have hbase : ((Instruction.arithmetic op rt ra rb false false).listing address).mnemonic =
        op.mnemonic ++ "" ++ "" := rfl
    rw [hbase, String.append_empty, String.append_empty]
    rfl

/-- `lwz r4, -8(r1)` with a base below the distance. -/
def loadingBelowZero : Machine where
  memory := Memory.gamecube.store ⟨0, 0⟩ [0x80, 0x81, 0xFF, 0xF8]
  registers := { ({} : Registers).setGpr 1 4 with pc := 0x80000000 }

/-- An address that is neither aligned nor mapped is not aligned, and one below zero wraps. -/
theorem step_outcome_wrapped :
    StepFaults { loadingBelowZero.toState with registers := { pc := 6 } }
      (.memory (.misaligned 6 4)) ∧
    StepFaults loadingBelowZero.toState (.memory (.outOfBounds 0xFFFFFFFC 4)) :=
  ⟨(((step_outcome { loadingBelowZero with registers := { pc := 6 } }).1 _ _).mp rfl).1,
    (((step_outcome loadingBelowZero).1 _ _).mp rfl).1⟩

end Machine

end PowerPC
