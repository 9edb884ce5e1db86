import PowerPC.Machine.Basic
import PowerPC.Proofs.ExecLaws

/-!
# One step

A step either executes the instruction at PC and counts it, or faults and leaves the machine as it
was: PC, which had moved on, is put back, and the instruction itself is atomic.
-/

namespace PowerPC.Machine

def advance (s : State) : State := setPc s (s.registers.pc + 4)

@[simp] theorem setPc_advance (s : State) : setPc (advance s) s.registers.pc = s := rfl

variable {m m' : Machine} {i : Instruction} {f : Fault} {s : State}

theorem fetchInstruction_run (s : State) : fetchInstruction s = match fetch s with
    | .ok w => Instruction.decode w
    | .error f => .error f := by
  rw [fetchInstruction]
  cases fetch s <;> rfl

theorem step_of_fetch_error (h : fetchInstruction m.toState = .error f) :
    step m = (.error f, m) := by
  simp only [step, h]

theorem step_of_execute_error (hi : fetchInstruction m.toState = .ok i)
    (hx : (i.execute (advance m.toState)).1 = .error f) : step m = (.error f, m) := by
  have hs := Exec.execute_atomic i _ f hx
  have hrun : i.execute (setPc m.toState (m.registers.pc + 4)) = (.error f, advance m.toState) :=
    Prod.ext hx hs
  simp only [step, hi, hrun, setPc_advance]

theorem step_of_execute_ok (hi : fetchInstruction m.toState = .ok i)
    (hx : i.execute (advance m.toState) = (.ok (), s)) :
    step m = (.ok i, { m with toState := s, count := m.count + 1 }) := by
  have hrun : i.execute (setPc m.toState (m.registers.pc + 4)) = (.ok (), s) := hx
  simp only [step, hi, hrun]

/-- All that a step can do. -/
theorem step_cases (m : Machine) :
    (∃ f, fetchInstruction m.toState = .error f ∧ step m = (.error f, m)) ∨
    (∃ i f, fetchInstruction m.toState = .ok i ∧
      (i.execute (advance m.toState)).1 = .error f ∧ step m = (.error f, m)) ∨
    (∃ i s, fetchInstruction m.toState = .ok i ∧ i.execute (advance m.toState) = (.ok (), s) ∧
      step m = (.ok i, { m with toState := s, count := m.count + 1 })) := by
  cases hi : fetchInstruction m.toState with
  | error f => exact .inl ⟨f, rfl, step_of_fetch_error hi⟩
  | ok i =>
    cases hx : i.execute (advance m.toState) with
    | mk result s =>
      cases result with
      | error f =>
        have hfault : (i.execute (advance m.toState)).1 = .error f := by rw [hx]
        exact .inr (.inl ⟨i, f, rfl, hfault, step_of_execute_error hi hfault⟩)
      | ok u => exact .inr (.inr ⟨i, s, rfl, hx, step_of_execute_ok hi hx⟩)

theorem step_error_machine (h : step m = (.error f, m')) : m' = m := by
  rcases step_cases m with ⟨_, -, hm⟩ | ⟨_, _, -, -, hm⟩ | ⟨_, _, -, -, hm⟩
  · rw [hm] at h
    cases h
    rfl
  · rw [hm] at h
    cases h
    rfl
  · rw [hm] at h
    cases h

theorem step_ok_count (h : step m = (.ok i, m')) : m'.count = m.count + 1 := by
  rcases step_cases m with ⟨_, -, hm⟩ | ⟨_, _, -, -, hm⟩ | ⟨_, _, -, -, hm⟩
  · rw [hm] at h
    cases h
  · rw [hm] at h
    cases h
  · rw [hm] at h
    cases h
    rfl

theorem step_ok_ne (h : step m = (.ok i, m')) : m' ≠ m := by
  rintro rfl
  have hcount := step_ok_count h
  bv_omega

/-- A step faults exactly if it changes nothing at all. An instruction that is executed without
being fetched, and may be one that no word stands for, changes nothing if it faults. -/
theorem fault_changes_nothing :
    (∀ m : Machine, (∃ f, (step m).1 = .error f) ↔ (step m).2 = m) ∧
    (∀ (i : Instruction) (m : Machine) (f : Fault),
      (execute i m).1 = .error f → (execute i m).2 = m) ∧
    (∀ (i : Instruction) (s : State) (f : Fault),
      (i.execute s).1 = .error f → (i.execute s).2 = s) := by
  refine ⟨fun m => ?_, fun i m f h => ?_, Exec.execute_atomic⟩
  · cases hstep : step m with
    | mk result m' =>
      cases result with
      | error f => simp [step_error_machine hstep]
      | ok i => simp [step_ok_ne hstep]
  · have hs : (i.execute m.toState).2 = m.toState := Exec.execute_atomic i m.toState f h
    show { m with toState := (i.execute m.toState).2 } = m
    rw [hs]

/-- About to store r29, r30 and r31 at the last two words of its memory. -/
def storingPastEnd : Machine where
  memory := Memory.gamecube.store ⟨0, 0⟩ [0xBF, 0xA1, 0x00, 0x00]
  registers := { ({} : Registers).setGpr 1 0x817FFFF8 with pc := 0x80000000 }

/-- The last two instructions load their own base register, which no word can ask for. -/
theorem fault_changes_nothing_past_end :
    ((step storingPastEnd).1 = .error (.memory (.outOfBounds 0x817FFFF8 12)) ∧
      (step storingPastEnd).2 = storingPastEnd) ∧
    ((execute (.loadMultiple 0 1 0) storingPastEnd).1 =
        .error (.memory (.outOfBounds 0x817FFFF8 128)) ∧
      (execute (.loadMultiple 0 1 0) storingPastEnd).2 = storingPastEnd) ∧
    ((Instruction.load .word 1 (.displaced 1 8) true).execute storingPastEnd.toState).1 =
        .error (.memory (.outOfBounds 0x81800000 4)) ∧
      ((Instruction.load .word 1 (.displaced 1 8) true).execute storingPastEnd.toState).2 =
        storingPastEnd.toState :=
  ⟨⟨rfl, (fault_changes_nothing.1 _).mp ⟨_, rfl⟩⟩, ⟨rfl, fault_changes_nothing.2.1 _ _ _ rfl⟩,
    rfl, fault_changes_nothing.2.2 _ _ _ rfl⟩

end PowerPC.Machine
