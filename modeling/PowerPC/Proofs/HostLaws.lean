import PowerPC.Proofs.MemoryLaws
import PowerPC.Proofs.RunLaws

/-!
# Histories of a machine

What a host does with a machine: it steps it and runs it, reads and writes its memory, sets
registers and the sentinel, and asks it to stop. Each call has a reply. What every step keeps and
every call keeps is true after every history.
-/

namespace PowerPC.Machine

-- ---------------------------------------------------------------------------
-- Calls
-- ---------------------------------------------------------------------------

inductive HostCall where
  | step
  | run (fuel : Nat)
  | runFor (n : Nat)
  | runFunction (fuel : Nat) (a : Word)
  | read (a : Word) (length : Nat)
  | read8 (a : Word)
  | read16 (a : Word)
  | read32 (a : Word)
  | change (c : Memory.Change)
  /-- All registers but PC. -/
  | setRegisters (r : Registers)
  | setSentinel (a : Word)
  | requestStop
deriving Repr

inductive Answer where
  | done
  | executed (i : Instruction)
  | count (n : Nat)
  | bytes (bytes : List Byte)
  | byte (value : Byte)
  | halfword (value : Halfword)
  | word (value : Word)
deriving DecidableEq, Repr

abbrev Reply := Except Fault Answer

def Reply.ofAccess (access : Except AccessFault α) (answer : α → Answer) : Reply :=
  (access.map answer).mapError .memory

def Reply.ofRun (result : Except Fault Unit) : Reply := result.map fun _ => .done

/-- The reply to a call and the machine that it leaves. A run that uses up its fuel has neither. -/
def perform (m : Machine) : HostCall → Option (Reply × Machine)
  | .step => some ((step m).1.map .executed, (step m).2)
  | .run fuel => (run fuel m).map fun (result, m) => (.ofRun result, m)
  | .runFor n => some ((runFor n m).1.map .count, (runFor n m).2)
  | .runFunction fuel a => (runFunction fuel a m).map fun (result, m) => (.ofRun result, m)
  | .read a length => some (.ofAccess (m.memory.read a length) .bytes, m)
  | .read8 a => some (.ofAccess (m.memory.read8 a) .byte, m)
  | .read16 a => some (.ofAccess (m.memory.read16 a) .halfword, m)
  | .read32 a => some (.ofAccess (m.memory.read32 a) .word, m)
  | .change c =>
    some (.ofAccess (m.memory.change c) fun _ => .done, { m with memory := m.memory.after c })
  | .setRegisters r => some (.ok .done, { m with registers := { r with pc := m.registers.pc } })
  | .setSentinel a => some (.ok .done, { m with sentinel := a })
  | .requestStop => some (.ok .done, { m with stop := true })

/-- The replies to calls made one after the other, and the machine that the last one leaves. A run
that does not end has no reply, and nothing comes after it. -/
def performAll (m : Machine) : List HostCall → List Reply × Option Machine
  | [] => ([], some m)
  | c :: cs =>
    match m.perform c with
    | some (reply, m) => (reply :: (m.performAll cs).1, (m.performAll cs).2)
    | none => ([], none)

theorem Reply.ofAccess_eq_ok {access : Except AccessFault α} {answer : α → Answer} {a : Answer}
    (h : Reply.ofAccess access answer = .ok a) : ∃ value, access = .ok value := by
  cases access with
  | ok value => exact ⟨value, rfl⟩
  | error g => cases h

theorem Reply.ofAccess_eq_error {access : Except AccessFault α} {answer : α → Answer} {f : Fault}
    (h : Reply.ofAccess access answer = .error f) : ∃ g, access = .error g ∧ f = .memory g := by
  cases access with
  | ok value => cases h
  | error g =>
    cases h
    exact ⟨g, rfl, rfl⟩

-- ---------------------------------------------------------------------------
-- Invariants
-- ---------------------------------------------------------------------------

/-- What every step keeps, with what is true of the faults of steps. -/
structure Invariant (P : Machine → Prop) (Q : Fault → Prop) : Prop where
  step : ∀ {m}, P m → P (step m).2
  fault : ∀ {m f}, P m → (Machine.step m).1 = .error f → Q f
  resume : ∀ {m}, P m → P { m with stop := false }

structure Keeps (P : Machine → Prop) (Q : Fault → Prop) (result : Except Fault α) (m : Machine) :
    Prop where
  machine : P m
  fault : ∀ f, result = .error f → Q f

theorem Keeps.map {P : Machine → Prop} {Q : Fault → Prop} {result : Except Fault α} {m : Machine}
    (h : Keeps P Q result m) (g : α → β) : Keeps P Q (result.map g) m :=
  ⟨h.machine, fun f hf => h.fault f (map_error.mp hf)⟩

namespace Invariant

variable {P : Machine → Prop} {Q : Fault → Prop} {m t : Machine} {fuel n k : Nat}
  {result : Except Fault Unit}

theorem keeps_step (h : Invariant P Q) (hm : P m) :
    Keeps P Q (Machine.step m).1 (Machine.step m).2 :=
  ⟨h.step hm, fun _ hf => h.fault hm hf⟩

theorem keeps_of_step (h : Invariant P Q) (hm : P m) {r : Except Fault Instruction}
    (hstep : Machine.step m = (r, t)) : Keeps P Q r t := by
  have hkeeps := h.keeps_step hm
  rwa [hstep] at hkeeps

theorem keeps_run (h : Invariant P Q) (hm : P m) (hrun : run fuel m = some (result, t)) :
    Keeps P Q result t := by
  fun_induction run fuel m with
  | case1 fuel m hstop =>
    cases hrun
    exact ⟨h.resume hm, nofun⟩
  | case2 m hstop => cases hrun
  | case3 m hstop fuel i m₁ hstep ih => exact ih (h.keeps_of_step hm hstep).machine hrun
  | case4 m hstop fuel f m₁ hstep =>
    cases hrun
    exact (h.keeps_of_step hm hstep).map fun _ => ()

theorem keeps_runToSentinel (h : Invariant P Q) (hm : P m)
    (hrun : runToSentinel fuel m = some (result, t)) : Keeps P Q result t := by
  fun_induction runToSentinel fuel m with
  | case1 fuel m hat =>
    cases hrun
    exact ⟨hm, nofun⟩
  | case2 fuel m hat hstop =>
    cases hrun
    exact ⟨h.resume hm, nofun⟩
  | case3 m hat hstop => cases hrun
  | case4 m hat hstop fuel i m₁ hstep ih => exact ih (h.keeps_of_step hm hstep).machine hrun
  | case5 m hat hstop fuel f m₁ hstep =>
    cases hrun
    exact (h.keeps_of_step hm hstep).map fun _ => ()

theorem keeps_runFor_go (h : Invariant P Q) (hm : P m) :
    Keeps P Q (runFor.go n k m).1 (runFor.go n k m).2 := by
  induction n generalizing k m with
  | zero => exact ⟨hm, nofun⟩
  | succ n ih =>
    by_cases hstop : m.stop
    · rw [runFor_go_of_stop hstop]
      exact ⟨h.resume hm, nofun⟩
    · have hstop := eq_false_of_ne_true hstop
      cases hstep : Machine.step m with
      | mk r m₁ =>
        have hkeeps := h.keeps_of_step hm hstep
        cases r with
        | ok i =>
          rw [runFor_go_of_ok hstop hstep]
          exact ih hkeeps.machine
        | error f =>
          rw [runFor_go_of_fault hstop hstep]
          exact hkeeps.map fun _ => 0

end Invariant

variable {P : Machine → Prop} {Q : Fault → Prop} {calls : List HostCall}

theorem keeps_performAll
    (hcalls : ∀ c ∈ calls, ∀ {m reply t}, P m → m.perform c = some (reply, t) → Keeps P Q reply t)
    {m : Machine} (hm : P m) :
    (∀ reply ∈ (m.performAll calls).1, ∀ f, reply = .error f → Q f) ∧
      ∀ t ∈ (m.performAll calls).2, P t := by
  induction calls generalizing m with
  | nil => simp [performAll, hm]
  | cons c cs ih =>
    rw [performAll]
    cases hc : m.perform c with
    | none => simp
    | some outcome =>
      obtain ⟨reply, t⟩ := outcome
      have hkeeps := hcalls c List.mem_cons_self hm hc
      have hrest := ih (fun c hc => hcalls c (List.mem_cons_of_mem _ hc)) hkeeps.machine
      refine ⟨fun reply' hreply' => ?_, hrest.2⟩
      rcases List.mem_cons.mp hreply' with rfl | hlater
      · exact hkeeps.fault
      · exact hrest.1 reply' hlater

end PowerPC.Machine
