import PowerPC.Proofs.CallLaws
import PowerPC.Proofs.FaultLaws
import PowerPC.Proofs.HostLaws

/-!
# PC stays aligned

Distances and absolute targets are counted in words, and the low bits of LR and CTR are cut off, so
no instruction takes PC off the multiples of four. What the host writes elsewhere, and what words
are executed, does not matter.
-/

namespace PowerPC

variable {w : Word}

-- ---------------------------------------------------------------------------
-- Aligned words
-- ---------------------------------------------------------------------------

namespace Word

theorem Aligned.next (h : w.Aligned) : (w + 4).Aligned := by
  unfold Aligned at h ⊢
  bv_omega

theorem aligned_distance (x : Int) {origin : Nat} (h : origin % 4 = 0) :
    Aligned (BitVec.ofInt 32 (x * 4 + origin)) := by
  rw [Aligned, BitVec.toNat_ofInt]
  omega

theorem aligned_cut (n : Nat) : Aligned (BitVec.ofNat 32 (n / 4 * 4)) := by
  rw [Aligned, BitVec.toNat_ofNat]
  omega

variable {r : Registers}

theorem aligned_branchOrigin (h : r.pc.Aligned) : w.branchOrigin r % 4 = 0 := by
  unfold branchOrigin
  split
  · rfl
  · exact h

theorem aligned_branchTarget (kind : BranchKind) (h : r.pc.Aligned) :
    (w.branchTarget kind r).Aligned := by
  cases kind with
  | always | conditional => exact aligned_distance _ (aligned_branchOrigin h)
  | toLr | toCtr => exact aligned_cut _

theorem aligned_afterBranch (kind : BranchKind) (h : r.pc.Aligned) :
    (w.afterBranch kind r).pc.Aligned := by
  show Aligned (if w.BranchTaken kind r then w.branchTarget kind r else r.pc + 4)
  split
  · exact aligned_branchTarget kind h
  · exact h.next

end Word

-- ---------------------------------------------------------------------------
-- Faults
-- ---------------------------------------------------------------------------

def Fault.IsMisalignment (f : Fault) : Prop := ∃ a n, f = .memory (.misaligned a n)

variable {i : Instruction} {s t : State} {f : Fault}

namespace Memory

variable {m : Memory} {a : Word} {n : Nat} {f : AccessFault}

theorem read_fault_aligned (h : m.read a n = .error f) : ¬ Fault.IsMisalignment (.memory f) := by
  rw [read_fault h]
  exact nofun

theorem write_fault_aligned {bytes : List Byte} (h : m.write a bytes = .error f) :
    ¬ Fault.IsMisalignment (.memory f) := by
  rw [write_fault h]
  exact nofun

end Memory

/-- Words are refused for what they are, not for where they stand. -/
theorem Opcode.decode_fault {op : Opcode} (h : op.decode w = .error f) : ¬ f.IsMisalignment := by
  cases op with
  | branchToCtr | loadMultiple =>
    simp only [decode] at h
    split at h <;> cases h
    simp [Fault.IsMisalignment]
  | load kind update | loadIndexed kind update =>
    simp only [decode, decodeLoad] at h
    split at h <;> cases h
    simp [Fault.IsMisalignment]
  | store kind update | storeIndexed kind update =>
    simp only [decode, decodeStore] at h
    split at h <;> cases h
    simp [Fault.IsMisalignment]
  | moveFromSpr | moveToSpr =>
    simp only [decode, Spr.ofNumber] at h
    split at h <;> cases h
    simp [Fault.IsMisalignment]
  | _ => cases h

namespace Instruction

theorem decode_fault (h : decode w = .error f) : ¬ f.IsMisalignment := by
  unfold decode at h
  split at h
  · exact Opcode.decode_fault h
  · cases h
    simp [Fault.IsMisalignment]

theorem execute_fault (h : i.execute s = (.error f, t)) : ¬ f.IsMisalignment := by
  obtain ⟨hfault, -⟩ := execute_error_iff.mp h
  cases hfault with
  | overflowEnable | outOfBounds => simp [Fault.IsMisalignment]

end Instruction

-- ---------------------------------------------------------------------------
-- Steps
-- ---------------------------------------------------------------------------

namespace Machine

variable {m : Machine}

theorem execute_aligned {i : Instruction} (hi : Instruction.decode w = .ok i)
    (hpc : s.registers.pc.Aligned) (h : i.execute (advance s) = (.ok (), t)) :
    t.registers.pc.Aligned := by
  by_cases hbranch : i.WritesPc
  · obtain ⟨kind, hkind⟩ := Word.exists_isBranch hi hbranch
    obtain rfl : w.branchInstruction kind = i :=
      Except.ok.inj ((Word.decode_of_isBranch hkind).symm.trans hi)
    cases (w.execute_branchInstruction kind s.registers s.memory).symm.trans h
    exact Word.aligned_afterBranch kind hpc
  · have hkept : t.registers.pc = s.registers.pc + 4 :=
      (Instruction.execute_changes h).registers .pc hbranch
    rw [hkept]
    exact hpc.next

theorem fetch_fault (hpc : s.registers.pc.Aligned) (h : fetch s = .error f) :
    ¬ f.IsMisalignment := by
  rcases fetch_error_iff.mp h with ⟨hodd, -⟩ | ⟨-, -, rfl⟩
  · exact absurd hpc hodd
  · simp [Fault.IsMisalignment]

theorem step_invariant :
    Invariant (fun m => m.registers.pc.Aligned) (fun f => ¬ f.IsMisalignment) where
  step := by
    intro m hpc
    rcases step_cases m with ⟨f, -, hm⟩ | ⟨i, f, -, -, hm⟩ | ⟨i, s, hi, hx, hm⟩
    · rwa [hm]
    · rwa [hm]
    · rw [hm]
      rw [fetchInstruction_run] at hi
      split at hi
      · exact execute_aligned hi hpc hx
      · cases hi
  fault := by
    intro m f hpc hf
    rcases step_cases m with ⟨g, hg, hm⟩ | ⟨i, g, -, hx, hm⟩ | ⟨i, s, -, -, hm⟩
    · rw [hm] at hf
      cases hf
      rw [fetchInstruction_run] at hg
      split at hg
      · exact Instruction.decode_fault hg
      · cases hg
        exact fetch_fault hpc ‹_›
    · rw [hm] at hf
      cases hf
      exact Instruction.execute_fault (Prod.ext hx rfl)
    · rw [hm] at hf
      cases hf
  resume := id

-- ---------------------------------------------------------------------------
-- Histories
-- ---------------------------------------------------------------------------

theorem sentinel_invariant (a : Word) : Invariant (fun m => m.sentinel = a) fun _ => True where
  step := by
    intro m hm
    cases hstep : step m with
    | mk result t =>
      cases result with
      | ok i => exact (step_ok_settings hstep).1.trans hm
      | error f => rwa [step_error_machine hstep]
  fault _ _ := trivial
  resume := id

/-- A function is called at an aligned address. Of other calls nothing is asked. -/
def HostCall.Aligned : HostCall → Prop
  | .runFunction _ a => a.Aligned
  | _ => True

variable {reply : Reply} {u : Machine} {a : Word} {fuel : Nat}

theorem access_aligned {access : Except AccessFault α} {answer : α → Answer}
    (haccess : ∀ g, access = .error g → ¬ Fault.IsMisalignment (.memory g))
    (h : Reply.ofAccess access answer = .error f) : ¬ f.IsMisalignment := by
  obtain ⟨g, hg, rfl⟩ := Reply.ofAccess_eq_error h
  exact haccess g hg

theorem perform_aligned {c : HostCall} (hc : c.Aligned) (hpc : m.registers.pc.Aligned)
    (h : m.perform c = some (reply, u)) :
    Keeps (fun m => m.registers.pc.Aligned) (fun f => ¬ f.IsMisalignment) reply u := by
  have hread {β : Type} {n : Nat} {a : Word} {g : List Byte → β} (f : AccessFault)
      (hf : (m.memory.read a n).map g = .error f) : ¬ Fault.IsMisalignment (.memory f) :=
    Memory.read_fault_aligned (map_error.mp hf)
  cases c with
  | step =>
    cases h
    exact (step_invariant.keeps_step hpc).map _
  | run fuel =>
    obtain ⟨_, hrun, heq⟩ := Option.map_eq_some_iff.mp h
    cases heq
    exact (step_invariant.keeps_run hpc hrun).map _
  | runFor n =>
    cases h
    exact (step_invariant.keeps_runFor_go hpc).map _
  | runFunction fuel a =>
    obtain ⟨_, hrun, heq⟩ := Option.map_eq_some_iff.mp h
    cases heq
    exact (step_invariant.keeps_runToSentinel (m := m.enter a) hc hrun).map _
  | read a length =>
    cases h
    exact ⟨hpc, fun f => access_aligned fun g => Memory.read_fault_aligned⟩
  | read8 a | read16 a | read32 a =>
    cases h
    exact ⟨hpc, fun f => access_aligned hread⟩
  | change c =>
    cases h
    refine ⟨hpc, fun f => access_aligned fun g hg => ?_⟩
    rw [Memory.change_eq_write] at hg
    exact Memory.write_fault_aligned hg
  | setRegisters r | setSentinel a | requestStop =>
    cases h
    exact ⟨hpc, nofun⟩

theorem runFunction_misses (ha : a.Aligned) (hsentinel : ¬ m.sentinel.Aligned)
    (h : runFunction fuel a m = some (.ok (), u)) : ¬ u.AtSentinel := by
  have hpc := (step_invariant.keeps_runToSentinel (m := m.enter a) ha h).machine
  have hkept : u.sentinel = m.sentinel :=
    ((sentinel_invariant m.sentinel).keeps_runToSentinel (m := m.enter a) rfl h).machine
  intro hat
  rw [AtSentinel, hkept] at hat
  exact hsentinel (hat ▸ hpc)

/-- Whatever the host does, and whatever words are executed, PC stays aligned. So no call fails for
the alignment of an address, and no function returns to a sentinel that is not aligned. -/
theorem pc_stays_aligned {calls : List HostCall} (hpc : m.registers.pc.Aligned)
    (hcalls : ∀ c ∈ calls, c.Aligned) :
    (∀ reply ∈ (m.performAll calls).1, ∀ f, reply = .error f → ¬ f.IsMisalignment) ∧
    ∀ t ∈ (m.performAll calls).2, t.registers.pc.Aligned ∧
      (¬ t.sentinel.Aligned → ∀ fuel a u, a.Aligned →
        runFunction fuel a t = some (.ok (), u) → ¬ u.AtSentinel) := by
  have hkeeps := keeps_performAll (fun c hc _ _ _ hm => perform_aligned (hcalls c hc) hm) hpc
  refine ⟨hkeeps.1, fun t ht => ⟨hkeeps.2 t ht, fun hsentinel fuel a u ha hrun => ?_⟩⟩
  exact runFunction_misses ha hsentinel hrun

/-- `blr`, and then a word that is no instruction. -/
def returning : Machine where
  memory := Memory.gamecube.store ⟨0, 0⟩ [0x4E, 0x80, 0x00, 0x20]
  registers := { pc := 0x80000000 }

/-- Return to an odd address, fail there, and set an odd sentinel: a function that returns to it
goes to the word that the sentinel points into. -/
def oddReturns : List HostCall :=
  [.setRegisters { lr := 0x80000007 }, .step, .runFor 3, .setSentinel 0x80000003, .requestStop]

theorem pc_stays_aligned_odd_returns :
    returning.registers.pc.Aligned ∧ (∀ c ∈ oddReturns, c.Aligned) ∧
    (returning.performAll oddReturns).1[2]? = some (.error (.unsupportedOpcode 0)) ∧
    ∃ t ∈ (returning.performAll oddReturns).2, t.registers.pc = 0x80000004 ∧
      ¬ t.sentinel.Aligned ∧
      ∃ u, runFunction 0 0x80000000 t = some (.ok (), u) ∧ ¬ u.AtSentinel := by
  have hpc : returning.registers.pc.Aligned := by decide
  have hcalls : ∀ c ∈ oddReturns, c.Aligned := by simp [oddReturns, HostCall.Aligned]
  have hsentinel : ¬ Word.Aligned 0x80000003 := by decide
  exact ⟨hpc, hcalls, rfl, _, rfl, rfl, hsentinel, _, rfl,
    ((pc_stays_aligned hpc hcalls).2 _ rfl).2 hsentinel 0 0x80000000 _ (by decide) rfl⟩

end Machine

end PowerPC
