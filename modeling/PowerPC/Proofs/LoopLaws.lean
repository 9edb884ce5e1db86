import PowerPC.Proofs.BranchLaws
import PowerPC.Proofs.RunLaws

/-!
# Counted loops

A body that ends at a branch which counts CTR down, and goes back to the body while CTR is not
zero, runs as often as CTR said at first; a CTR of zero stands for 2^32. CTR is counted down before
it is tested, so it is zero when the loop is left.
-/

namespace PowerPC

-- ---------------------------------------------------------------------------
-- The branch that closes a loop
-- ---------------------------------------------------------------------------

namespace Word

variable {w a b : Word} {r : Registers}

/-- The word at `a` counts CTR down and goes to `b` if CTR is not zero then, whatever the condition
register holds. It does not link. -/
structure ClosesLoop (w a b : Word) : Prop where
  conditional : w.IsBranch .conditional
  skips_condition : w.bit 6 = true
  counts : w.bit 8 = false
  on_nonzero : w.bit 9 = false
  unlinked : w.bit 31 = false
  target : w.branchTarget .conditional { pc := a } = b

namespace ClosesLoop

theorem branchCtr_eq (h : w.ClosesLoop a b) : w.branchCtr .conditional r = r.ctr - 1 :=
  if_pos ⟨.inl rfl, h.counts⟩

theorem taken_iff (h : w.ClosesLoop a b) : w.BranchTaken .conditional r ↔ r.ctr ≠ 1 := by
  have hzero : ¬ r.ctr - 1 = 0 ↔ ¬ r.ctr = 1 := by bv_omega
  simpa [BranchTaken, h.branchCtr_eq, h.counts, h.on_nonzero, h.skips_condition] using hzero

theorem branchTarget_eq (h : w.ClosesLoop a b) (hpc : r.pc = a) :
    w.branchTarget .conditional r = b := by
  rw [← h.target, ← hpc]
  rfl

theorem afterBranch_eq (h : w.ClosesLoop a b) (hpc : r.pc = a) :
    w.afterBranch .conditional r =
      { r with pc := if r.ctr = 1 then a + 4 else b, ctr := r.ctr - 1 } := by
  simp only [afterBranch, h.taken_iff, h.branchTarget_eq hpc, h.branchCtr_eq, h.unlinked, hpc,
    ite_not, Bool.false_eq_true, if_false]

end ClosesLoop

end Word

-- ---------------------------------------------------------------------------
-- Rounds
-- ---------------------------------------------------------------------------

namespace Machine

variable {I : Machine → Prop} {start : Word} {k n : Nat} {m : Machine}

def bodyEnd (start : Word) (k : Nat) : Word := start + BitVec.ofNat 32 (4 * k)

/-- In `k` steps the machine comes to the word after its body, with CTR and that word as before. -/
structure RunsBody (w : Word) (start : Word) (k : Nat) (m t : Machine) : Prop where
  steps : Steps k m t
  pc_eq : t.registers.pc = bodyEnd start k
  ctr_eq : t.registers.ctr = m.registers.ctr
  word_before : m.memory.read32 (bodyEnd start k) = .ok w
  word_after : t.memory.read32 (bodyEnd start k) = .ok w

/-- From every machine of `I` the body runs to a branch that closes the loop, and the branch leads
back into `I` where it is taken. -/
structure CountedLoop (I : Machine → Prop) (start : Word) (k : Nat) : Prop where
  aligned : start.Aligned
  entry : ∀ m, I m → m.registers.pc = start
  body : ∀ m, I m → ∃ w t, w.ClosesLoop (bodyEnd start k) start ∧ RunsBody w start k m t ∧
    (w.BranchTaken .conditional t.registers → I (step t).2)

def rounds (ctr : Word) : Nat := if ctr = 0 then 2 ^ 32 else ctr.toNat

/-- The machine `t` begins the `i`-th of `n` rounds from `m`, counted from zero: after it the
branch is taken unless it was the last. -/
structure Round (I : Machine → Prop) (start : Word) (k n i : Nat) (m t : Machine) : Prop where
  steps : Steps (i * (k + 1)) m t
  inside : I t
  ctr_eq : t.registers.ctr = m.registers.ctr - BitVec.ofNat 32 i
  body : ∃ w u, RunsBody w start k t u ∧ (w.BranchTaken .conditional u.registers ↔ i + 1 < n)

theorem aligned_bodyEnd (h : start.Aligned) : (bodyEnd start k).Aligned := by
  unfold Word.Aligned bodyEnd at *
  rw [BitVec.toNat_add, BitVec.toNat_ofNat]
  omega

theorem rounds_pos (ctr : Word) : 0 < rounds ctr := by
  unfold rounds
  split
  · decide
  · bv_omega

theorem rounds_eq_one_iff {ctr : Word} : rounds ctr = 1 ↔ ctr = 1 := by
  unfold rounds
  split
  · bv_omega
  · bv_omega

theorem rounds_sub_one {ctr : Word} (h : ctr ≠ 1) : rounds (ctr - 1) + 1 = rounds ctr := by
  have hne : ctr - 1 ≠ 0 := by bv_omega
  rw [rounds, if_neg hne, rounds]
  split
  · bv_omega
  · bv_omega

/-- One round: the body and the branch after it, which leaves the loop if CTR was 1. -/
theorem CountedLoop.round (h : CountedLoop I start k) (hm : I m) : ∃ w t u,
    RunsBody w start k m t ∧ (w.BranchTaken .conditional t.registers ↔ m.registers.ctr ≠ 1) ∧
    Steps (k + 1) m u ∧ u.registers.ctr = m.registers.ctr - 1 ∧
    (m.registers.ctr ≠ 1 → I u) ∧
    (m.registers.ctr = 1 → u.registers.pc = bodyEnd start k + 4) := by
  obtain ⟨w, t, hw, hbody, hagain⟩ := h.body m hm
  have haligned : t.registers.pc.Aligned := hbody.pc_eq ▸ aligned_bodyEnd h.aligned
  obtain ⟨i, hstep⟩ := step_branch haligned (hbody.pc_eq ▸ hbody.word_after) hw.conditional
  rw [hw.afterBranch_eq hbody.pc_eq, hbody.ctr_eq] at hstep
  rw [hstep, hw.taken_iff, hbody.ctr_eq] at hagain
  refine ⟨w, t, _, hbody, by rw [hw.taken_iff, hbody.ctr_eq],
    Steps.add_iff.mpr ⟨t, hbody.steps, .next hstep (.refl _)⟩, rfl, hagain, fun hone => ?_⟩
  exact if_pos hone

theorem Steps.next_round {u t : Machine} (hu : Steps (k + 1) m u)
    (ht : Steps (n * (k + 1)) u t) : Steps ((n + 1) * (k + 1)) m t := by
  rw [Nat.add_mul, Nat.one_mul, Nat.add_comm]
  exact Steps.add_iff.mpr ⟨u, hu, ht⟩

theorem Round.succ {i : Nat} {u t : Machine} (hu : Steps (k + 1) m u)
    (hctr : u.registers.ctr = m.registers.ctr - 1) (h : Round I start k n i u t) :
    Round I start k (n + 1) (i + 1) m t where
  steps := hu.next_round h.steps
  inside := h.inside
  ctr_eq := by
    rw [h.ctr_eq, hctr, BitVec.ofNat_add]
    bv_omega
  body := by
    obtain ⟨w, v, hbody, htaken⟩ := h.body
    refine ⟨w, v, hbody, htaken.trans ?_⟩
    omega

/-- A counted loop runs its body as often as CTR says, counts CTR down by one in each round, and is
left behind its branch with a CTR of zero. -/
theorem CountedLoop.runs_rounds (h : CountedLoop I start k) (hm : I m) :
    (∃ t, Steps (rounds m.registers.ctr * (k + 1)) m t ∧
      t.registers.pc = bodyEnd start k + 4 ∧ t.registers.ctr = 0) ∧
    ∀ i < rounds m.registers.ctr, ∃ t, Round I start k (rounds m.registers.ctr) i m t := by
  -- The number of rounds is the measure; the invariant `I` carries over from one to the next.
  generalize hn : rounds m.registers.ctr = n
  induction n generalizing m with
  | zero => exact absurd hn (Nat.ne_of_gt (rounds_pos _))
  | succ n ih =>
    obtain ⟨w, t, u, hbody, htaken, hu, hctr, hagain, hleave⟩ := h.round hm
    have hfirst : Round I start k (n + 1) 0 m m := by
      refine ⟨by rw [Nat.zero_mul]; exact .refl m, hm, by simp, w, t, hbody, ?_⟩
      rw [htaken, ne_eq, ← rounds_eq_one_iff, hn]
      omega
    by_cases hone : m.registers.ctr = 1
    · obtain rfl : n = 0 := by
        have heq := rounds_eq_one_iff.mpr hone
        omega
      refine ⟨⟨u, by rwa [Nat.zero_add, Nat.one_mul], hleave hone, by rw [hctr, hone]; rfl⟩,
        fun i hi => ?_⟩
      obtain rfl : i = 0 := by omega
      exact ⟨m, hfirst⟩
    · have hrest : rounds u.registers.ctr = n := by
        have heq := rounds_sub_one hone
        rw [hctr]
        omega
      obtain ⟨⟨t', ht', hpc', hctr'⟩, hrounds⟩ := ih (hagain hone) hrest
      refine ⟨⟨t', hu.next_round ht', hpc', hctr'⟩, fun i hi => ?_⟩
      cases i with
      | zero => exact ⟨m, hfirst⟩
      | succ i =>
        obtain ⟨v, hround⟩ := hrounds i (Nat.lt_of_succ_lt_succ hi)
        exact ⟨v, hround.succ hu hctr⟩

/-- `addi r3, r3, 1` and `bdnz .-4`. -/
def incrementing : Memory :=
  Memory.gamecube.store ⟨0, 0⟩ [0x38, 0x63, 0x00, 0x01, 0x42, 0x00, 0xFF, 0xFC]

def Increments (m : Machine) : Prop := m.memory = incrementing ∧ m.registers.pc = 0x80000000

theorem closesLoop_bdnz : Word.ClosesLoop 0x4200FFFC (bodyEnd 0x80000000 1) 0x80000000 :=
  ⟨rfl, by decide, by decide, by decide, by decide, by decide⟩

theorem Increments.step_ok (h : Increments m) : ∃ i t, step m = (.ok i, t) ∧
    t.registers.pc = bodyEnd 0x80000000 1 ∧ t.registers.ctr = m.registers.ctr ∧
    t.memory = incrementing := by
  obtain ⟨hmemory, hpc⟩ := h
  have hw : m.memory.read32 m.registers.pc = .ok 0x38630001 := by
    rw [hmemory, hpc]
    rfl
  have hfetch : fetchInstruction m.toState = .ok (.arithmeticImmediate .addi 3 3 1) := by
    rw [fetchInstruction_of_read (by rw [hpc]; decide) hw]
    rfl
  have hnext : m.registers.pc + 4 = bodyEnd 0x80000000 1 := by
    rw [hpc]
    rfl
  have hrun := Exec.modifyRegisters_run (·.arithmeticImmediate .addi 3 3 1) (advance m.toState)
  exact ⟨_, _, step_of_execute_ok hfetch hrun, hnext, rfl, hmemory⟩

theorem increments_countedLoop : CountedLoop Increments 0x80000000 1 where
  aligned := by decide
  entry _ hm := hm.2
  body m hm := by
    obtain ⟨i, t, hstep, hpc, hctr, hmemory⟩ := hm.step_ok
    have hbranch : incrementing.read32 (bodyEnd 0x80000000 1) = .ok 0x4200FFFC := rfl
    refine ⟨_, t, closesLoop_bdnz, ⟨.next hstep (.refl t), hpc, hctr, hm.1 ▸ hbranch,
      hmemory ▸ hbranch⟩, fun htaken => ?_⟩
    obtain ⟨j, hback⟩ := step_branch (hpc ▸ by decide) (hpc ▸ hmemory ▸ hbranch)
      closesLoop_bdnz.conditional
    rw [hback]
    exact ⟨hmemory, by rw [Word.afterBranch, if_pos htaken, closesLoop_bdnz.branchTarget_eq hpc]⟩

/-- With a CTR of zero the two instructions are executed 2^32 times. -/
theorem CountedLoop.runs_rounds_zero :
    CountedLoop Increments 0x80000000 1 ∧
    Increments { memory := incrementing, registers := { pc := 0x80000000 } } ∧
    ∃ t, Steps (2 ^ 32 * 2) { memory := incrementing, registers := { pc := 0x80000000 } } t ∧
      t.registers.pc = 0x80000008 ∧ t.registers.ctr = 0 := by
  have hin : Increments { memory := incrementing, registers := { pc := 0x80000000 } } := ⟨rfl, rfl⟩
  exact ⟨increments_countedLoop, hin, (increments_countedLoop.runs_rounds hin).1⟩

end Machine

end PowerPC
