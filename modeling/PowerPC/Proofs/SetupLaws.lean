import PowerPC.Config.Basic
import PowerPC.Proofs.CallLaws
import PowerPC.Proofs.FaultLaws

/-!
# Machines from configurations

A configuration makes a machine exactly if its sentinel is aligned, there is a region and the
regions make a memory, and otherwise the first of these that fails is reported. The sentinel has to
be aligned because a return through LR cuts off its low bits: so a function that returns through the
LR it was called with gets to the sentinel, whatever the machine has loaded.
-/

namespace PowerPC

-- ---------------------------------------------------------------------------
-- Setup
-- ---------------------------------------------------------------------------

namespace Config

variable {c : Config} {m : Machine} {e : SetupError}

def machineOver (c : Config) (memory : Memory) : Machine :=
  { memory, sentinel := c.sentinel, dumpDir := c.dumpDir }

theorem machine_of_unaligned (h : ¬ c.sentinel.Aligned) :
    c.machine = .error (.config (.unalignedSentinel c.sentinel)) := by
  have hodd : c.sentinel.toNat % 4 ≠ 0 := h
  rw [machine, validate, if_pos hodd]
  rfl

theorem machine_of_noRegions (haligned : c.sentinel.Aligned) (h : c.regions = []) :
    c.machine = .error (.config .noRegions) := by
  have heven : ¬ c.sentinel.toNat % 4 ≠ 0 := fun hodd => hodd haligned
  rw [machine, validate, if_neg heven, if_pos h]
  rfl

theorem machine_of_valid (haligned : c.sentinel.Aligned) (h : c.regions ≠ []) :
    c.machine = match Memory.ofRegions c.regions with
      | .ok memory => .ok (c.machineOver memory)
      | .error e => .error (.memory e) := by
  have heven : ¬ c.sentinel.toNat % 4 ≠ 0 := fun hodd => hodd haligned
  rw [machine, validate, if_neg heven, if_neg h]
  cases Memory.ofRegions c.regions <;> rfl

theorem machine_ok_iff : c.machine = .ok m ↔ c.sentinel.Aligned ∧ c.regions ≠ [] ∧
    ∃ memory, Memory.ofRegions c.regions = .ok memory ∧ m = c.machineOver memory := by
  by_cases haligned : c.sentinel.Aligned
  · by_cases h : c.regions = []
    · simp [machine_of_noRegions haligned h, h]
    · rw [machine_of_valid haligned h]
      cases Memory.ofRegions c.regions <;> simp [haligned, h, eq_comm]
  · simp [machine_of_unaligned haligned, haligned]

/-- What a configuration is refused for. Each case presumes that the ones above it do not apply. -/
inductive Refused (c : Config) : SetupError → Prop where
  | unaligned : ¬ c.sentinel.Aligned → Refused c (.config (.unalignedSentinel c.sentinel))
  | noRegions : c.sentinel.Aligned → c.regions = [] → Refused c (.config .noRegions)
  | memory {e : LayoutError} : c.sentinel.Aligned → c.regions ≠ [] →
    Memory.ofRegions c.regions = .error e → Refused c (.memory e)

theorem machine_error_iff : c.machine = .error e ↔ Refused c e := by
  constructor
  · intro h
    by_cases haligned : c.sentinel.Aligned
    · by_cases hregions : c.regions = []
      · cases (machine_of_noRegions haligned hregions).symm.trans h
        exact .noRegions haligned hregions
      · rw [machine_of_valid haligned hregions] at h
        split at h
        · cases h
        · cases h
          exact .memory haligned hregions ‹_›
    · cases (machine_of_unaligned haligned).symm.trans h
      exact .unaligned haligned
  · intro h
    cases h with
    | unaligned haligned => exact machine_of_unaligned haligned
    | noRegions haligned hregions => exact machine_of_noRegions haligned hregions
    | memory haligned hregions hmemory => rw [machine_of_valid haligned hregions, hmemory]

end Config

-- ---------------------------------------------------------------------------
-- Returns
-- ---------------------------------------------------------------------------

theorem Word.alignDown_of_aligned {w : Word} (h : w.Aligned) : w.alignDown = w := by
  apply BitVec.eq_of_toNat_eq
  unfold Aligned at h
  rw [toNat_alignDown]
  omega

namespace Machine

variable {m t : Machine} {n : Nat} {a : Word}

/-- The instruction at PC is a branch to LR, and its option lets it go. -/
def TakesReturn (m : Machine) : Prop :=
  ∃ bo bi lk, fetchInstruction m.toState = .ok (.branchToLr bo bi lk) ∧
    m.registers.lets bo bi = true

theorem lets_advance (r : Registers) (bo : Byte) (bi : CrBit) :
    r.next.lets bo bi = r.lets bo bi := by
  unfold Registers.lets Registers.countDown
  cases BranchOption.skipsCounter bo <;> rfl

theorem TakesReturn.step (h : t.TakesReturn) :
    ∃ i u, Machine.step t = (.ok i, u) ∧ u.registers.pc = t.registers.lr.alignDown := by
  obtain ⟨bo, bi, lk, hfetch, hlets⟩ := h
  have hnext : t.registers.next.lets bo bi = true := (lets_advance ..).trans hlets
  have hpc : (t.registers.next.branchToLr bo bi lk).pc = t.registers.lr.alignDown := by
    rw [Registers.branchToLr_eq, hnext]
    rfl
  exact ⟨_, _, step_of_execute_ok hfetch rfl, hpc⟩

theorem firstReturn_of_takesReturn (haligned : m.sentinel.Aligned) (hsteps : Steps n (m.enter a) t)
    (hout : StaysOut (n + 1) (m.enter a)) (hlr : t.registers.lr = m.sentinel)
    (hreturn : t.TakesReturn) :
    ∃ u, FirstReturn (n + 1) (m.enter a) u ∧ u.registers.pc = m.sentinel := by
  obtain ⟨i, u, hstep, hpc⟩ := hreturn.step
  have hall : Steps (n + 1) (m.enter a) u :=
    Steps.add_iff.mpr ⟨t, hsteps, .next hstep (.refl u)⟩
  rw [hlr, Word.alignDown_of_aligned haligned] at hpc
  exact ⟨u, ⟨hall, hpc.trans hall.settings.1.symm, hout⟩, hpc⟩

end Machine

/-- When a configuration makes a machine, and that a machine with its sentinel can be called: a
function returns with the first branch to LR that is taken while LR is as the call has set it. -/
theorem Config.machine_can_be_returned_to (c : Config) :
    (∀ m, c.machine = .ok m ↔ c.sentinel.Aligned ∧ c.regions ≠ [] ∧
      ∃ memory, Memory.ofRegions c.regions = .ok memory ∧ m = c.machineOver memory) ∧
    (∀ e, c.machine = .error e ↔ c.Refused e) ∧
    ∀ m₀, c.machine = .ok m₀ → ∀ m : Machine, m.sentinel = m₀.sentinel → m.stop = false →
      ∀ n a t, Machine.Steps n (m.enter a) t → Machine.StaysOut (n + 1) (m.enter a) →
        t.registers.lr = m.sentinel → t.TakesReturn →
        ∃ u, Machine.FirstReturn (n + 1) (m.enter a) u ∧ u.registers.pc = m.sentinel ∧
          u.count = m.count + BitVec.ofNat 64 (n + 1) ∧
          ∀ fuel, n + 1 ≤ fuel → Machine.runFunction fuel a m = some (.ok (), u) := by
  refine ⟨fun m => machine_ok_iff, fun e => machine_error_iff, ?_⟩
  intro m₀ hm₀ m hsentinel hstop n a t hsteps hout hlr hreturn
  obtain ⟨haligned, -, memory, -, rfl⟩ := machine_ok_iff.mp hm₀
  have halignedm : m.sentinel.Aligned := hsentinel ▸ haligned
  obtain ⟨u, hu, hpc⟩ :=
    Machine.firstReturn_of_takesReturn halignedm hsteps hout hlr hreturn
  refine ⟨u, hu, hpc, hu.steps.count, fun fuel hfuel => ?_⟩
  exact (Machine.runFunction_ok_iff hstop).mpr ⟨n + 1, Nat.lt_succ_of_le hfuel, hu⟩

/-- `li r3, 7` and `bdnzlrl`, with CTR at 2, on a machine with the default sentinel. -/
def Machine.linkingReturn : Machine :=
  { ({} : Config).machineOver (Memory.gamecube.store ⟨0, 0⟩
      [0x38, 0x60, 0x00, 0x07, 0x4E, 0x00, 0x00, 0x21]) with
    registers := { ctr := 2 } }

open Machine in
/-- The function returns although its last instruction writes LR. An odd sentinel is refused before
the missing regions are. -/
theorem Config.machine_can_be_returned_to_linking :
    ({} : Config).machine = .ok (({} : Config).machineOver .gamecube) ∧
    linkingReturn.sentinel = (({} : Config).machineOver .gamecube).sentinel ∧
    linkingReturn.stop = false ∧
    (∃ t, Steps 1 (linkingReturn.enter 0x80000000) t ∧
      StaysOut 2 (linkingReturn.enter 0x80000000) ∧
      t.registers.lr = linkingReturn.sentinel ∧ t.TakesReturn) ∧
    (∃ u, runFunction 2 0x80000000 linkingReturn = some (.ok (), u) ∧
      u.registers.pc = 0xDEADBEE0 ∧ u.count = 2) ∧
    ({ sentinel := 2, regions := [] } : Config).machine =
      .error (.config (.unalignedSentinel 2)) := by
  have hmachine : ({} : Config).machine = .ok (({} : Config).machineOver .gamecube) := rfl
  have hout : StaysOut 2 (linkingReturn.enter 0x80000000) :=
    (staysOut_succ rfl).mpr ⟨by unfold AtSentinel; decide,
      staysOut_one.mpr (by unfold AtSentinel; decide)⟩
  have hsteps := Steps.next (m := linkingReturn.enter 0x80000000) rfl (.refl _)
  obtain ⟨u, -, hpc, hcount, hrun⟩ := (machine_can_be_returned_to {}).2.2 _ hmachine linkingReturn
    rfl rfl 1 0x80000000 _ hsteps hout rfl ⟨_, _, _, rfl, rfl⟩
  refine ⟨hmachine, rfl, rfl, ⟨_, hsteps, hout, rfl, _, _, _, rfl, rfl⟩,
    ⟨u, hrun 2 (Nat.le_refl 2), hpc, hcount⟩, ?_⟩
  exact ((machine_can_be_returned_to _).2.1 _).mpr (.unaligned (by decide))

end PowerPC
