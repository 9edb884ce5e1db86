import PowerPC.Machine.Run
import PowerPC.Proofs.StepLaws

/-!
# Runs are counted steps

While nobody asks the machine to stop, a run is a number of steps that succeed, and then what ends
it: its budget is used up, PC is the sentinel, or one more step faults. Of one machine every run is
a first part of every longer one, so the number of steps is determined by the outcome.
-/

namespace PowerPC.Machine

inductive Steps : Nat → Machine → Machine → Prop
  | refl (m) : Steps 0 m m
  | next {i m m₁ t n} : step m = (.ok i, m₁) → Steps n m₁ t → Steps (n + 1) m t

structure FaultsAfter (n : Nat) (m : Machine) (f : Fault) (t : Machine) : Prop where
  steps : Steps n m t
  faults : (step t).1 = .error f

variable {m m₁ t u : Machine} {n k : Nat} {f g : Fault} {i : Instruction}

-- ---------------------------------------------------------------------------
-- Counted steps
-- ---------------------------------------------------------------------------

theorem step_ok_settings (h : step m = (.ok i, t)) : t.sentinel = m.sentinel ∧ t.stop = m.stop := by
  rcases step_cases m with ⟨_, -, hm⟩ | ⟨_, _, -, -, hm⟩ | ⟨_, _, -, -, hm⟩
  · rw [hm] at h
    cases h
  · rw [hm] at h
    cases h
  · rw [hm] at h
    cases h
    exact ⟨rfl, rfl⟩

theorem step_fault_iff : (step m).1 = .error f ↔ step m = (.error f, m) := by
  constructor
  · intro h
    cases hstep : step m with
    | mk result m' =>
      rw [hstep] at h
      cases h
      rw [step_error_machine hstep]
  · intro h
    rw [h]

namespace Steps

theorem zero_iff : Steps 0 m t ↔ m = t := by
  constructor
  · intro h
    cases h
    rfl
  · rintro rfl
    exact .refl m

theorem succ_iff (hstep : step m = (.ok i, m₁)) : Steps (n + 1) m t ↔ Steps n m₁ t := by
  constructor
  · intro h
    cases h with
    | next hstep' h =>
      rw [hstep] at hstep'
      cases hstep'
      exact h
  · exact .next hstep

theorem not_of_fault (hf : step m = (.error f, m₁)) : ¬ Steps (n + 1) m t := by
  intro h
  cases h with
  | next hstep _ =>
    rw [hf] at hstep
    cases hstep

theorem settings (h : Steps n m t) : t.sentinel = m.sentinel ∧ t.stop = m.stop := by
  induction h with
  | refl m => exact ⟨rfl, rfl⟩
  | next hstep _ ih =>
    obtain ⟨hsentinel, hstop⟩ := step_ok_settings hstep
    exact ⟨ih.1.trans hsentinel, ih.2.trans hstop⟩

theorem count (h : Steps n m t) : t.count = m.count + BitVec.ofNat 64 n := by
  induction h with
  | refl m => simp
  | next hstep _ ih =>
    rw [ih, step_ok_count hstep, BitVec.ofNat_add, BitVec.add_assoc]
    exact congrArg (_ + ·) (BitVec.add_comm _ _)

theorem unique (ht : Steps n m t) (hu : Steps n m u) : t = u := by
  induction ht with
  | refl m => exact zero_iff.mp hu
  | next hstep _ ih => exact ih ((succ_iff hstep).mp hu)

theorem add_iff : Steps (n + k) m t ↔ ∃ u, Steps n m u ∧ Steps k u t := by
  constructor
  · intro h
    induction n generalizing m with
    | zero => exact ⟨m, .refl m, by rwa [Nat.zero_add] at h⟩
    | succ n ih =>
      rw [Nat.add_right_comm] at h
      cases h with
      | next hstep h =>
        obtain ⟨u, hu, ht⟩ := ih h
        exact ⟨u, .next hstep hu, ht⟩
  · rintro ⟨u, hu, ht⟩
    induction hu with
    | refl m => rwa [Nat.zero_add]
    | next hstep _ ih =>
      rw [Nat.add_right_comm]
      exact .next hstep (ih ht)

end Steps

namespace FaultsAfter

theorem zero_iff : FaultsAfter 0 m f t ↔ step m = (.error f, t) := by
  constructor
  · rintro ⟨hsteps, hf⟩
    obtain rfl := Steps.zero_iff.mp hsteps
    exact step_fault_iff.mp hf
  · intro h
    obtain rfl := step_error_machine h
    exact ⟨.refl _, step_fault_iff.mpr h⟩

theorem succ_iff (hstep : step m = (.ok i, m₁)) :
    FaultsAfter (n + 1) m f t ↔ FaultsAfter n m₁ f t :=
  ⟨fun ⟨hsteps, hf⟩ => ⟨(Steps.succ_iff hstep).mp hsteps, hf⟩,
    fun ⟨hsteps, hf⟩ => ⟨(Steps.succ_iff hstep).mpr hsteps, hf⟩⟩

/-- Where a step faults, every run has ended. -/
theorem le (h : FaultsAfter n m f t) (hu : Steps k m u) : k ≤ n := by
  rcases Nat.lt_or_ge n k with hlt | hle
  · obtain ⟨d, rfl⟩ := Nat.exists_eq_add_of_lt hlt
    obtain ⟨t', ht', hrest⟩ := Steps.add_iff.mp (show Steps (n + (d + 1)) m u from hu)
    obtain rfl := h.steps.unique ht'
    exact absurd hrest (Steps.not_of_fault (step_fault_iff.mp h.faults))
  · exact hle

theorem unique (h : FaultsAfter n m f t) (h' : FaultsAfter k m g u) : n = k :=
  Nat.le_antisymm (h'.le h.steps) (h.le h'.steps)

end FaultsAfter

-- ---------------------------------------------------------------------------
-- Runs without end
-- ---------------------------------------------------------------------------

theorem run_of_stop {fuel : Nat} (hstop : m.stop = true) :
    run fuel m = some (.ok (), { m with stop := false }) := by
  rw [run.eq_def, if_pos hstop]

theorem run_zero (hstop : m.stop = false) : run 0 m = none := by
  rw [run.eq_def]
  simp only [hstop, Bool.false_eq_true, if_false]

theorem run_of_ok {fuel : Nat} (hstop : m.stop = false) (hstep : step m = (.ok i, m₁)) :
    run (fuel + 1) m = run fuel m₁ := by
  rw [run.eq_def]
  simp only [hstop, Bool.false_eq_true, if_false, hstep]

theorem run_of_fault {fuel : Nat} (hstop : m.stop = false) (hf : step m = (.error f, m₁)) :
    run (fuel + 1) m = some (.error f, m₁) := by
  rw [run.eq_def]
  simp only [hstop, Bool.false_eq_true, if_false, hf]

-- ---------------------------------------------------------------------------
-- Runs with a budget
-- ---------------------------------------------------------------------------

theorem runFor_go_of_stop (hstop : m.stop = true) :
    runFor.go (n + 1) k m = (.ok k, { m with stop := false }) := by
  rw [runFor.go]
  simp only [hstop, if_true]

theorem runFor_go_of_ok (hstop : m.stop = false) (hstep : step m = (.ok i, m₁)) :
    runFor.go (n + 1) k m = runFor.go n (k + 1) m₁ := by
  rw [runFor.go]
  simp only [hstop, Bool.false_eq_true, if_false, hstep]

theorem runFor_go_of_fault (hstop : m.stop = false) (hf : step m = (.error f, m₁)) :
    runFor.go (n + 1) k m = (.error f, m₁) := by
  rw [runFor.go]
  simp only [hstop, Bool.false_eq_true, if_false, hf]

theorem runFor_go_ok_iff {r : Nat} (hstop : m.stop = false) :
    runFor.go n k m = (.ok r, t) ↔ r = k + n ∧ Steps n m t := by
  induction n generalizing k m with
  | zero =>
    have hgo : runFor.go 0 k m = (.ok k, m) := rfl
    rw [hgo, Steps.zero_iff, Prod.mk.injEq, Except.ok.injEq, Nat.add_zero, eq_comm (a := k)]
  | succ n ih =>
    cases hstep : step m with
    | mk result m₁ =>
      cases result with
      | error f =>
        rw [runFor_go_of_fault hstop hstep, Prod.mk.injEq]
        simp [Steps.not_of_fault hstep]
      | ok i =>
        have hstop₁ : m₁.stop = false := (step_ok_settings hstep).2.trans hstop
        rw [runFor_go_of_ok hstop hstep, ih hstop₁, Steps.succ_iff hstep, Nat.add_right_comm,
          Nat.add_assoc]

theorem runFor_go_error_iff (hstop : m.stop = false) :
    runFor.go n k m = (.error f, t) ↔ ∃ j < n, FaultsAfter j m f t := by
  induction n generalizing k m with
  | zero =>
    have hgo : runFor.go 0 k m = (.ok k, m) := rfl
    rw [hgo, Prod.mk.injEq]
    simp
  | succ n ih =>
    rw [Nat.exists_lt_succ_left, FaultsAfter.zero_iff]
    cases hstep : step m with
    | mk result m₁ =>
      cases result with
      | error g =>
        have hrest : ¬ ∃ j < n, FaultsAfter (j + 1) m f t :=
          fun ⟨j, _, hj⟩ => Steps.not_of_fault hstep hj.steps
        rw [runFor_go_of_fault hstop hstep, or_iff_left hrest, Prod.mk.injEq, Prod.mk.injEq,
          Except.error.injEq, Except.error.injEq]
      | ok i =>
        have hstop₁ : m₁.stop = false := (step_ok_settings hstep).2.trans hstop
        rw [runFor_go_of_ok hstop hstep, ih hstop₁, or_iff_right (by nofun)]
        simp only [FaultsAfter.succ_iff hstep]

theorem runFor_ok_iff {r : Nat} (hstop : m.stop = false) :
    runFor n m = (.ok r, t) ↔ r = n ∧ Steps n m t := by
  rw [runFor, runFor_go_ok_iff hstop, Nat.zero_add]

theorem runFor_error_iff (hstop : m.stop = false) :
    runFor n m = (.error f, t) ↔ ∃ j < n, FaultsAfter j m f t := by
  rw [runFor, runFor_go_error_iff hstop]

/-- What runs with a budget do on a machine that nobody asks to stop. -/
structure Budgeted (m : Machine) : Prop where
  /-- A first part that faults is all that the longer run does. -/
  add_of_error : ∀ j n f t, runFor j m = (.error f, t) → runFor (j + n) m = (.error f, t)
  /-- After a first part that succeeds the rest runs on its own; only the number is added up. -/
  add_of_ok : ∀ j n t, runFor j m = (.ok j, t) →
    runFor (j + n) m = ((runFor n t).1.map fun _ => j + n, (runFor n t).2)
  ok_iff : ∀ n t, runFor n m = (.ok n, t) ↔ Steps n m t
  ok_count : ∀ n r t, runFor n m = (.ok r, t) → r = n ∧ t.count = m.count + BitVec.ofNat 64 n
  /-- A run that faults ends where some shorter run ends, and no other run ends at a fault. -/
  error : ∀ n f t, runFor n m = (.error f, t) → ∃ j < n,
    runFor j m = (.ok j, t) ∧ step t = (.error f, t) ∧ t.count = m.count + BitVec.ofNat 64 j ∧
    ∀ k u g, runFor k m = (.ok k, u) → (step u).1 = .error g → k = j

theorem runFor_add_of_ok (hstop : m.stop = false) (h : Steps k m t) :
    runFor (k + n) m = ((runFor n t).1.map fun _ => k + n, (runFor n t).2) := by
  have hstop' : t.stop = false := h.settings.2.trans hstop
  cases hrest : runFor n t with
  | mk result u =>
    cases result with
    | ok r =>
      obtain ⟨rfl, hu⟩ := (runFor_ok_iff hstop').mp hrest
      exact (runFor_ok_iff hstop).mpr ⟨rfl, Steps.add_iff.mpr ⟨t, h, hu⟩⟩
    | error f =>
      obtain ⟨j, hj, hu, hf⟩ := (runFor_error_iff hstop').mp hrest
      exact (runFor_error_iff hstop).mpr
        ⟨k + j, Nat.add_lt_add_left hj k, Steps.add_iff.mpr ⟨t, h, hu⟩, hf⟩

theorem budgeted (hstop : m.stop = false) : Budgeted m where
  add_of_error j n f t h := by
    obtain ⟨i, hi, hf⟩ := (runFor_error_iff hstop).mp h
    exact (runFor_error_iff hstop).mpr ⟨i, Nat.lt_add_right n hi, hf⟩
  add_of_ok j n t h := runFor_add_of_ok hstop ((runFor_ok_iff hstop).mp h).2
  ok_iff n t := by
    rw [runFor_ok_iff hstop]
    exact and_iff_right rfl
  ok_count n r t h := by
    obtain ⟨rfl, ht⟩ := (runFor_ok_iff hstop).mp h
    exact ⟨rfl, ht.count⟩
  error n f t h := by
    obtain ⟨j, hj, hf⟩ := (runFor_error_iff hstop).mp h
    refine ⟨j, hj, (runFor_ok_iff hstop).mpr ⟨rfl, hf.steps⟩, step_fault_iff.mp hf.faults,
      hf.steps.count, fun k u g hk hg => ?_⟩
    exact FaultsAfter.unique ⟨((runFor_ok_iff hstop).mp hk).2, hg⟩ hf

/-- Two instructions that do nothing, and then a word that is none. -/
def runningOut : Machine where
  memory := Memory.gamecube.store ⟨0, 0⟩ [0x60, 0x00, 0x00, 0x00, 0x60, 0x00, 0x00, 0x00]
  registers := { pc := 0x80000000 }

theorem budgeted_runningOut :
    runningOut.stop = false ∧ Budgeted runningOut ∧ (runFor 2 runningOut).1 = .ok 2 ∧
      (runFor 5 runningOut).1 = .error (.unsupportedOpcode 0) :=
  ⟨rfl, budgeted rfl, rfl, rfl⟩

end PowerPC.Machine
