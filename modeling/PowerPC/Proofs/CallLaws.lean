import Mathlib.Logic.ExistsUnique
import PowerPC.Proofs.RunLaws

/-!
# Calls return to the sentinel

A called function has returned when PC is the sentinel for the first time. PC is looked at before
every step, so the instruction at the sentinel is never executed, and a call of the sentinel itself
is over at once.
-/

namespace PowerPC.Machine

variable {m m₁ t u : Machine} {n k fuel : Nat} {f : Fault} {i : Instruction}

-- ---------------------------------------------------------------------------
-- Runs to the sentinel
-- ---------------------------------------------------------------------------

def AtSentinel (m : Machine) : Prop := m.registers.pc = m.sentinel

def StaysOut (n : Nat) (m : Machine) : Prop := ∀ k < n, ∀ u, Steps k m u → ¬ u.AtSentinel

/-- PC is the sentinel after so many steps, and at no time before. -/
structure FirstReturn (n : Nat) (m t : Machine) : Prop where
  steps : Steps n m t
  returned : t.AtSentinel
  stays_out : StaysOut n m

/-- The step after so many faults, and PC has not been the sentinel until then. -/
structure FirstFault (n : Nat) (m : Machine) (f : Fault) (t : Machine) : Prop where
  faults : FaultsAfter n m f t
  stays_out : StaysOut (n + 1) m

theorem staysOut_zero : StaysOut 0 m := fun _ hk => absurd hk (Nat.not_lt_zero _)

theorem staysOut_one : StaysOut 1 m ↔ ¬ m.AtSentinel := by
  constructor
  · exact fun h => h 0 Nat.one_pos m (.refl m)
  · intro h k hk u hu
    obtain rfl := Nat.lt_one_iff.mp hk
    rwa [← Steps.zero_iff.mp hu]

theorem staysOut_succ (hstep : step m = (.ok i, m₁)) :
    StaysOut (n + 1) m ↔ ¬ m.AtSentinel ∧ StaysOut n m₁ := by
  constructor
  · intro h
    exact ⟨h 0 (Nat.succ_pos n) m (.refl m),
      fun k hk u hu => h (k + 1) (Nat.succ_lt_succ hk) u (.next hstep hu)⟩
  · rintro ⟨hm, h⟩ k hk u hu
    cases k with
    | zero => rwa [← Steps.zero_iff.mp hu]
    | succ k => exact h k (Nat.lt_of_succ_lt_succ hk) u ((Steps.succ_iff hstep).mp hu)

namespace FirstReturn

theorem of_atSentinel (h : m.AtSentinel) : FirstReturn n m t ↔ n = 0 ∧ m = t := by
  constructor
  · rintro ⟨hsteps, -, hout⟩
    cases n with
    | zero => exact ⟨rfl, Steps.zero_iff.mp hsteps⟩
    | succ n => exact absurd h (hout 0 (Nat.succ_pos n) m (.refl m))
  · rintro ⟨rfl, rfl⟩
    exact ⟨.refl m, h, staysOut_zero⟩

theorem not_zero (h : ¬ m.AtSentinel) : ¬ FirstReturn 0 m t := by
  rintro ⟨hsteps, ht, -⟩
  rw [← Steps.zero_iff.mp hsteps] at ht
  exact h ht

theorem succ_iff (h : ¬ m.AtSentinel) (hstep : step m = (.ok i, m₁)) :
    FirstReturn (n + 1) m t ↔ FirstReturn n m₁ t := by
  constructor
  · rintro ⟨hsteps, ht, hout⟩
    exact ⟨(Steps.succ_iff hstep).mp hsteps, ht, ((staysOut_succ hstep).mp hout).2⟩
  · rintro ⟨hsteps, ht, hout⟩
    exact ⟨(Steps.succ_iff hstep).mpr hsteps, ht, (staysOut_succ hstep).mpr ⟨h, hout⟩⟩

theorem unique (h : FirstReturn n m t) (h' : FirstReturn k m u) : n = k := by
  rcases Nat.lt_trichotomy n k with hlt | heq | hlt
  · exact absurd h.returned (h'.stays_out n hlt t h.steps)
  · exact heq
  · exact absurd h'.returned (h.stays_out k hlt u h'.steps)

end FirstReturn

namespace FirstFault

theorem not_of_atSentinel (h : m.AtSentinel) : ¬ FirstFault n m f t :=
  fun hf => hf.stays_out 0 (Nat.succ_pos n) m (.refl m) h

theorem zero_iff (h : ¬ m.AtSentinel) : FirstFault 0 m f t ↔ step m = (.error f, t) := by
  rw [← FaultsAfter.zero_iff]
  exact ⟨FirstFault.faults, fun hf => ⟨hf, staysOut_one.mpr h⟩⟩

theorem succ_iff (h : ¬ m.AtSentinel) (hstep : step m = (.ok i, m₁)) :
    FirstFault (n + 1) m f t ↔ FirstFault n m₁ f t := by
  constructor
  · rintro ⟨hf, hout⟩
    exact ⟨(FaultsAfter.succ_iff hstep).mp hf, ((staysOut_succ hstep).mp hout).2⟩
  · rintro ⟨hf, hout⟩
    exact ⟨(FaultsAfter.succ_iff hstep).mpr hf, (staysOut_succ hstep).mpr ⟨h, hout⟩⟩

end FirstFault

theorem runToSentinel_of_atSentinel (h : m.AtSentinel) :
    runToSentinel fuel m = some (.ok (), m) := by
  rw [runToSentinel.eq_def, if_pos (show m.registers.pc = m.sentinel from h)]

theorem runToSentinel_of_stop (h : ¬ m.AtSentinel) (hstop : m.stop = true) :
    runToSentinel fuel m = some (.ok (), { m with stop := false }) := by
  rw [runToSentinel.eq_def, if_neg (show ¬ m.registers.pc = m.sentinel from h), if_pos hstop]

theorem runToSentinel_zero (h : ¬ m.AtSentinel) (hstop : m.stop = false) :
    runToSentinel 0 m = none := by
  rw [runToSentinel.eq_def, if_neg (show ¬ m.registers.pc = m.sentinel from h)]
  simp only [hstop, Bool.false_eq_true, if_false]

theorem runToSentinel_of_ok (h : ¬ m.AtSentinel) (hstop : m.stop = false)
    (hstep : step m = (.ok i, m₁)) : runToSentinel (fuel + 1) m = runToSentinel fuel m₁ := by
  rw [runToSentinel.eq_def, if_neg (show ¬ m.registers.pc = m.sentinel from h)]
  simp only [hstop, Bool.false_eq_true, if_false, hstep]

theorem runToSentinel_of_fault (h : ¬ m.AtSentinel) (hstop : m.stop = false)
    (hf : step m = (.error f, m₁)) : runToSentinel (fuel + 1) m = some (.error f, m₁) := by
  rw [runToSentinel.eq_def, if_neg (show ¬ m.registers.pc = m.sentinel from h)]
  simp only [hstop, Bool.false_eq_true, if_false, hf]

theorem runToSentinel_ok_iff (hstop : m.stop = false) :
    runToSentinel fuel m = some (.ok (), t) ↔ ∃ n < fuel + 1, FirstReturn n m t := by
  induction fuel generalizing m with
  | zero =>
    by_cases h : m.AtSentinel
    · simp [runToSentinel_of_atSentinel h, FirstReturn.of_atSentinel h]
    · simp [runToSentinel_zero h hstop, FirstReturn.not_zero h]
  | succ fuel ih =>
    by_cases h : m.AtSentinel
    · rw [Nat.exists_lt_succ_left]
      simp [runToSentinel_of_atSentinel h, FirstReturn.of_atSentinel h]
    · rw [Nat.exists_lt_succ_left, or_iff_right (FirstReturn.not_zero h)]
      cases hstep : step m with
      | mk result m₁ =>
        cases result with
        | error f =>
          have hrest : ¬ ∃ n < fuel + 1, FirstReturn (n + 1) m t :=
            fun ⟨n, _, hn⟩ => Steps.not_of_fault hstep hn.steps
          rw [runToSentinel_of_fault h hstop hstep, iff_false_right hrest]
          nofun
        | ok i =>
          have hstop₁ : m₁.stop = false := (step_ok_settings hstep).2.trans hstop
          rw [runToSentinel_of_ok h hstop hstep, ih hstop₁]
          simp only [FirstReturn.succ_iff h hstep]

theorem runToSentinel_error_iff (hstop : m.stop = false) :
    runToSentinel fuel m = some (.error f, t) ↔ ∃ n < fuel, FirstFault n m f t := by
  induction fuel generalizing m with
  | zero =>
    by_cases h : m.AtSentinel
    · simp [runToSentinel_of_atSentinel h]
    · simp [runToSentinel_zero h hstop]
  | succ fuel ih =>
    by_cases h : m.AtSentinel
    · simp [runToSentinel_of_atSentinel h, FirstFault.not_of_atSentinel h]
    · rw [Nat.exists_lt_succ_left, FirstFault.zero_iff h]
      cases hstep : step m with
      | mk result m₁ =>
        cases result with
        | error g =>
          have hrest : ¬ ∃ n < fuel, FirstFault (n + 1) m f t :=
            fun ⟨n, _, hn⟩ => Steps.not_of_fault hstep hn.faults.steps
          rw [runToSentinel_of_fault h hstop hstep, or_iff_left hrest, Option.some.injEq,
            Prod.mk.injEq, Prod.mk.injEq, Except.error.injEq, Except.error.injEq]
        | ok i =>
          have hstop₁ : m₁.stop = false := (step_ok_settings hstep).2.trans hstop
          rw [runToSentinel_of_ok h hstop hstep, ih hstop₁, or_iff_right (by nofun)]
          simp only [FirstFault.succ_iff h hstep]

-- ---------------------------------------------------------------------------
-- Calls
-- ---------------------------------------------------------------------------

variable {a : Word}

theorem runFunction_ok_iff (hstop : m.stop = false) :
    runFunction fuel a m = some (.ok (), t) ↔ ∃ n < fuel + 1, FirstReturn n (m.enter a) t :=
  runToSentinel_ok_iff (m := m.enter a) hstop

theorem runFunction_error_iff (hstop : m.stop = false) :
    runFunction fuel a m = some (.error f, t) ↔ ∃ n < fuel, FirstFault n (m.enter a) f t :=
  runToSentinel_error_iff (m := m.enter a) hstop

/-- A call ends where PC is the sentinel for the first time, or at a fault that comes before, and
in no other way. -/
theorem runFunction_first_return (hstop : m.stop = false) (a : Word) :
    (∀ n t, FirstReturn n (m.enter a) t →
      t.count = m.count + BitVec.ofNat 64 n ∧
      ∀ fuel, n ≤ fuel → runFunction fuel a m = some (.ok (), t)) ∧
    (∀ n f t, FirstFault n (m.enter a) f t →
      t.count = m.count + BitVec.ofNat 64 n ∧
      ∀ fuel, n < fuel → runFunction fuel a m = some (.error f, t)) ∧
    (∀ fuel result t, runFunction fuel a m = some (result, t) →
      ∃! n, (result = .ok () ∧ FirstReturn n (m.enter a) t) ∨
        ∃ f, result = .error f ∧ FirstFault n (m.enter a) f t) ∧
    (a = m.sentinel → FirstReturn 0 (m.enter a) (m.enter a)) := by
  refine ⟨fun n t h => ⟨h.steps.count, fun fuel hn => ?_⟩,
    fun n f t h => ⟨h.faults.steps.count, fun fuel hn => ?_⟩, fun fuel result t h => ?_,
    fun ha => ?_⟩
  · exact (runFunction_ok_iff hstop).mpr ⟨n, Nat.lt_succ_of_le hn, h⟩
  · exact (runFunction_error_iff hstop).mpr ⟨n, hn, h⟩
  · cases result with
    | ok value =>
      obtain ⟨n, -, hn⟩ := (runFunction_ok_iff hstop).mp h
      refine ⟨n, .inl ⟨rfl, hn⟩, fun k hk => ?_⟩
      rcases hk with ⟨-, hk⟩ | ⟨_, heq, -⟩
      · exact hk.unique hn
      · cases heq
    | error f =>
      obtain ⟨n, -, hn⟩ := (runFunction_error_iff hstop).mp h
      refine ⟨n, .inr ⟨f, rfl, hn⟩, fun k hk => ?_⟩
      rcases hk with ⟨heq, -⟩ | ⟨_, -, hk⟩
      · cases heq
      · exact hk.faults.unique hn.faults
  · have hat : (m.enter a).AtSentinel := ha
    exact (FirstReturn.of_atSentinel hat).mpr ⟨rfl, rfl⟩

/-- `li r3, 7` and `blr`, then the sentinel, where no instruction stands, then a `nop` and again no
instruction. -/
def sevenThenReturn : Machine where
  memory := Memory.gamecube.store ⟨0, 0⟩
    [0x38, 0x60, 0x00, 0x07, 0x4E, 0x80, 0x00, 0x20, 0x00, 0x00, 0x00, 0x00, 0x60, 0x00, 0x00, 0x00]
  sentinel := 0x80000008

theorem runFunction_first_return_seven :
    sevenThenReturn.stop = false ∧
    (∃ t, FirstReturn 2 (sevenThenReturn.enter 0x80000000) t ∧
      runFunction 2 0x80000000 sevenThenReturn = some (.ok (), t)) ∧
    (∃ t, FirstFault 1 (sevenThenReturn.enter 0x8000000C) (.unsupportedOpcode 0) t ∧
      runFunction 2 0x8000000C sevenThenReturn = some (.error (.unsupportedOpcode 0), t)) ∧
    FirstReturn 0 (sevenThenReturn.enter 0x80000008) (sevenThenReturn.enter 0x80000008) := by
  have hstop : sevenThenReturn.stop = false := rfl
  have hout (a : Word) (ha : a ≠ 0x80000008) : ¬ (sevenThenReturn.enter a).AtSentinel := ha
  have hreturn := (FirstReturn.succ_iff (hout 0x80000000 (by decide)) rfl).mpr
    ((FirstReturn.succ_iff (by unfold AtSentinel; decide) rfl).mpr
      ((FirstReturn.of_atSentinel (by unfold AtSentinel; rfl)).mpr ⟨rfl, rfl⟩))
  have hfault := (FirstFault.succ_iff (hout 0x8000000C (by decide)) rfl).mpr
    ((FirstFault.zero_iff (f := .unsupportedOpcode 0) (by unfold AtSentinel; decide)).mpr rfl)
  exact ⟨hstop,
    ⟨_, hreturn, ((runFunction_first_return hstop _).1 _ _ hreturn).2 _ (by decide)⟩,
    ⟨_, hfault, ((runFunction_first_return hstop _).2.1 _ _ _ hfault).2 _ (by decide)⟩,
    (runFunction_first_return hstop _).2.2.2 rfl⟩

end PowerPC.Machine
