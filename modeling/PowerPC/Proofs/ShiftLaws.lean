import Mathlib.Algebra.Order.Group.Int
import PowerPC.Proofs.CarryLaws

/-!
# Shifts

A left shift multiplies by a power of two and keeps the low half. A right shift divides by one: the
logical shift the unsigned number, the algebraic shift the signed number, which it rounds down. CA
says whether a negative number was rounded, so adding CA to the quotient rounds it toward zero.
-/

namespace PowerPC

-- ---------------------------------------------------------------------------
-- Words
-- ---------------------------------------------------------------------------

namespace Word

variable (w : Word) (n : Nat)

theorem shiftLeft_toNat : (w <<< n).toNat = w.toNat * 2 ^ n % 2 ^ 32 := by
  rw [BitVec.toNat_shiftLeft, Nat.shiftLeft_eq]

theorem shiftRight_toNat : (w >>> n).toNat = w.toNat / 2 ^ n := by
  rw [BitVec.toNat_ushiftRight, Nat.shiftRight_eq_div_pow]

theorem shiftRightAlgebraic_toInt :
    (w.shiftRightAlgebraic n).1.toInt = w.toInt.fdiv (2 ^ n) := by
  rw [Int.fdiv_eq_ediv_of_nonneg _ (Int.pow_nonneg (by decide))]
  show (w.sshiftRight n).toInt = _
  rw [BitVec.toInt_sshiftRight, Int.shiftRight_eq_div_pow, Nat.cast_pow, Nat.cast_ofNat]

theorem toNat_lost : (w &&& ((1#32 <<< n) - 1)).toNat = w.toNat % 2 ^ n := by
  have hw := w.isLt
  rcases Nat.lt_or_ge n 32 with hn | hn
  · have hlt : 2 ^ n < 2 ^ 32 := Nat.pow_lt_pow_right (by decide) hn
    have hone : ((1#32 <<< n) - 1).toNat = 2 ^ n - 1 := by
      have hpos := Nat.two_pow_pos n
      have hshift : (1#32 <<< n).toNat = 2 ^ n := by
        rw [shiftLeft_toNat, BitVec.toNat_ofNat]
        simpa using Nat.mod_eq_of_lt hlt
      rw [BitVec.toNat_sub_of_le (by rw [BitVec.le_def, hshift]; exact hpos), hshift]
      rfl
    rw [BitVec.toNat_and, hone, Nat.and_two_pow_sub_one_eq_mod]
  · -- Nothing is shifted back in, so the mask takes the whole word.
    have hle : 2 ^ 32 ≤ 2 ^ n := Nat.pow_le_pow_right (by decide) hn
    have hzero : 1#32 <<< n = 0 := BitVec.shiftLeft_eq_zero hn
    rw [hzero, Nat.mod_eq_of_lt (Nat.lt_of_lt_of_le hw hle)]
    show (w &&& BitVec.allOnes 32).toNat = w.toNat
    rw [BitVec.and_allOnes]

/-- Whether a power of two divides a word does not depend on how the sign is read: up to 2^32 it
divides what the two readings differ by, and from there on it is greater than either. -/
theorem dvd_toInt_iff : (2 ^ n : Int) ∣ w.toInt ↔ w.toNat % 2 ^ n = 0 := by
  have hnat : (2 ^ n : Int) ∣ w.toNat ↔ w.toNat % 2 ^ n = 0 := by
    rw [← Nat.dvd_iff_mod_eq_zero, ← Int.natCast_dvd_natCast, Nat.cast_pow, Nat.cast_ofNat]
  have hw := w.isLt
  rw [← hnat, BitVec.toInt_eq_toNat_cond]
  split
  · rfl
  · rcases Nat.le_total n 32 with hn | hn
    · have hmod : (2 ^ n : Int) ∣ w.toNat - (w.toNat - (2 ^ 32 : Nat)) := by
        rw [sub_sub_cancel, Nat.cast_pow, Nat.cast_ofNat]
        exact pow_dvd_pow 2 hn
      exact (Int.dvd_iff_dvd_of_dvd_sub hmod).symm
    · have hle : 2 ^ 32 ≤ 2 ^ n := Nat.pow_le_pow_right (by decide) hn
      have hnot {x : Int} (hx : x ≠ 0) (hlt : x.natAbs < 2 ^ 32) : ¬ (2 ^ n : Int) ∣ x := by
        refine fun hdvd => hx (Int.eq_zero_of_dvd_of_natAbs_lt_natAbs hdvd ?_)
        rw [Int.natAbs_pow]
        exact Nat.lt_of_lt_of_le hlt hle
      exact iff_of_false (hnot (by omega) (by omega)) (hnot (by omega) (by omega))

theorem shiftRightAlgebraic_carry :
    (w.shiftRightAlgebraic n).2 = true ↔ w.toInt < 0 ∧ ¬ (2 ^ n : Int) ∣ w.toInt := by
  have hlost : (w &&& ((1#32 <<< n) - 1) != 0) = true ↔ ¬ (2 ^ n : Int) ∣ w.toInt := by
    rw [bne_iff_ne, dvd_toInt_iff, ← toNat_lost, ne_eq, ← BitVec.toNat_inj]
    rfl
  show (w.msb && (w &&& ((1#32 <<< n) - 1) != 0)) = true ↔ _
  rw [Bool.and_eq_true, hlost, BitVec.msb_eq_toInt, decide_eq_true_eq]

theorem addCarry_zero_toInt {q : Word} {carry : Bool} (h : carry = true → q.toInt < 0) :
    (addCarry q 0 carry).1.toInt = q.toInt + carry.toNat := by
  have hsum : (addCarry q 0 carry).1 = q + (BitVec.ofBool carry).setWidth 32 := by
    simp [addCarry, addOverflow]
  have hq := q.le_toInt
  cases carry with
  | false => rw [hsum]; simp
  | true =>
    have hneg := h rfl
    have hone : ((BitVec.ofBool true).setWidth 32).toInt = 1 := by decide
    rw [hsum, BitVec.toInt_add, hone]
    exact Int.bmod_eq_of_le (by omega) (by omega)

end Word

theorem tdiv_two_pow {v : Int} {n : Nat} {rounded : Bool}
    (h : rounded = true ↔ v < 0 ∧ ¬ (2 ^ n : Int) ∣ v) :
    v.tdiv (2 ^ n) = v.fdiv (2 ^ n) + rounded.toNat := by
  have hpos : (0 : Int) < 2 ^ n := Int.pow_pos (by decide)
  rw [Int.fdiv_eq_ediv_of_nonneg _ (Int.le_of_lt hpos), Int.tdiv_eq_ediv,
    Int.sign_eq_one_of_pos hpos]
  cases rounded with
  | false =>
    have hexact : 0 ≤ v ∨ (2 ^ n : Int) ∣ v := by
      simpa [or_iff_not_imp_left] using h
    rw [if_pos hexact]
    rfl
  | true =>
    obtain ⟨hneg, hdvd⟩ := h.mp rfl
    rw [if_neg (not_or.mpr ⟨Int.not_le.mpr hneg, hdvd⟩)]
    rfl

-- ---------------------------------------------------------------------------
-- Instructions
-- ---------------------------------------------------------------------------

def Registers.shiftAmount (r : Registers) (rb : Gpr) : Nat := (r.gpr rb).toNat % 64

namespace Instruction

/-- The target gets a number divided by `2^n` and rounded down. CA says whether a negative number
was rounded. -/
def RoundsDown (i : Instruction) (s : State) (ra : Gpr) (v : Int) (n : Nat) : Prop :=
  ∃ w ca, i.Yields s ra w ca ∧ w.toInt = v.fdiv (2 ^ n) ∧
    (ca = true ↔ v < 0 ∧ ¬ (2 ^ n : Int) ∣ v)

/-- With `addze` on the target after it, the number is divided and rounded toward zero. -/
def RoundsTowardZero (i : Instruction) (s : State) (ra : Gpr) (v : Int) (n : Nat) : Prop :=
  ∀ rt rb rc, ∃ s₁ s₂, i.execute s = (.ok (), s₁) ∧
    (arithmetic .addze rt ra rb false rc).execute s₁ = (.ok (), s₂) ∧
    (s₂.registers.gpr rt).toInt = v.tdiv (2 ^ n)

variable {s : State} {i : Instruction} {rs ra : Gpr} {n : Nat} {rc : Bool}

theorem roundsDown (h : i.execute s =
      Exec.modifyRegisters (·.shiftRightAlgebraic rs ra n rc) s) :
    i.RoundsDown s ra (s.registers.gpr rs).toInt n := by
  refine ⟨_, _, ⟨_, h, ?_, ?_⟩, Word.shiftRightAlgebraic_toInt _ n,
    Word.shiftRightAlgebraic_carry _ n⟩
  · simp [Registers.shiftRightAlgebraic]
  · simp [Registers.shiftRightAlgebraic, Registers.setCarry]

theorem RoundsDown.towardZero {v : Int} (h : i.RoundsDown s ra v n) :
    i.RoundsTowardZero s ra v n := by
  intro rt rb rc
  obtain ⟨w, ca, ⟨s₁, hshift, hw, hca⟩, hquotient, hrounded⟩ := h
  obtain ⟨s₂, hadd, hsum, -⟩ := arithmetic_yields .addze rt ra rb rc s₁
  have hneg : ca = true → w.toInt < 0 := fun hset => by
    rw [hquotient]
    exact Int.fdiv_neg_of_neg_of_pos (hrounded.mp hset).1 (Int.pow_pos (by decide))
  refine ⟨s₁, s₂, hshift, hadd, ?_⟩
  rw [hsum, hw, hca, tdiv_two_pow hrounded, ← hquotient]
  exact Word.addCarry_zero_toInt hneg

/-- Left and logical right shifts are exact on the unsigned number, and leave CA alone. Algebraic
right shifts round the signed number down and say so in CA, and with `addze` after them they round
it toward zero. -/
theorem shifts_exact (s : State) (rs ra : Gpr) (rc : Bool) :
    (∀ rb, ∃ w, (shift .slw rs ra rb rc).Yields s ra w s.registers.xer.ca ∧
      w.toNat = (s.registers.gpr rs).toNat * 2 ^ s.registers.shiftAmount rb % 2 ^ 32) ∧
    (∀ rb, ∃ w, (shift .srw rs ra rb rc).Yields s ra w s.registers.xer.ca ∧
      w.toNat = (s.registers.gpr rs).toNat / 2 ^ s.registers.shiftAmount rb) ∧
    (∀ rb, (shift .sraw rs ra rb rc).RoundsDown s ra (s.registers.gpr rs).toInt
        (s.registers.shiftAmount rb) ∧
      (shift .sraw rs ra rb rc).RoundsTowardZero s ra (s.registers.gpr rs).toInt
        (s.registers.shiftAmount rb)) ∧
    ∀ sh, (shiftRightAlgebraicImmediate rs ra sh rc).RoundsDown s ra (s.registers.gpr rs).toInt
        sh.toNat ∧
      (shiftRightAlgebraicImmediate rs ra sh rc).RoundsTowardZero s ra
        (s.registers.gpr rs).toInt sh.toNat := by
  refine ⟨fun rb => ⟨_, ⟨_, rfl, ?_, ?_⟩, Word.shiftLeft_toNat _ _⟩,
    fun rb => ⟨_, ⟨_, rfl, ?_, ?_⟩, Word.shiftRight_toNat _ _⟩, fun rb => ?_, fun sh => ?_⟩
  · simp [Registers.shift, Registers.shiftAmount]
  · simp [Registers.shift]
  · simp [Registers.shift, Registers.shiftAmount]
  · simp [Registers.shift]
  · have hamount : s.registers.shift .sraw rs ra rb rc =
        s.registers.shiftRightAlgebraic rs ra (s.registers.shiftAmount rb) rc := by
      rw [Registers.shift, Registers.shiftAmount]
    have hrun : (shift .sraw rs ra rb rc).execute s = Exec.modifyRegisters
        (·.shiftRightAlgebraic rs ra (s.registers.shiftAmount rb) rc) s := by
      show (Except.ok (), { s with registers := s.registers.shift .sraw rs ra rb rc }) = _
      rw [hamount]
      rfl
    have hdown : (shift .sraw rs ra rb rc).RoundsDown s ra (s.registers.gpr rs).toInt
        (s.registers.shiftAmount rb) := roundsDown hrun
    exact ⟨hdown, hdown.towardZero⟩
  · have hdown : (shiftRightAlgebraicImmediate rs ra sh rc).RoundsDown s ra
        (s.registers.gpr rs).toInt sh.toNat := roundsDown rfl
    exact ⟨hdown, hdown.towardZero⟩

end Instruction

example : Word.shiftRightAlgebraic 0x80000000 31 = (0xFFFFFFFF, false) ∧
    Word.shiftRightAlgebraic 0x80000000 32 = (0xFFFFFFFF, true) ∧
    Word.shiftRightAlgebraic 0x7FFFFFFF 255 = (0, false) := by decide

end PowerPC
