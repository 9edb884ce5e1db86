import Mathlib.Data.Int.Order.Basic
import PowerPC.Proofs.ArithmeticLaws
import PowerPC.Proofs.NumberLaws

/-!
# Products and quotients

The two halves of a product are together the product of the numbers, read as signed or as unsigned,
and both have the same low half. A quotient is the one of the numbers, rounded toward zero, where it
fits a word, and what multiplying it back leaves over is the remainder.
-/

namespace PowerPC

namespace Word

theorem toInt_halves (p : BitVec 64) :
    (p.extractLsb' 32 32).toInt * 2 ^ 32 + (p.setWidth 32).toNat = p.toInt := by
  have hlt := p.isLt
  simp only [BitVec.toInt_eq_toNat_cond, BitVec.extractLsb'_toNat, BitVec.toNat_setWidth,
    Nat.shiftRight_eq_div_pow]
  split <;> split <;> omega

theorem toNat_halves (p : BitVec 64) :
    (p.extractLsb' 32 32).toNat * 2 ^ 32 + (p.setWidth 32).toNat = p.toNat := by
  have hlt := p.isLt
  simp only [BitVec.extractLsb'_toNat, BitVec.toNat_setWidth, Nat.shiftRight_eq_div_pow]
  omega

theorem mulHighSigned_toInt (a b : Word) :
    (mulHighSigned a b).toInt * 2 ^ 32 + (a * b).toNat = a.toInt * b.toInt := by
  have hlow : a * b = (a.signExtend 64 * b.signExtend 64).setWidth 32 := by
    rw [BitVec.setWidth_mul _ _ (by decide), setWidth_signExtend a (by decide),
      setWidth_signExtend b (by decide)]
  have hle : a.toInt * b.toInt ≤ 2 ^ 62 := BitVec.toInt_mul_toInt_le
  have hge : -2 ^ 62 ≤ a.toInt * b.toInt := BitVec.le_toInt_mul_toInt
  rw [mulHighSigned, hlow, toInt_halves, BitVec.toInt_mul,
    BitVec.toInt_signExtend_of_le (by decide), BitVec.toInt_signExtend_of_le (by decide)]
  exact Int.bmod_eq_of_le (by omega) (by omega)

theorem mulHighUnsigned_toNat (a b : Word) :
    (mulHighUnsigned a b).toNat * 2 ^ 32 + (a * b).toNat = a.toNat * b.toNat := by
  have hlow : a * b = (a.setWidth 64 * b.setWidth 64).setWidth 32 := by
    rw [BitVec.setWidth_mul _ _ (by decide), BitVec.setWidth_setWidth_of_le _ (by decide),
      BitVec.setWidth_setWidth_of_le _ (by decide), BitVec.setWidth_eq, BitVec.setWidth_eq]
  have hlt : a.toNat * b.toNat < 2 ^ 32 * 2 ^ 32 := Nat.mul_lt_mul'' a.isLt b.isLt
  rw [mulHighUnsigned, hlow, toNat_halves, BitVec.toNat_mul,
    BitVec.toNat_setWidth_of_le (by decide), BitVec.toNat_setWidth_of_le (by decide)]
  exact Nat.mod_eq_of_lt hlt

theorem mul_toNat (a b : Word) : ((a * b).toNat : Int) = (a.toInt * b.toInt) % 2 ^ 32 := by
  have hhalves := mulHighSigned_toInt a b
  have hlt := (a * b).isLt
  omega

/-- There is a quotient of the signed numbers, and it fits a word. -/
def HasQuotient (a b : Word) : Prop := b ≠ 0 ∧ ¬ (a.toInt = -2 ^ 31 ∧ b.toInt = -1)

instance (a b : Word) : Decidable (a.HasQuotient b) := inferInstanceAs (Decidable (_ ∧ _))

variable {a b : Word}

theorem hasQuotient_iff : a.HasQuotient b ↔ ¬ (b = 0 ∨ (a = BitVec.intMin 32 ∧ b = -1)) := by
  have ha : a.toInt = -2 ^ 31 ↔ a = BitVec.intMin 32 :=
    BitVec.toInt_inj (y := BitVec.intMin 32)
  have hb : b.toInt = -1 ↔ b = -1 := BitVec.toInt_inj (y := (-1 : Word))
  rw [HasQuotient, ha, hb, not_or]

theorem divSigned_toInt (h : a.HasQuotient b) :
    (divSigned a b).toInt = a.toInt.tdiv b.toInt := by
  rw [hasQuotient_iff] at h
  rw [divSigned, if_neg h]
  exact BitVec.toInt_sdiv_of_ne_or_ne a b (not_and_or.mp fun hmin => h (.inr hmin))

theorem divSigned_eq_zero (h : ¬ a.HasQuotient b) : divSigned a b = 0 := by
  rw [hasQuotient_iff, not_not] at h
  exact if_pos h

theorem divUnsigned_toNat (h : b ≠ 0) : (divUnsigned a b).toNat = a.toNat / b.toNat := by
  rw [divUnsigned, if_neg h, BitVec.toNat_udiv]

theorem natAbs_tmod_lt (h : a.HasQuotient b) :
    (a.toInt.tmod b.toInt).natAbs < b.toInt.natAbs := by
  have hb : b.toInt ≠ 0 := fun hzero => h.1 (BitVec.toInt_inj.mp hzero)
  rw [Int.natAbs_tmod]
  exact Nat.mod_lt _ (Int.natAbs_pos.mpr hb)

theorem sub_divSigned_mul_toInt (h : a.HasQuotient b) :
    (a - divSigned a b * b).toInt = a.toInt.tmod b.toInt := by
  have hrest : a.toInt - a.toInt.tdiv b.toInt * b.toInt = a.toInt.tmod b.toInt := by
    rw [Int.tmod_def, Int.mul_comm]
  have hb := b.le_toInt
  have hb' := b.toInt_lt
  have hlt := natAbs_tmod_lt h
  rw [BitVec.toInt_sub, BitVec.toInt_mul, divSigned_toInt h, Int.sub_bmod_bmod, hrest]
  exact Int.bmod_eq_of_le (by omega) (by omega)

end Word

-- ---------------------------------------------------------------------------
-- Instructions
-- ---------------------------------------------------------------------------

theorem ArithmeticOp.eval_subf (a b : Word) (ca : Bool) :
    (ArithmeticOp.subf.eval a b ca).1 = b - a := by
  show ~~~a + (b + 1) = b - a
  bv_omega

/-- The quotient is read back from `q`, and what was divided is still in `ra` at the end. -/
theorem Registers.gpr_subf_mullw_divw (r : Registers) {q t d ra rb : Gpr} (hqa : q ≠ ra)
    (hqb : q ≠ rb) (hta : t ≠ ra) :
    (((r.arithmetic .divw q ra rb false).arithmetic .mullw t q rb false).arithmetic
      .subf d t ra false).gpr d =
        r.gpr ra - Word.divSigned (r.gpr ra) (r.gpr rb) * r.gpr rb := by
  have hquotient : (r.arithmetic .divw q ra rb false).gpr q =
      Word.divSigned (r.gpr ra) (r.gpr rb) := gpr_arithmetic ..
  have hproduct : ((r.arithmetic .divw q ra rb false).arithmetic .mullw t q rb false).gpr t =
      Word.divSigned (r.gpr ra) (r.gpr rb) * r.gpr rb := by
    rw [← hquotient, ← r.gpr_arithmetic_of_ne hqb.symm]
    exact gpr_arithmetic ..
  rw [gpr_arithmetic, ArithmeticOp.eval_subf, hproduct, gpr_arithmetic_of_ne _ hta.symm,
    gpr_arithmetic_of_ne _ hqa.symm]

def ArithmeticOp.Gives (op : ArithmeticOp) (s : State) (ra rb : Gpr) (w : Word) : Prop :=
  ∀ rt rc, (Instruction.arithmetic op rt ra rb false rc).Yields s rt w s.registers.xer.ca

namespace Instruction

variable (s : State) (q t r ra rb : Gpr)

/-- `divw`, `mullw` and `subf` in a row: the quotient goes to `q`, its product with the divisor to
`t`, and what that leaves over to `r`. -/
structure LeavesRemainder (s₁ s₂ s₃ : State) : Prop where
  divided : (arithmetic .divw q ra rb false false).execute s = (.ok (), s₁)
  multiplied : (arithmetic .mullw t q rb false false).execute s₁ = (.ok (), s₂)
  subtracted : (arithmetic .subf r t ra false false).execute s₂ = (.ok (), s₃)
  sum_eq : (s.registers.gpr ra).toInt =
    (s₁.registers.gpr q).toInt * (s.registers.gpr rb).toInt + (s₃.registers.gpr r).toInt
  natAbs_lt : (s₃.registers.gpr r).toInt.natAbs < (s.registers.gpr rb).toInt.natAbs
  sign_eq : (s₃.registers.gpr r).toInt = 0 ∨
    (s₃.registers.gpr r).toInt.sign = (s.registers.gpr ra).toInt.sign

variable {s q t r ra rb}

theorem leavesRemainder (h : (s.registers.gpr ra).HasQuotient (s.registers.gpr rb))
    (hqa : q ≠ ra) (hqb : q ≠ rb) (hta : t ≠ ra) :
    ∃ s₁ s₂ s₃, LeavesRemainder s q t r ra rb s₁ s₂ s₃ := by
  let r₁ := s.registers.arithmetic .divw q ra rb false
  let r₂ := r₁.arithmetic .mullw t q rb false
  let r₃ := r₂.arithmetic .subf r t ra false
  have hquotient : (r₁.gpr q).toInt =
      (s.registers.gpr ra).toInt.tdiv (s.registers.gpr rb).toInt := by
    rw [← Word.divSigned_toInt h]
    exact congrArg BitVec.toInt (Registers.gpr_arithmetic ..)
  have hrest : (r₃.gpr r).toInt =
      (s.registers.gpr ra).toInt.tmod (s.registers.gpr rb).toInt := by
    rw [Registers.gpr_subf_mullw_divw s.registers hqa hqb hta, Word.sub_divSigned_mul_toInt h]
  refine ⟨{ s with registers := r₁ }, { s with registers := r₂ }, { s with registers := r₃ },
    ⟨rfl, rfl, rfl, ?_, ?_, ?_⟩⟩
  · rw [hquotient, hrest, Int.mul_comm, Int.mul_tdiv_add_tmod]
  · rw [hrest]
    exact Word.natAbs_tmod_lt h
  · rw [hrest, Int.sign_tmod]
    split
    · exact .inl (Int.tmod_eq_zero_of_dvd ‹_›)
    · exact .inr rfl

/-- For every content of the two registers. A quotient that no word can hold, or by zero, is 0. -/
theorem multiply_divide_exact (s : State) (ra rb : Gpr) :
    (∃ low high highUnsigned,
      ArithmeticOp.mullw.Gives s ra rb low ∧ ArithmeticOp.mulhw.Gives s ra rb high ∧
      ArithmeticOp.mulhwu.Gives s ra rb highUnsigned ∧
      high.toInt * 2 ^ 32 + low.toNat =
        (s.registers.gpr ra).toInt * (s.registers.gpr rb).toInt ∧
      highUnsigned.toNat * 2 ^ 32 + low.toNat =
        (s.registers.gpr ra).toNat * (s.registers.gpr rb).toNat) ∧
    (∀ rt imm, ∃ w, (arithmeticImmediate .mulli rt ra imm).Yields s rt w s.registers.xer.ca ∧
      (w.toNat : Int) = ((s.registers.gpr ra).toInt * imm.toInt) % 2 ^ 32) ∧
    (∃ w, ArithmeticOp.divwu.Gives s ra rb w ∧
      if s.registers.gpr rb = 0 then w = 0
      else w.toNat = (s.registers.gpr ra).toNat / (s.registers.gpr rb).toNat) ∧
    (∃ w, ArithmeticOp.divw.Gives s ra rb w ∧
      if (s.registers.gpr ra).HasQuotient (s.registers.gpr rb) then
        w.toInt = (s.registers.gpr ra).toInt.tdiv (s.registers.gpr rb).toInt
      else w = 0) ∧
    ∀ q t r, (s.registers.gpr ra).HasQuotient (s.registers.gpr rb) → q ≠ ra → q ≠ rb → t ≠ ra →
      ∃ s₁ s₂ s₃, LeavesRemainder s q t r ra rb s₁ s₂ s₃ := by
  refine ⟨⟨_, _, _, fun rt rc => arithmetic_yields .mullw rt ra rb rc s,
    fun rt rc => arithmetic_yields .mulhw rt ra rb rc s,
    fun rt rc => arithmetic_yields .mulhwu rt ra rb rc s, Word.mulHighSigned_toInt _ _,
    Word.mulHighUnsigned_toNat _ _⟩, fun rt imm => ?_, ?_, ?_, fun q t r => leavesRemainder⟩
  · exact ⟨_, ⟨_, rfl, Registers.gpr_setGpr_self .., rfl⟩, Word.mul_toNat _ imm⟩
  · refine ⟨_, fun rt rc => arithmetic_yields .divwu rt ra rb rc s, ?_⟩
    split
    · exact if_pos ‹_›
    · exact Word.divUnsigned_toNat ‹_›
  · refine ⟨_, fun rt rc => arithmetic_yields .divw rt ra rb rc s, ?_⟩
    split
    · exact Word.divSigned_toInt ‹_›
    · exact Word.divSigned_eq_zero ‹_›

/-- -7 in r4 and 2 in r5. -/
def minusSeven : State where
  registers := (({} : Registers).setGpr 4 (-7)).setGpr 5 2
  memory := .gamecube

/-- Dividing -7 by 2 leaves -1. -/
theorem multiply_divide_exact_negative :
    (minusSeven.registers.gpr 4).HasQuotient (minusSeven.registers.gpr 5) ∧
    (3 : Gpr) ≠ 4 ∧ (3 : Gpr) ≠ 5 ∧ (6 : Gpr) ≠ 4 ∧
    ∃ s₁ s₂ s₃, LeavesRemainder minusSeven 3 6 7 4 5 s₁ s₂ s₃ ∧
      (s₃.registers.gpr 7).toInt = -1 := by
  have hdiv : (minusSeven.registers.gpr 4).HasQuotient (minusSeven.registers.gpr 5) := by decide
  refine ⟨hdiv, by decide, by decide, by decide, ?_⟩
  obtain ⟨s₁, s₂, s₃, h⟩ := (multiply_divide_exact minusSeven 4 5).2.2.2.2 3 6 7 hdiv
    (by decide) (by decide) (by decide)
  refine ⟨s₁, s₂, s₃, h, ?_⟩
  have ha : (minusSeven.registers.gpr 4).toInt = -7 := by decide
  have hb : (minusSeven.registers.gpr 5).toInt = 2 := by decide
  have hsum := h.sum_eq
  have hlt := h.natAbs_lt
  have hsign := h.sign_eq
  rw [ha, hb] at hsum
  rw [hb] at hlt
  rw [ha] at hsign
  -- -7 is odd, so the remainder is not 0
  have hneg : (s₃.registers.gpr 7).toInt < 0 :=
    Int.sign_eq_neg_one_iff_neg.mp (hsign.resolve_left (by omega))
  omega

end Instruction

end PowerPC
