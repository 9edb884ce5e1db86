import PowerPC.Proofs.CarryLaws

/-!
# Sums with a carry

A result and the CA beside it, which weighs 2^32, are together worth what a carrying operation sums
up. Subtracting sums up the complement. Addition and subtraction without a carry keep the sum below
2^32 and leave CA alone.
-/

namespace PowerPC

def Word.greatest : Nat := 2 ^ 32 - 1

namespace ArithmeticOp

/-- What a carrying operation sums up. -/
def total? (op : ArithmeticOp) (a b c : Nat) : Option Nat :=
  match op with
  | addc => some (a + b)
  | adde => some (a + b + c)
  | addze => some (a + c)
  | addme => some (a + Word.greatest + c)
  | subfc => some (Word.greatest - a + b + 1)
  | subfe => some (Word.greatest - a + b + c)
  | subfze => some (Word.greatest - a + c)
  | subfme => some (Word.greatest - a + Word.greatest + c)
  | _ => none

/-- What an operation that does not carry keeps the low half of. -/
def wrapped? (op : ArithmeticOp) (a b : Int) : Option Int :=
  match op with
  | add => some (a + b)
  | subf => some (b - a)
  | neg => some (-a)
  | _ => none

theorem eval_of_total {op : ArithmeticOp} {a b : Word} {c : Bool} {n : Nat}
    (h : op.total? a.toNat b.toNat c.toNat = some n) :
    ∃ r k, op.eval a b c = (r, some k) ∧ r.toNat + 2 ^ 32 * k.toNat = n := by
  have hnot : (~~~a).toNat = Word.greatest - a.toNat := BitVec.toNat_not
  cases op with
  | addc =>
    cases h
    exact ⟨_, _, rfl, Word.addOverflow_toNat a b⟩
  | adde =>
    cases h
    exact ⟨_, _, rfl, Word.addCarry_toNat a b c⟩
  | addze =>
    cases h
    exact ⟨_, _, rfl, Word.addCarry_toNat a 0 c⟩
  | addme =>
    cases h
    exact ⟨_, _, rfl, Word.addCarry_toNat a (BitVec.allOnes 32) c⟩
  | subfc =>
    cases h
    rw [← hnot]
    exact ⟨_, _, rfl, Word.addCarry_toNat (~~~a) b true⟩
  | subfe =>
    cases h
    rw [← hnot]
    exact ⟨_, _, rfl, Word.addCarry_toNat (~~~a) b c⟩
  | subfze =>
    cases h
    rw [← hnot]
    exact ⟨_, _, rfl, Word.addCarry_toNat (~~~a) 0 c⟩
  | subfme =>
    cases h
    rw [← hnot]
    exact ⟨_, _, rfl, Word.addCarry_toNat (~~~a) (BitVec.allOnes 32) c⟩
  | _ => cases h

theorem eval_of_wrapped {op : ArithmeticOp} {a b : Word} {c : Bool} {n : Int}
    (h : op.wrapped? a.toNat b.toNat = some n) :
    ∃ r, op.eval a b c = (r, none) ∧ (r.toNat : Int) = n % 2 ^ 32 := by
  cases op with
  | add =>
    cases h
    refine ⟨_, rfl, ?_⟩
    bv_omega
  | subf =>
    cases h
    refine ⟨_, rfl, ?_⟩
    bv_omega
  | neg =>
    cases h
    refine ⟨_, rfl, ?_⟩
    bv_omega
  | _ => cases h

end ArithmeticOp

def ImmediateOp.total? (op : ImmediateOp) (a imm : Nat) : Option Nat :=
  match op with
  | addic | addicRecord => some (a + imm)
  | subfic => some (Word.greatest - a + imm + 1)
  | _ => none

theorem Word.carry_iff_le {a b w : Word} {ca : Bool}
    (h : w.toNat + 2 ^ 32 * ca.toNat = Word.greatest - a.toNat + b.toNat + 1) :
    ca = true ↔ a.toNat ≤ b.toNat := by
  have hw := w.isLt
  have ha := a.isLt
  unfold Word.greatest at h
  cases ca with
  | false =>
    simp only [Bool.toNat_false, Bool.false_eq_true, false_iff] at h ⊢
    omega
  | true =>
    simp only [Bool.toNat_true, true_iff] at h ⊢
    omega

namespace Instruction

def total? (r : Registers) : Instruction → Option (Gpr × Nat)
  | arithmetic op rt ra rb false _ =>
    (op.total? (r.gpr ra).toNat (r.gpr rb).toNat r.xer.ca.toNat).map (rt, ·)
  | arithmeticImmediate op rt ra imm => (op.total? (r.gpr ra).toNat imm.toNat).map (rt, ·)
  | _ => none

variable {s : State} {i : Instruction} {rt : Gpr} {n : Nat}

/-- The target and CA are together worth this number. -/
def Sums (i : Instruction) (s : State) (rt : Gpr) (n : Nat) : Prop :=
  ∃ w ca, i.Yields s rt w ca ∧ w.toNat + 2 ^ 32 * ca.toNat = n

theorem immediate_sums (op : ImmediateOp) (ra : Gpr) (imm : Word)
    (h : op.total? (s.registers.gpr ra).toNat imm.toNat = some n) :
    (arithmeticImmediate op rt ra imm).Sums s rt n := by
  have hnot : (~~~(s.registers.gpr ra)).toNat = Word.greatest - (s.registers.gpr ra).toNat :=
    BitVec.toNat_not
  cases op with
  | addic =>
    cases h
    exact ⟨_, _, ⟨_, rfl, Registers.gpr_setGpr_self .., rfl⟩, Word.addOverflow_toNat _ imm⟩
  | addicRecord =>
    cases h
    exact ⟨_, _, ⟨_, rfl, Registers.gpr_setGpr_self .., rfl⟩, Word.addOverflow_toNat _ imm⟩
  | subfic =>
    cases h
    rw [← hnot]
    exact ⟨_, _, ⟨_, rfl, Registers.gpr_setGpr_self .., rfl⟩, Word.addCarry_toNat _ imm true⟩
  | _ => cases h

theorem sums_of_total (h : i.total? s.registers = some (rt, n)) : i.Sums s rt n := by
  cases i with
  | arithmetic op _ ra rb oe rc =>
    cases oe with
    | true => cases h
    | false =>
      obtain ⟨_, htotal, heq⟩ := Option.map_eq_some_iff.mp h
      cases heq
      obtain ⟨w, ca, heval, hsum⟩ := ArithmeticOp.eval_of_total htotal
      have hyields := arithmetic_yields op rt ra rb rc s
      rw [heval] at hyields
      exact ⟨w, ca, hyields, hsum⟩
  | arithmeticImmediate op _ ra imm =>
    obtain ⟨_, htotal, heq⟩ := Option.map_eq_some_iff.mp h
    cases heq
    exact immediate_sums op ra imm htotal
  | _ => cases h

theorem Sums.carry_iff_le {a b : Word}
    (h : i.Sums s rt (Word.greatest - a.toNat + b.toNat + 1)) :
    ∃ w ca, i.Yields s rt w ca ∧ (ca = true ↔ a.toNat ≤ b.toNat) := by
  obtain ⟨w, ca, hyields, hsum⟩ := h
  exact ⟨w, ca, hyields, Word.carry_iff_le hsum⟩

/-- Carrying instructions lose nothing of what they sum up, so a difference carries exactly if it
is not negative. The others keep the low half and CA. -/
theorem carrying_exact (s : State) :
    (∀ (i : Instruction) rt n, i.total? s.registers = some (rt, n) →
      ∃ w ca, i.Yields s rt w ca ∧ w.toNat + 2 ^ 32 * ca.toNat = n) ∧
    (∀ rt ra rb rc, ∃ w ca, (arithmetic .subfc rt ra rb false rc).Yields s rt w ca ∧
      (ca = true ↔ (s.registers.gpr ra).toNat ≤ (s.registers.gpr rb).toNat)) ∧
    (∀ rt ra imm, ∃ w ca, (arithmeticImmediate .subfic rt ra imm).Yields s rt w ca ∧
      (ca = true ↔ (s.registers.gpr ra).toNat ≤ imm.toNat)) ∧
    ∀ (op : ArithmeticOp) rt ra rb rc n,
      op.wrapped? (s.registers.gpr ra).toNat (s.registers.gpr rb).toNat = some n →
      ∃ w, (arithmetic op rt ra rb false rc).Yields s rt w s.registers.xer.ca ∧
        (w.toNat : Int) = n % 2 ^ 32 := by
  refine ⟨fun i rt n => sums_of_total, fun rt ra rb rc => ?_, fun rt ra imm => ?_,
    fun op rt ra rb rc n hwrapped => ?_⟩
  · exact Sums.carry_iff_le (sums_of_total rfl)
  · exact Sums.carry_iff_le (sums_of_total rfl)
  · obtain ⟨w, heval, hw⟩ := ArithmeticOp.eval_of_wrapped hwrapped
    have hyields := arithmetic_yields op rt ra rb rc s
    rw [heval] at hyields
    exact ⟨w, hyields, hw⟩

def allOnes : State where
  registers := (({} : Registers).setGpr 3 0xFFFFFFFF).setCarry true
  memory := .gamecube

/-- `addme r3, r3` sums up two words of all ones and a carry, the most there can be. `neg r3, r3`
wraps to 1. -/
theorem carrying_exact_greatest :
    (∃ w ca, (arithmetic .addme 3 3 0 false false).Yields allOnes 3 w ca ∧
      w.toNat + 2 ^ 32 * ca.toNat = 2 ^ 33 - 1) ∧
    ∃ w, (arithmetic .neg 3 3 0 false false).Yields allOnes 3 w true ∧
      (w.toNat : Int) = -0xFFFFFFFF % 2 ^ 32 :=
  ⟨(carrying_exact allOnes).1 _ _ _ rfl, (carrying_exact allOnes).2.2.2 _ _ _ _ _ _ rfl⟩

end Instruction

end PowerPC
