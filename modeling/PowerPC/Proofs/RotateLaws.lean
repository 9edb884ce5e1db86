import PowerPC.Proofs.ArithmeticLaws

/-!
# Rotates under a mask

A mask has ones on the way from its first bit to its last one, which goes round from bit 31 to bit 0
where it has to. A rotate takes the bits of its target from the rotated source where the mask has
ones, and leaves zeros or what was there before where it has none.
-/

namespace PowerPC

-- ---------------------------------------------------------------------------
-- Masks
-- ---------------------------------------------------------------------------

/-- The bits from `first` on until `last`, bit 0 coming after bit 31. -/
inductive OnWalk (first last : Fin 32) : Fin 32 → Prop where
  | start : OnWalk first last first
  | next {i : Fin 32} : OnWalk first last i → i ≠ last → OnWalk first last (i + 1)

namespace OnWalk

variable {first last i : Fin 32}

theorem sub_le (h : OnWalk first last i) : i - first ≤ last - first := by
  induction h with
  | start => simp
  | next h hne ih =>
    simp only [Fin.le_def, Fin.val_sub, Fin.val_add, ne_eq, Fin.ext_iff] at ih hne ⊢
    omega

theorem of_distance {k : Nat} (hk : (i - first).val = k) (hle : k ≤ (last - first).val) :
    OnWalk first last i := by
  induction k generalizing i with
  | zero =>
    obtain rfl : first = i := by
      simp only [Fin.val_sub, Fin.ext_iff] at hk ⊢
      omega
    exact start
  | succ k ih =>
    have hbefore : (i - 1 - first).val = k := by
      simp only [Fin.val_sub] at hk ⊢
      omega
    have hne : i - 1 ≠ last := by
      rintro rfl
      omega
    have hnext := (ih hbefore (Nat.le_of_succ_le hle)).next hne
    have hback : i - 1 + 1 = i := by grind
    rwa [hback] at hnext

theorem iff_sub_le : OnWalk first last i ↔ i - first ≤ last - first :=
  ⟨sub_le, fun h => of_distance rfl h⟩

theorem iff_ends : OnWalk first last i ↔
    if first ≤ last then first ≤ i ∧ i ≤ last else first ≤ i ∨ i ≤ last := by
  rw [iff_sub_le]
  simp only [Fin.le_def, Fin.val_sub]
  split
  · omega
  · omega

theorem all_iff : (∀ i, OnWalk first last i) ↔ last + 1 = first := by
  simp only [iff_sub_le, Fin.le_def, Fin.val_sub, Fin.ext_iff, Fin.val_add]
  constructor
  · intro h
    have hfarthest := h (first - 1)
    simp only [Fin.val_sub] at hfarthest
    omega
  · intro h i
    omega

end OnWalk

namespace Word

def maskEnd (b : Byte) : Fin 32 := Fin.ofNat 32 b.toNat

theorem mask_bit (first last : Byte) (i : Fin 32) :
    (mask first last).bit i = true ↔ OnWalk (maskEnd first) (maskEnd last) i := by
  have hlast : last.toNat % 32 < 32 := Nat.mod_lt _ (by decide)
  have hfrom : (BitVec.allOnes 32 >>> (first.toNat % 32)).getMsbD i = true ↔
      maskEnd first ≤ i := by
    simp only [BitVec.getMsbD_ushiftRight, BitVec.getMsbD_allOnes, Bool.and_eq_true,
      decide_eq_true_eq, Bool.not_eq_true', decide_eq_false_iff_not, Fin.le_def, maskEnd,
      Fin.val_ofNat]
    omega
  have hto : (BitVec.allOnes 32 <<< (31 - last.toNat % 32)).getMsbD i = true ↔
      i ≤ maskEnd last := by
    simp only [BitVec.getMsbD_shiftLeft, BitVec.getMsbD_allOnes, decide_eq_true_eq, Fin.le_def,
      maskEnd, Fin.val_ofNat]
    omega
  rw [OnWalk.iff_ends, ← hfrom, ← hto, bit, mask]
  simp only [Fin.le_def, maskEnd, Fin.val_ofNat]
  split
  · rw [BitVec.getMsbD_and, Bool.and_eq_true]
  · rw [BitVec.getMsbD_or, Bool.or_eq_true]

theorem mask_eq_allOnes_iff (first last : Byte) :
    mask first last = BitVec.allOnes 32 ↔ maskEnd last + 1 = maskEnd first := by
  have hbits : mask first last = BitVec.allOnes 32 ↔
      ∀ i, OnWalk (maskEnd first) (maskEnd last) i := by
    simp only [← mask_bit]
    constructor
    · intro h i
      rw [h, bit, BitVec.getMsbD_allOnes, decide_eq_true i.isLt]
    · intro h
      refine BitVec.eq_of_getMsbD_eq fun i hi => ?_
      rw [BitVec.getMsbD_allOnes, decide_eq_true hi]
      exact h ⟨i, hi⟩
  rw [hbits, OnWalk.all_iff]

theorem rotateLeft_and_bit (w selector : Word) (n : Nat) (i : Fin 32) :
    bit (w.rotateLeft n &&& selector) i =
      if selector.bit i then w.bit (i + Fin.ofNat 32 n : Fin 32) else false := by
  have hsource : (i + Fin.ofNat 32 n : Fin 32).val = (n + i.val) % 32 := by
    rw [Fin.val_add, Fin.val_ofNat]
    omega
  have hand : bit (w.rotateLeft n &&& selector) i =
      (w.bit (i + Fin.ofNat 32 n : Fin 32) && selector.bit i) := by
    simp only [bit, BitVec.getMsbD_and, BitVec.getMsbD_rotateLeft, i.isLt, decide_true,
      Bool.true_and, hsource]
  rw [hand]
  cases selector.bit i <;> simp

theorem rotateLeft_or_bit (w v selector : Word) (n : Nat) (i : Fin 32) :
    bit ((w.rotateLeft n &&& selector) ||| (v &&& ~~~selector)) i =
      if selector.bit i then w.bit (i + Fin.ofNat 32 n : Fin 32) else v.bit i := by
  have hleft : bit (v &&& ~~~selector) i = (!selector.bit i && v.bit i) := by
    simp only [bit, BitVec.getMsbD_and, BitVec.getMsbD_not, i.isLt, decide_true, Bool.true_and,
      Bool.and_comm]
  have hor : bit ((w.rotateLeft n &&& selector) ||| (v &&& ~~~selector)) i =
      (bit (w.rotateLeft n &&& selector) i || bit (v &&& ~~~selector) i) := BitVec.getMsbD_or
  rw [hor, hleft, rotateLeft_and_bit]
  cases selector.bit i <;> simp

end Word

-- ---------------------------------------------------------------------------
-- Instructions
-- ---------------------------------------------------------------------------

namespace RotateOp

def amount (r : Registers) : RotateOp → Fin 32
  | rlwimi sh | rlwinm sh => Fin.ofNat 32 sh.toNat
  | rlwnm rb => Fin.ofNat 32 (r.gpr rb).toNat

def inserts : RotateOp → Bool
  | rlwimi _ => true
  | rlwinm _ | rlwnm _ => false

/-- Bit `i` of the target. Sources are read before the target is written, which may be one of
them. -/
def resultBit (op : RotateOp) (r : Registers) (rs ra : Gpr) (mb me : Byte) (i : Fin 32) : Bool :=
  if (Word.mask mb me).bit i then (r.gpr rs).bit (i + op.amount r : Fin 32)
  else op.inserts && (r.gpr ra).bit i

end RotateOp

theorem Registers.exists_rotate_eq (r : Registers) (op : RotateOp) (rs ra : Gpr) (mb me : Byte)
    (rc : Bool) :
    ∃ w, r.rotate op rs ra mb me rc = (r.setGpr ra w).recordIf rc w ∧
      ∀ i : Fin 32, w.bit i = op.resultBit r rs ra mb me i := by
  cases op with
  | rlwimi sh => exact ⟨_, rfl, Word.rotateLeft_or_bit _ _ _ _⟩
  | rlwinm sh => exact ⟨_, rfl, Word.rotateLeft_and_bit _ _ _⟩
  | rlwnm rb =>
    have hamount : Fin.ofNat 32 ((r.gpr rb).toNat % 32) = Fin.ofNat 32 (r.gpr rb).toNat :=
      Fin.ext (Nat.mod_mod _ _)
    refine ⟨_, rfl, fun i => ?_⟩
    rw [Word.rotateLeft_and_bit, hamount]
    rfl

namespace Instruction

/-- A mask has ones on the walk from its first bit to its last one. A rotate puts there what was so
many bits further on. -/
theorem rotates_bitwise :
    (∀ first last (i : Fin 32), (Word.mask first last).bit i = true ↔
      OnWalk (Word.maskEnd first) (Word.maskEnd last) i) ∧
    (∀ first last, Word.mask first last = BitVec.allOnes 32 ↔
      Word.maskEnd last + 1 = Word.maskEnd first) ∧
    ∀ (s : State) op rs ra mb me rc, ∃ w,
      (rotate op rs ra mb me rc).Yields s ra w s.registers.xer.ca ∧
      ∀ i : Fin 32, w.bit i = op.resultBit s.registers rs ra mb me i := by
  refine ⟨Word.mask_bit, Word.mask_eq_allOnes_iff, fun s op rs ra mb me rc => ?_⟩
  obtain ⟨w, hrotate, hbits⟩ := s.registers.exists_rotate_eq op rs ra mb me rc
  refine ⟨w, ⟨{ s with registers := s.registers.rotate op rs ra mb me rc }, rfl, ?_, ?_⟩, hbits⟩
  · rw [hrotate]
    simp
  · rw [hrotate]
    simp

end Instruction

example : Word.mask 30 1 = 0xC0000003#32 ∧ Word.mask 0 31 = 0xFFFFFFFF#32 ∧
    Word.mask 200 39 = 0xFFFFFFFF#32 := by decide

end PowerPC
