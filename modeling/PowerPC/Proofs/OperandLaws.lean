import PowerPC.Instruction.Decode
import PowerPC.Proofs.FieldLaws
import PowerPC.Proofs.NumberLaws

/-!
# Operands and the fields they come from

Each way of making an operand of a field has one field for each of its results: the operand comes
out as that result exactly if the word holds the field. Numbers that are extended have a field only
within their bounds.
-/

namespace PowerPC

variable {w v : Word} {n : Nat}

def Spr.field : Spr → BitVec 10
  | xer => 32
  | lr => 256
  | ctr => 288

-- ---------------------------------------------------------------------------
-- The fields of operands
-- ---------------------------------------------------------------------------

namespace BitField

def index (first : Nat) (n : Fin 32) : BitField := ⟨⟨first, 5⟩, .ofFin n⟩

/-- The number of a condition register field; the two bits after it belong to no field. -/
def crField (first : Nat) (n : CrField) : BitField := ⟨⟨first, 3⟩, .ofFin n⟩

def flag (first : Nat) (value : Bool) : BitField := ⟨⟨first, 1⟩, .ofBool value⟩

def amount (first : Nat) (n : Byte) : BitField := ⟨⟨first, 5⟩, n.setWidth 5⟩

def immediate (value : Word) : BitField := ⟨⟨16, 16⟩, value.setWidth 16⟩

def offset (first n : Nat) (value : Word) : BitField := ⟨⟨first, n⟩, value.extractLsb' 2 n⟩

def spr (spr : Spr) : BitField := ⟨⟨11, 10⟩, spr.field⟩

end BitField

-- ---------------------------------------------------------------------------
-- Operands of a word
-- ---------------------------------------------------------------------------

variable {first : Nat}

theorem Gpr.ofOperand_eq_iff {r : Gpr} :
    Gpr.ofOperand (w.field first 5) = r ↔ (BitField.index first r).HeldBy w := by
  show (w.field first 5).toFin = r ↔ w.field first 5 = .ofFin r
  generalize w.field first 5 = x
  constructor <;> rintro rfl <;> rfl

theorem CrBit.ofOperand_eq_iff {b : CrBit} :
    CrBit.ofOperand (w.field first 5) = b ↔ (BitField.index first b).HeldBy w :=
  Gpr.ofOperand_eq_iff

theorem CrField.ofOperand_eq_iff {f : CrField} (h : first + 5 ≤ 32) :
    CrField.ofOperand (w.field first 5) = f ↔ (BitField.crField first f).HeldBy w := by
  have hthree : w.field first 3 = (w.field first 5).extractLsb' 2 3 := by
    refine BitVec.eq_of_getLsbD_eq fun i hi => ?_
    rw [Word.getLsbD_field w (by omega) hi, BitVec.getLsbD_extractLsb',
      Word.getLsbD_field w h (by omega)]
    simp only [hi, decide_true, Bool.true_and]
    congr 1
    omega
  have hval : (CrField.ofOperand (w.field first 5)).val = (w.field first 5).toNat / 4 := rfl
  show _ ↔ w.field first 3 = .ofFin f
  rw [hthree, Fin.ext_iff, hval, ← BitVec.toNat_inj, BitVec.extractLsb'_toNat,
    Nat.shiftRight_eq_div_pow]
  have hlt := (w.field first 5).isLt
  simp only [BitVec.toNat_ofFin]
  omega

theorem Word.bit_eq_iff {value : Bool} (h : first < 32) :
    w.bit first = value ↔ (BitField.flag first value).HeldBy w := by
  have hbit : (w.field first 1).getMsbD 0 = w.bit first := Word.getMsbD_field (by omega) (by decide)
  show _ ↔ w.field first 1 = .ofBool value
  rw [← hbit]
  generalize w.field first 1 = x
  revert x value
  decide

theorem amount_eq_iff {x : Byte} :
    (w.field first 5).setWidth 8 = x ↔ x.toNat < 32 ∧ (BitField.amount first x).HeldBy w :=
  setWidth_eq_iff (by decide)

theorem unsigned_eq_iff :
    (w.field 16 16).setWidth 32 = v ↔ v.toNat < 2 ^ 16 ∧ (BitField.immediate v).HeldBy w :=
  setWidth_eq_iff (by decide)

theorem signed_eq_iff :
    (w.field 16 16).signExtend 32 = v ↔ v.IsSigned 16 ∧ (BitField.immediate v).HeldBy w :=
  Word.signExtend_eq_iff (by decide) (by decide)

theorem offset_eq_iff (hpos : 0 < n) (hn : n + 2 ≤ 32) :
    (w.field first n).signExtend 32 <<< 2 = v ↔
      v.IsOffset (n + 2) ∧ (BitField.offset first n v).HeldBy w :=
  Word.signExtend_shiftLeft_eq_iff hpos hn

theorem Spr.ofNumber_eq_ok_iff {spr : Spr} :
    Spr.ofNumber (Spr.numberOfField (w.field 11 10)).toNat = .ok spr ↔
      (BitField.spr spr).HeldBy w := by
  have htable : ∀ x : BitVec 10,
      Spr.ofNumber? (Spr.numberOfField x).toNat = some spr ↔ x = spr.field := by
    cases spr <;> decide +kernel
  show _ ↔ w.field 11 10 = spr.field
  rw [← htable, Spr.ofNumber]
  cases Spr.ofNumber? (Spr.numberOfField (w.field 11 10)).toNat <;> simp

end PowerPC
