import PowerPC.Word.Basic

/-!
# Register, field and bit numbers
-/

namespace PowerPC

/-! There is a register 0 and a field 0. -/

instance Gpr.neZero : @NeZero Nat Zero.ofOfNat0 32 := ⟨Nat.succ_ne_zero 31⟩

instance CrField.neZero : @NeZero Nat Zero.ofOfNat0 8 := ⟨Nat.succ_ne_zero 7⟩

abbrev Gpr := Fin 32

/-- A condition register field; field 0 is the most significant. -/
abbrev CrField := Fin 8

/-- A condition register bit; bit 0 is the most significant. -/
abbrev CrBit := Fin 32

def CrBit.field (b : CrBit) : CrField := ⟨b.val / 4, by omega⟩

/-- The place of a bit in its field: 0 for LT, 1 for GT, 2 for EQ, 3 for SO. -/
def CrBit.place (b : CrBit) : Fin 4 := ⟨b.val % 4, by omega⟩

theorem CrBit.eq_iff {a b : CrBit} : a = b ↔ a.field = b.field ∧ a.place = b.place := by
  rw [Fin.ext_iff, Fin.ext_iff, Fin.ext_iff]
  show a.val = b.val ↔ a.val / 4 = b.val / 4 ∧ a.val % 4 = b.val % 4
  omega

/-! A word holds these numbers in operands of five bits, a field number in the top three. -/

def Gpr.ofOperand (operand : BitVec 5) : Gpr := operand.toFin

def CrBit.ofOperand (operand : BitVec 5) : CrBit := operand.toFin

def CrField.ofOperand (operand : BitVec 5) : CrField := (CrBit.ofOperand operand).field

end PowerPC
