import PowerPC.Instruction.Decode
import PowerPC.Proofs.PanicLaws

/-!
# Decoding with partial operations

Bits are cut out of a word by shifts and a mask, operands are narrowed to their fields, and offsets
are extended by a shift up and one down. None of this panics, for any word: the places of a field
lie in the word, and its bits fit into what they are narrowed to.
-/

namespace PowerPC.Checked

variable {n : Nat}

-- ---------------------------------------------------------------------------
-- Fields
-- ---------------------------------------------------------------------------

def lowOnes (amount : Nat) : Checked Word := do sub (← shiftLeft 1#32 amount) 1#32

theorem lowOnes_of_lt {amount : Nat} (h : amount < 32) :
    lowOnes amount = pure ((1#32 <<< amount) - 1) := by
  have hpos : ∀ k : Fin 32, (1#32).toNat ≤ (1#32 <<< k.val).toNat := by decide
  rw [lowOnes, shiftLeft_of_lt h, pure_bind, sub_of_le (hpos ⟨amount, h⟩)]
  rfl

/-- The bits `first..last`. A run of 32 bits has no mask, as one more than its ones does not fit. -/
def bits (w : Word) (first last : Nat) : Checked Word := do
  require (first ≤ last ∧ last < 32) .assertion
  let width ← plus 32 (← minus last first) 1
  let run ← shiftRight w (← minus 31 last)
  if width = 32 then return run else return run &&& (← lowOnes width)

theorem bits_of_le (w : Word) {first last : Nat} (h : first ≤ last) (hlast : last < 32) :
    bits w first last = pure (w.bits first last) := by
  have hmask : ∀ k : Fin 33, (1#32 <<< k.val) - 1 = BitVec.allOnes 32 >>> (32 - k.val) := by decide
  have hplus : last - first + 1 < 2 ^ 32 := by omega
  rw [bits, require_of ⟨h, hlast⟩, pure_bind, minus_of_le h, pure_bind, plus_of_lt hplus, pure_bind,
    minus_of_le (by omega), pure_bind, shiftRight_of_lt (by omega), pure_bind, Word.bits]
  split
  · rename_i hwhole
    have hzero : 31 - (last - first) = 0 := by omega
    rw [hzero, BitVec.ushiftRight_zero, BitVec.and_allOnes]
  · have hsub : 31 - (last - first) = 32 - (last - first + 1) := by omega
    rw [lowOnes_of_lt (by omega), pure_bind, hmask ⟨last - first + 1, by omega⟩, hsub]

def field (n : Nat) (w : Word) (first last : Nat) : Checked (BitVec n) := do
  narrow n (← bits w first last)

theorem toNat_bits_lt (w : Word) {first last : Nat} (hlast : last < 32) :
    (w.bits first last).toNat < 2 ^ (last - first + 1) := by
  have hplaces : last - first + 1 + (31 - (last - first)) = 32 := by omega
  have hmask : (BitVec.allOnes 32 >>> (31 - (last - first))).toNat < 2 ^ (last - first + 1) := by
    rw [BitVec.toNat_ushiftRight, Nat.shiftRight_eq_div_pow,
      Nat.div_lt_iff_lt_mul (Nat.two_pow_pos _), ← Nat.pow_add, hplaces]
    exact BitVec.isLt _
  rw [Word.bits, BitVec.toNat_and]
  exact Nat.and_lt_two_pow _ hmask

@[simp] theorem field_of_le (w : Word) {n first last : Nat} (hn : first + n = last + 1)
    (h : first ≤ last) (hlast : last < 32) :
    field n w first last = pure (w.field first n) := by
  obtain rfl : n = last - first + 1 := by omega
  have hend : first + (last - first + 1) - 1 = last := by omega
  rw [field, bits_of_le w h hlast, pure_bind, narrow_of_lt (toNat_bits_lt w hlast),
    Word.field, hend]

def operand (w : Word) (first : Nat) : Checked (BitVec 5) := do
  field 5 w first (← plus 32 first 4)

@[simp] theorem operand_of_lt (w : Word) {first : Nat} (h : first < 28) :
    operand w first = pure (w.field first 5) := by
  rw [operand, plus_of_lt (by omega), pure_bind,
    field_of_le w (n := 5) (by omega) (by omega) (by omega)]

def flag (w : Word) (i : Nat) : Checked Bool := return (← bits w i i) != 0

@[simp] theorem flag_of_lt (w : Word) {i : Nat} (h : i < 32) : flag w i = pure (w.bit i) := by
  have hone : BitVec.allOnes 32 >>> (31 - (i - i)) = 1#32 := by
    rw [Nat.sub_self]
    decide
  have hplace : 31 - i = 32 - 1 - i := by omega
  rw [flag, bits_of_le w (Nat.le_refl i) h, pure_bind, Word.bits, hone,
    BitVec.and_one_eq_setWidth_ofBool_getLsbD, BitVec.getLsbD_ushiftRight, Nat.add_zero, Word.bit,
    BitVec.getMsbD, hplace, decide_eq_true h, Bool.true_and]
  cases w.getLsbD (32 - 1 - i) <;> rfl

-- ---------------------------------------------------------------------------
-- Forms
-- ---------------------------------------------------------------------------

def iForm (w : Word) : Checked IForm := return ⟨← field 24 w 6 29, ← flag w 30, ← flag w 31⟩

def bForm (w : Word) : Checked BForm :=
  return ⟨← operand w 6, ← operand w 11, ← field 14 w 16 29, ← flag w 30, ← flag w 31⟩

def dForm (w : Word) : Checked DForm :=
  return ⟨← operand w 6, ← operand w 11, ← field 16 w 16 31⟩

def xForm (w : Word) : Checked XForm :=
  return ⟨← operand w 6, ← operand w 11, ← operand w 16, ← field 10 w 21 30, ← flag w 31⟩

def xoForm (w : Word) : Checked XoForm :=
  return ⟨← operand w 6, ← operand w 11, ← operand w 16, ← flag w 21, ← field 9 w 22 30,
    ← flag w 31⟩

def xlForm (w : Word) : Checked XlForm :=
  return ⟨← operand w 6, ← operand w 11, ← operand w 16, ← field 10 w 21 30, ← flag w 31⟩

def xfxForm (w : Word) : Checked XfxForm :=
  return ⟨← operand w 6, ← field 10 w 11 20, ← field 10 w 21 30⟩

def mForm (w : Word) : Checked MForm :=
  return ⟨← operand w 6, ← operand w 11, ← operand w 16, ← operand w 21, ← operand w 26,
    ← flag w 31⟩

section Forms

variable (w : Word)

@[simp] theorem iForm_eq : iForm w = pure (IForm.ofWord w) := by simp [iForm, IForm.ofWord]

@[simp] theorem bForm_eq : bForm w = pure (BForm.ofWord w) := by simp [bForm, BForm.ofWord]

@[simp] theorem dForm_eq : dForm w = pure (DForm.ofWord w) := by simp [dForm, DForm.ofWord]

@[simp] theorem xForm_eq : xForm w = pure (XForm.ofWord w) := by simp [xForm, XForm.ofWord]

@[simp] theorem xoForm_eq : xoForm w = pure (XoForm.ofWord w) := by simp [xoForm, XoForm.ofWord]

@[simp] theorem xlForm_eq : xlForm w = pure (XlForm.ofWord w) := by simp [xlForm, XlForm.ofWord]

@[simp] theorem xfxForm_eq : xfxForm w = pure (XfxForm.ofWord w) := by
  simp [xfxForm, XfxForm.ofWord]

@[simp] theorem mForm_eq : mForm w = pure (MForm.ofWord w) := by simp [mForm, MForm.ofWord]

end Forms

-- ---------------------------------------------------------------------------
-- Operands
-- ---------------------------------------------------------------------------

/-- A field of `32 - amount` bits as a signed number: shifted up to the sign, and down again. -/
def signExtend (amount : Nat) (v : BitVec n) : Checked Word := do
  sshiftRight (← shiftLeft (v.setWidth 32) amount) amount

theorem signExtend_eq {amount : Nat} (h : n + amount = 32) (v : BitVec n) (hn : 0 < n) :
    signExtend amount v = pure (v.signExtend 32) := by
  obtain rfl : amount = 32 - n := by omega
  rw [signExtend, shiftLeft_of_lt (by omega), pure_bind, sshiftRight_of_lt (by omega)]
  refine congrArg pure (BitVec.eq_of_getLsbD_eq fun i hi => ?_)
  have hin : ¬ 32 ≤ i := Nat.not_le.mpr hi
  have hlow : ¬ 32 - n + i < 32 - n := by omega
  rw [BitVec.getLsbD_sshiftRight, BitVec.getLsbD_signExtend]
  by_cases hlt : i < n
  · have hplace : 32 - n + i < 32 := by omega
    simp [hi, hlt, hin, hlow, hplace]
  · have hplace : ¬ 32 - n + i < 32 := by omega
    have hsign : 31 - (32 - n) = n - 1 := by omega
    have hmsb : ¬ 31 < 32 - n := by omega
    simp [BitVec.msb_eq_getLsbD_last, hi, hin, hlt, hplace, hsign, hmsb]

def branchOffset (amount : Nat) (v : BitVec n) : Checked Word := do
  shiftLeft (← signExtend amount v) 2

theorem branchOffset_eq {amount : Nat} (h : n + amount = 32) (v : BitVec n) (hn : 0 < n) :
    branchOffset amount v = pure (v.signExtend 32 <<< 2) := by
  rw [branchOffset, signExtend_eq h v hn, pure_bind, shiftLeft_of_lt (by decide)]

def crField (v : BitVec 5) : Checked CrField := do index 8 (← shiftRight v 2).toNat

@[simp] theorem crField_eq (v : BitVec 5) : crField v = pure (.ofOperand v) := by
  have hfield : (v >>> 2).toNat = v.toNat / 4 := by
    rw [BitVec.toNat_ushiftRight, Nat.shiftRight_eq_div_pow]
  have hlt : (v >>> 2).toNat < 8 := by omega
  rw [crField, shiftRight_of_lt (by decide), pure_bind, index_of_lt hlt]
  exact congrArg pure (Fin.ext hfield)

def sprNumber (v : BitVec 10) : Checked Halfword := do
  let wide : Halfword := v.setWidth 16
  return (← shiftLeft (wide &&& 0x1F) 5) ||| ((← shiftRight wide 5) &&& 0x1F)

@[simp] theorem sprNumber_eq (v : BitVec 10) :
    sprNumber v = pure ((Spr.numberOfField v).setWidth 16) := by
  have hall : ∀ v : BitVec 10, (v.setWidth 16 &&& 0x1F) <<< 5 ||| (v.setWidth 16 >>> 5 &&& 0x1F) =
      (Spr.numberOfField v).setWidth 16 := by decide +kernel
  rw [sprNumber, shiftLeft_of_lt (by decide), pure_bind, shiftRight_of_lt (by decide), pure_bind,
    hall]

-- ---------------------------------------------------------------------------
-- Instructions
-- ---------------------------------------------------------------------------

def primary (w : Word) : Checked (BitVec 6) := field 6 w 0 5

@[simp] theorem primary_eq (w : Word) : primary w = pure w.primary := by
  simp [primary, Word.primary]

/-- The opcode of a word. A form is taken apart only if its table is looked up. -/
def opcode? (w : Word) : Checked (Option Opcode) := do
  let primary ← primary w
  match primary.toNat with
  | 19 => return Opcode.ofXl? (← xlForm w).xo
  | 31 =>
    match Opcode.ofX? (← xForm w).xo with
    | some op => return some op
    | none => return (Opcode.ofXo? (← xoForm w).xo).map .arithmetic
  | _ => return Opcode.ofPrimary? primary

@[simp] theorem opcode?_eq (w : Word) : opcode? w = pure (Opcode.ofWord? w) := by
  rw [opcode?, primary_eq, pure_bind, Opcode.ofWord?]
  generalize w.primary.toNat = primary
  split
  · simp
  · cases hx : Opcode.ofX? (XForm.ofWord w).xo <;> simp [hx]
  · simp

def spr (v : BitVec 10) : Checked (Except Fault Spr) := return Spr.ofNumber (← sprNumber v).toNat

@[simp] theorem spr_eq (v : BitVec 10) :
    spr v = pure (Spr.ofNumber (Spr.numberOfField v).toNat) := by
  have hlt : (Spr.numberOfField v).toNat < 2 ^ 16 := Nat.lt_trans (BitVec.isLt _) (by decide)
  rw [spr, sprNumber_eq, pure_bind, BitVec.toNat_setWidth, Nat.mod_eq_of_lt hlt]

def decodeAs (w : Word) : Opcode → Checked (Except Fault Instruction)
  | .branch => do
    let f ← iForm w
    return .ok (.branch (← branchOffset 8 f.li) f.aa f.lk)
  | .branchConditional => do
    let f ← bForm w
    return .ok (.branchConditional (f.bo.setWidth 8) (.ofOperand f.bi) (← branchOffset 18 f.bd)
      f.aa f.lk)
  | .branchToLr => do
    let f ← xlForm w
    return .ok (.branchToLr (f.bt.setWidth 8) (.ofOperand f.ba) f.lk)
  | .branchToCtr => do
    let f ← xlForm w
    if BranchOption.skipsCounter (f.bt.setWidth 8) then
      return .ok (.branchToCtr (f.bt.setWidth 8) (.ofOperand f.ba) f.lk)
    else return .error (.invalidForm w .counterDecrement)
  | .crLogical op => do
    let f ← xlForm w
    return .ok (.crLogical op (.ofOperand f.bt) (.ofOperand f.ba) (.ofOperand f.bb))
  | .moveCrField => do
    let f ← xlForm w
    return .ok (.moveCrField (← crField f.bt) (← crField f.ba))
  | .isync => return .ok .isync
  | .compareImmediate kind => do
    let f ← dForm w
    let imm := match kind with
      | .signed => f.d.signExtend 32
      | .logical => f.d.setWidth 32
    return .ok (.compare kind (← crField f.rt) (.ofOperand f.ra) (.immediate imm))
  | .compare kind => do
    let f ← xForm w
    return .ok (.compare kind (← crField f.rt) (.ofOperand f.ra) (.gpr (.ofOperand f.rb)))
  | .arithmeticImmediate op => do
    let f ← dForm w
    return .ok (.arithmeticImmediate op (.ofOperand f.rt) (.ofOperand f.ra) (f.d.signExtend 32))
  | .arithmetic op => do
    let f ← xoForm w
    return .ok (.arithmetic op (.ofOperand f.rt) (.ofOperand f.ra) (.ofOperand f.rb) f.oe f.rc)
  | .logicalImmediate op => do
    let f ← dForm w
    return .ok (.logicalImmediate op (.ofOperand f.rt) (.ofOperand f.ra) (f.d.setWidth 32))
  | .logical op => do
    let f ← xForm w
    return .ok (.logical op (.ofOperand f.rt) (.ofOperand f.ra) (.ofOperand f.rb) f.rc)
  | .unary op => do
    let f ← xForm w
    return .ok (.unary op (.ofOperand f.rt) (.ofOperand f.ra) f.rc)
  | .shift op => do
    let f ← xForm w
    return .ok (.shift op (.ofOperand f.rt) (.ofOperand f.ra) (.ofOperand f.rb) f.rc)
  | .srawi => do
    let f ← xForm w
    return .ok (.shiftRightAlgebraicImmediate (.ofOperand f.rt) (.ofOperand f.ra)
      (f.rb.setWidth 8) f.rc)
  | .rlwimi => do
    let f ← mForm w
    return .ok (.rotate (.rlwimi (f.rb.setWidth 8)) (.ofOperand f.rs) (.ofOperand f.ra)
      (f.mb.setWidth 8) (f.me.setWidth 8) f.rc)
  | .rlwinm => do
    let f ← mForm w
    return .ok (.rotate (.rlwinm (f.rb.setWidth 8)) (.ofOperand f.rs) (.ofOperand f.ra)
      (f.mb.setWidth 8) (f.me.setWidth 8) f.rc)
  | .rlwnm => do
    let f ← mForm w
    return .ok (.rotate (.rlwnm (.ofOperand f.rb)) (.ofOperand f.rs) (.ofOperand f.ra)
      (f.mb.setWidth 8) (f.me.setWidth 8) f.rc)
  | .load kind update => do
    let f ← dForm w
    return Opcode.decodeLoad w kind (.ofOperand f.rt)
      (.displaced (.ofOperand f.ra) (f.d.signExtend 32)) update
  | .loadIndexed kind update => do
    let f ← xForm w
    return Opcode.decodeLoad w kind (.ofOperand f.rt)
      (.indexed (.ofOperand f.ra) (.ofOperand f.rb)) update
  | .store kind update => do
    let f ← dForm w
    return Opcode.decodeStore w kind (.ofOperand f.rt)
      (.displaced (.ofOperand f.ra) (f.d.signExtend 32)) update
  | .storeIndexed kind update => do
    let f ← xForm w
    return Opcode.decodeStore w kind (.ofOperand f.rt)
      (.indexed (.ofOperand f.ra) (.ofOperand f.rb)) update
  | .loadMultiple => do
    let f ← dForm w
    if f.ra < f.rt then
      return .ok (.loadMultiple (.ofOperand f.rt) (.ofOperand f.ra) (f.d.signExtend 32))
    else return .error (.invalidForm w .loadMultipleOverBase)
  | .storeMultiple => do
    let f ← dForm w
    return .ok (.storeMultiple (.ofOperand f.rt) (.ofOperand f.ra) (f.d.signExtend 32))
  | .moveFromSpr => do
    let f ← xfxForm w
    return (← spr f.spr).map (.moveFromSpr (.ofOperand f.rt))
  | .moveToSpr => do
    let f ← xfxForm w
    return (← spr f.spr).map (.moveToSpr · (.ofOperand f.rt))
  | .moveFromCr => return .ok (.moveFromCr (.ofOperand (← xForm w).rt))
  | .moveToCrFields => do
    let f ← xForm w
    return .ok (.moveToCrFields (← field 8 w 12 19) (.ofOperand f.rt))
  | .sync => return .ok .sync

theorem decodeAs_eq (w : Word) (op : Opcode) : decodeAs w op = pure (op.decode w) := by
  cases op with
  | branch => simp [decodeAs, Opcode.decode, branchOffset_eq]
  | branchConditional => simp [decodeAs, Opcode.decode, branchOffset_eq]
  | branchToCtr =>
    simp only [decodeAs, Opcode.decode, xlForm_eq, pure_bind]
    split <;> rfl
  | loadMultiple =>
    simp only [decodeAs, Opcode.decode, dForm_eq, pure_bind]
    split <;> rfl
  | compareImmediate kind => cases kind <;> simp [decodeAs, Opcode.decode]
  | moveFromSpr | moveToSpr =>
    simp only [decodeAs, Opcode.decode, xfxForm_eq, spr_eq, pure_bind]
    cases Spr.ofNumber (Spr.numberOfField (XfxForm.ofWord w).spr).toNat <;> rfl
  | _ => simp [decodeAs, Opcode.decode]

def secondary? (w : Word) : Checked (Option (BitVec 10)) := do
  match (← primary w).toNat with
  | 19 => return some (← xlForm w).xo
  | 31 => return some (← field 10 w 21 30)
  | _ => return none

@[simp] theorem secondary?_eq (w : Word) : secondary? w = pure (Opcode.secondary? w) := by
  rw [secondary?, primary_eq, pure_bind, Opcode.secondary?]
  generalize w.primary.toNat = primary
  split
  · simp
  · simp [XForm.ofWord]
  · simp

def decode (w : Word) : Checked (Except Fault Instruction) := do
  match ← opcode? w with
  | some op => decodeAs w op
  | none =>
    let _ ← secondary? w
    return .error (.unsupportedOpcode w)

theorem decode_eq (w : Word) : decode w = pure (Instruction.decode w) := by
  rw [decode, opcode?_eq, pure_bind, Instruction.decode]
  cases Opcode.ofWord? w with
  | some op => exact decodeAs_eq w op
  | none => simp

end PowerPC.Checked
