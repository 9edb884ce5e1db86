import PowerPC.Proofs.ConditionLaws
import PowerPC.Proofs.PanicLaws

/-!
# Registers with partial operations

Registers and fields are looked up by number, and packed words are put together and taken apart by
shifts of numbers that are worked out first. None of this panics for the numbers that name a
register, a field or a bit, whatever the registers hold.
-/

namespace PowerPC

-- ---------------------------------------------------------------------------
-- The condition register field by field
-- ---------------------------------------------------------------------------

theorem Condition.ofNibble_setFlag (c : Condition) (p : Fin 4) (value : Bool) :
    ofNibble (if value then c.toNibble ||| (0x08#8 >>> p.val).setWidth 4
      else c.toNibble &&& ~~~(0x08#8 >>> p.val).setWidth 4) = c.setFlag p value := by
  rcases c with ⟨_ | _, _ | _, _ | _, _ | _⟩ <;> revert p value <;> decide

namespace ConditionRegister

def loadField (w : Word) (selected : Byte) (cr : ConditionRegister) (f : CrField) :
    ConditionRegister :=
  if selected.getMsbD f.val then cr.set f (.ofNibble (w.field (4 * f.val) 4)) else cr

def packField (cr : ConditionRegister) (w : Word) (f : CrField) : Word :=
  w ||| ((cr.get f).toNibble.setWidth 32 <<< (28 - 4 * f.val))

variable (cr : ConditionRegister)

/-- What fields hold after some have been loaded, in any order and with repetitions. -/
theorem get_foldl_loadField (w : Word) (selected : Byte) (l : List CrField) (f : CrField) :
    (l.foldl (loadField w selected) cr).get f =
      if f ∈ l ∧ selected.getMsbD f.val then .ofNibble (w.field (4 * f.val) 4) else cr.get f := by
  induction l generalizing cr with
  | nil => simp
  | cons g l ih =>
    rw [List.foldl_cons, ih, loadField]
    by_cases hfg : f = g
    · subst hfg
      by_cases hsel : selected.getMsbD f.val <;> simp [hsel, get_set]
    · by_cases hsel : selected.getMsbD g.val <;> simp [hsel, hfg, get_set]

theorem foldl_loadField (w : Word) (selected : Byte) :
    (List.finRange 8).foldl (loadField w selected) cr = cr.load w selected := by
  refine ext_get fun f => ?_
  rw [get_foldl_loadField, get_load]
  simp [List.mem_finRange]

theorem flag_packField (w : Word) (f : CrField) (b : CrBit) :
    (cr.packField w f).flag b = (w.flag b || (decide (b.field = f) && cr.bit b)) := by
  simp only [packField, Word.flag, BitVec.testBit_toNat, BitVec.getLsbD_or,
    BitVec.getLsbD_shiftLeft, BitVec.getLsbD_setWidth]
  by_cases hf : b.field = f
  · have hval : b.val / 4 = f.val := congrArg Fin.val hf
    have hplace : 31 - b.val - (28 - 4 * f.val) = 3 - b.place.val := by
      show _ = 3 - b.val % 4
      omega
    have hbit : (cr.get f).toNibble.getLsbD (3 - b.place.val) = cr.bit b := by
      rw [← BitVec.testBit_toNat, Condition.flag_eq_testBit, ← hf]
      rfl
    have hin : ¬ 31 - b.val < 28 - 4 * f.val := by omega
    have hlt : 31 - b.val < 32 := by omega
    have hlt' : 3 - b.place.val < 32 := by omega
    simp [hf, hplace, hbit, hin, hlt, hlt']
  · have hval : b.val / 4 ≠ f.val := fun hval => hf (Fin.ext hval)
    have hout : 31 - b.val < 28 - 4 * f.val ∨ 4 ≤ 31 - b.val - (28 - 4 * f.val) := by omega
    rcases hout with hout | hout
    · simp [hf, hout]
    · simp [hf, BitVec.getLsbD_of_ge _ _ hout]

theorem flag_foldl_packField (l : List CrField) (w : Word) (b : CrBit) :
    (l.foldl cr.packField w).flag b = (w.flag b || (decide (b.field ∈ l) && cr.bit b)) := by
  induction l generalizing w with
  | nil => simp
  | cons f l ih =>
    rw [List.foldl_cons, ih, flag_packField]
    by_cases hf : b.field = f
    · cases cr.bit b <;> simp [hf]
    · simp [hf]

theorem foldl_packField : (List.finRange 8).foldl cr.packField 0 = cr.toWord := by
  refine Word.eq_of_flag fun b => ?_
  rw [flag_foldl_packField, flag_toWord]
  simp [List.mem_finRange, Word.flag]

end ConditionRegister

namespace Checked

variable {n : Nat}

-- ---------------------------------------------------------------------------
-- Bits by shifts
-- ---------------------------------------------------------------------------

theorem and_twoPow_bne (w : BitVec n) {k : Nat} (h : k < n) :
    (w &&& BitVec.twoPow n k != 0) = w.getLsbD k := by
  have hne : (BitVec.twoPow n k != 0) = true := by
    rw [bne_iff_ne]
    intro hzero
    have hbit := congrArg (BitVec.getLsbD · k) hzero
    simp [h] at hbit
  rw [BitVec.and_twoPow]
  cases w.getLsbD k
  · simp
  · simpa using hne

theorem and_topBit_bne (w : BitVec n) {i : Nat} (h : i < n) :
    (w &&& (BitVec.twoPow n (n - 1) >>> i) != 0) = w.getMsbD i := by
  have hdown : BitVec.twoPow n (n - 1) >>> i = BitVec.twoPow n (n - 1 - i) := by
    apply BitVec.eq_of_toNat_eq
    have hlt {k : Nat} (hk : k < n) : 2 ^ k < 2 ^ n := Nat.pow_lt_pow_right (by decide) hk
    rw [BitVec.toNat_ushiftRight, BitVec.toNat_twoPow, BitVec.toNat_twoPow,
      Nat.mod_eq_of_lt (hlt (by omega)), Nat.mod_eq_of_lt (hlt (by omega)),
      Nat.shiftRight_eq_div_pow, Nat.pow_div (by omega) (by decide)]
  rw [hdown, and_twoPow_bne w (by omega), BitVec.getMsbD, decide_eq_true h, Bool.true_and]

theorem setWidth_and_mask (w : Word) (first k : Nat) (h : first + k ≤ 32) :
    (w >>> (32 - first - k) &&& BitVec.ofNat 32 (2 ^ k - 1)).setWidth k = w.field first k := by
  refine BitVec.eq_of_getLsbD_eq fun i hi => ?_
  have hlt : i < 32 := by omega
  rw [Word.getLsbD_field w h hi, BitVec.getLsbD_setWidth, BitVec.getLsbD_and,
    BitVec.getLsbD_ushiftRight, BitVec.getLsbD_ofNat, Nat.testBit_two_pow_sub_one]
  simp [hi, hlt]

-- ---------------------------------------------------------------------------
-- General purpose registers
-- ---------------------------------------------------------------------------

def gpr (r : Registers) (i : Nat) : Checked Word := get r.gprs i

def setGpr (r : Registers) (i : Nat) (w : Word) : Checked Registers :=
  return { r with gprs := ← set r.gprs i w }

def base (r : Registers) (i : Nat) : Checked Word := if i = 0 then return 0 else gpr r i

@[simp] theorem gpr_eq (r : Registers) (i : Gpr) : gpr r i.val = pure (r.gpr i) :=
  get_of_lt r.gprs i.isLt

@[simp] theorem setGpr_eq (r : Registers) (i : Gpr) (w : Word) :
    setGpr r i.val w = pure (r.setGpr i w) := by
  rw [setGpr, set_of_lt r.gprs i.isLt]
  rfl

@[simp] theorem base_eq (r : Registers) (i : Gpr) : base r i.val = pure (r.base i) := by
  rw [base, Registers.base, gpr_eq]
  by_cases h : i = 0
  · rw [if_pos h, h]
    rfl
  · have hval : ¬ i.val = 0 := fun hval => h (Fin.ext hval)
    rw [if_neg h, if_neg hval]

-- ---------------------------------------------------------------------------
-- Fields of the condition register
-- ---------------------------------------------------------------------------

section ConditionRegister

variable (cr : ConditionRegister)

def condition (cr : ConditionRegister) (f : Nat) : Checked Condition := get cr.fields f

def setCondition (cr : ConditionRegister) (f : Nat) (c : Condition) : Checked ConditionRegister :=
  return ⟨← set cr.fields f c⟩

@[simp] theorem condition_eq (f : CrField) : condition cr f.val = pure (cr.get f) :=
  get_of_lt cr.fields f.isLt

@[simp] theorem setCondition_eq (f : CrField) (c : Condition) :
    setCondition cr f.val c = pure (cr.set f c) := by
  rw [setCondition, set_of_lt cr.fields f.isLt]
  rfl

def recordIn (cr : ConditionRegister) (f : Nat) (o : Ordering) : Checked ConditionRegister := do
  setCondition cr f (.ofOrdering o (← condition cr f).so)

@[simp] theorem recordIn_eq (f : CrField) (o : Ordering) :
    recordIn cr f.val o = pure (cr.record f o) := by
  simp [recordIn, ConditionRegister.record]

/-- The place of a field's last bit in the packed word. -/
def fieldShift (f : Nat) : Checked Nat := do minus 28 (← times 64 4 f)

@[simp] theorem fieldShift_eq (f : CrField) : fieldShift f.val = pure (28 - 4 * f.val) := by
  rw [fieldShift, times_of_lt (by omega), pure_bind, minus_of_le (by omega)]

def loadField (w : Word) (selected : Byte) (cr : ConditionRegister) (f : Nat) :
    Checked ConditionRegister := do
  if selected &&& (← shiftRight 0x80#8 f) != 0 then
    let nibble := (← shiftRight w (← fieldShift f)) &&& 0xF
    setCondition cr f (.ofNibble (nibble.setWidth 4))
  else return cr

def loadFields (cr : ConditionRegister) (w : Word) (selected : Byte) : Checked ConditionRegister :=
  (List.finRange 8).foldlM (fun cr f => loadField w selected cr f.val) cr

theorem loadField_eq (w : Word) (selected : Byte) (f : CrField) :
    loadField w selected cr f.val = pure (cr.loadField w selected f) := by
  have hselected : (selected &&& (0x80#8 >>> f.val) != 0) = selected.getMsbD f.val :=
    and_topBit_bne selected f.isLt
  have hplace : 28 - 4 * f.val = 32 - 4 * f.val - 4 := by omega
  have hnibble : (w >>> (28 - 4 * f.val) &&& 0xF).setWidth 4 = w.field (4 * f.val) 4 := by
    rw [hplace]
    exact setWidth_and_mask w (4 * f.val) 4 (by omega)
  rw [loadField, shiftRight_of_lt f.isLt, pure_bind, hselected, ConditionRegister.loadField]
  split
  · simp only [fieldShift_eq, pure_bind]
    rw [shiftRight_of_lt (by omega), pure_bind, hnibble, setCondition_eq]
  · rfl

@[simp] theorem loadFields_eq (w : Word) (selected : Byte) :
    loadFields cr w selected = pure (cr.load w selected) := by
  rw [loadFields, foldlM_of fun cr f _ => loadField_eq cr w selected f,
    ConditionRegister.foldl_loadField]

def packField (cr : ConditionRegister) (w : Word) (f : CrField) : Checked Word := do
  return w ||| (← shiftLeft ((cr.get f).toNibble.setWidth 32) (← fieldShift f.val))

def toWord (cr : ConditionRegister) : Checked Word := (List.finRange 8).foldlM (packField cr) 0

theorem packField_eq (w : Word) (f : CrField) : packField cr w f = pure (cr.packField w f) := by
  rw [packField, fieldShift_eq, pure_bind, shiftLeft_of_lt (by omega), pure_bind]
  rfl

@[simp] theorem toWord_eq : toWord cr = pure cr.toWord := by
  rw [toWord, foldlM_of fun w f _ => packField_eq cr w f, ConditionRegister.foldl_packField]

def bit (cr : ConditionRegister) (b : Nat) : Checked Bool :=
  return (← toWord cr) &&& (← shiftRight 0x80000000#32 b) != 0

@[simp] theorem bit_eq (b : CrBit) : bit cr b.val = pure (cr.bit b) := by
  have hbit : (cr.toWord &&& (0x80000000#32 >>> b.val) != 0) = cr.toWord.getMsbD b.val :=
    and_topBit_bne cr.toWord b.isLt
  rw [bit, toWord_eq, pure_bind, shiftRight_of_lt b.isLt, pure_bind, hbit,
    ← ConditionRegister.flag_toWord, BitVec.getMsbD, decide_eq_true b.isLt, Bool.true_and]
  rfl

def setBit (cr : ConditionRegister) (b : Nat) (value : Bool) : Checked ConditionRegister := do
  let flag : BitVec 4 := (← shiftRight 0x08#8 (b % 4)).setWidth 4
  let nibble := (← condition cr (b / 4)).toNibble
  setCondition cr (b / 4) (.ofNibble (if value then nibble ||| flag else nibble &&& ~~~flag))

@[simp] theorem setBit_eq (b : CrBit) (value : Bool) :
    setBit cr b.val value = pure (cr.setBit b value) := by
  have hcondition : condition cr (b.val / 4) = pure (cr.get b.field) := condition_eq cr b.field
  have hset (c : Condition) : setCondition cr (b.val / 4) c = pure (cr.set b.field c) :=
    setCondition_eq cr b.field c
  rw [setBit, shiftRight_of_lt (by omega), pure_bind, hcondition, pure_bind, hset,
    ConditionRegister.setBit, ← Condition.ofNibble_setFlag]
  rfl

end ConditionRegister

def record (r : Registers) (result : Word) : Checked Registers :=
  return { r with cr := ← recordIn r.cr 0 (Word.compareSigned result 0) }

def recordIf (r : Registers) (rc : Bool) (result : Word) : Checked Registers :=
  if rc then record r result else return r

@[simp] theorem record_eq (r : Registers) (result : Word) :
    record r result = pure (r.record result) := by
  have hfield := recordIn_eq r.cr (0 : CrField) (Word.compareSigned result 0)
  rw [record, show recordIn r.cr 0 _ = _ from hfield]
  rfl

@[simp] theorem recordIf_eq (r : Registers) (rc : Bool) (result : Word) :
    recordIf r rc result = pure (r.recordIf rc result) := by
  cases rc <;> simp [recordIf, Registers.recordIf]

-- ---------------------------------------------------------------------------
-- The exception register
-- ---------------------------------------------------------------------------

def xerOfWord (w : Word) : Checked Xer :=
  return {
    so := w &&& (← shiftLeft 1#32 31) != 0
    ov := w &&& (← shiftLeft 1#32 30) != 0
    ca := w &&& (← shiftLeft 1#32 29) != 0
    reserved := ((← shiftRight w 7) &&& 0x3FFFFF).setWidth 22
    byteCount := (w &&& 0x7F).setWidth 7 }

def xerToWord (x : Xer) : Checked Word :=
  return (← shiftLeft ((BitVec.ofBool x.so).setWidth 32) 31) |||
    (← shiftLeft ((BitVec.ofBool x.ov).setWidth 32) 30) |||
    (← shiftLeft ((BitVec.ofBool x.ca).setWidth 32) 29) |||
    (← shiftLeft (x.reserved.setWidth 32) 7) ||| x.byteCount.setWidth 32

@[simp] theorem xerOfWord_eq (w : Word) : xerOfWord w = pure (.ofWord w) := by
  have hbit {k : Nat} (h : k < 32) : (w &&& (1#32 <<< k) != 0) = w.getLsbD k := and_twoPow_bne w h
  have hreserved : (w >>> 7 &&& 0x3FFFFF).setWidth 22 = w.field 3 22 :=
    setWidth_and_mask w 3 22 (by decide)
  have hcount : (w &&& 0x7F).setWidth 7 = w.field 25 7 := by
    rw [← setWidth_and_mask w 25 7 (by decide)]
    rfl
  rw [xerOfWord, shiftLeft_of_lt (by decide), pure_bind, shiftLeft_of_lt (by decide), pure_bind,
    shiftLeft_of_lt (by decide), pure_bind, shiftRight_of_lt (by decide), pure_bind,
    hbit (by decide), hbit (by decide), hbit (by decide), hreserved, hcount]
  simp [Xer.ofWord, Word.bit, BitVec.getMsbD]

@[simp] theorem xerToWord_eq (x : Xer) : xerToWord x = pure x.toWord := by
  rw [xerToWord, shiftLeft_of_lt (by decide), pure_bind, shiftLeft_of_lt (by decide), pure_bind,
    shiftLeft_of_lt (by decide), pure_bind, shiftLeft_of_lt (by decide), pure_bind]
  refine congrArg pure (BitVec.eq_of_getLsbD_eq fun i hi => ?_)
  rw [Xer.getLsbD_toWord x hi]
  obtain h | rfl | rfl | rfl : i < 29 ∨ i = 29 ∨ i = 30 ∨ i = 31 := by omega
  · have h31 : i < 31 := by omega
    have h30 : i < 30 := by omega
    by_cases hlow : i < 7
    · simp [h, h31, h30, hi, hlow]
    · have hcount : x.byteCount.getLsbD i = false :=
        BitVec.getLsbD_of_ge _ _ (Nat.not_lt.mp hlow)
      simp [h, h31, h30, hi, hlow, hcount]
  · simp
  · simp
  · simp

end Checked

end PowerPC
