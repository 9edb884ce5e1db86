import PowerPC.Register.Index
import PowerPC.Text.Numeral

/-!
# The condition register

Eight fields of four flags. A comparison writes LT, GT and EQ and keeps SO, which only `setSo`,
`clear` and whole-field writes touch. `toWord` packs the fields, field 0 in the most significant
nibble.
-/

namespace PowerPC

/-- One field: less than, greater than, equal, summary overflow. -/
structure Condition where
  lt : Bool := false
  gt : Bool := false
  eq : Bool := false
  so : Bool := false
deriving DecidableEq, Repr

namespace Condition

def toNibble (c : Condition) : BitVec 4 :=
  BitVec.ofBool c.lt ++ BitVec.ofBool c.gt ++ BitVec.ofBool c.eq ++ BitVec.ofBool c.so

def ofNibble (n : BitVec 4) : Condition :=
  ⟨n.getMsbD 0, n.getMsbD 1, n.getMsbD 2, n.getMsbD 3⟩

def ofOrdering (o : Ordering) (so : Bool) : Condition :=
  ⟨o == .lt, o == .gt, o == .eq, so⟩

def flag (c : Condition) (place : Fin 4) : Bool :=
  match place with
  | 0 => c.lt
  | 1 => c.gt
  | 2 => c.eq
  | 3 => c.so

def setFlag (c : Condition) (place : Fin 4) (value : Bool) : Condition :=
  match place with
  | 0 => { c with lt := value }
  | 1 => { c with gt := value }
  | 2 => { c with eq := value }
  | 3 => { c with so := value }

def text (c : Condition) : String :=
  if c = {} then " -"
  else (if c.lt then " LT" else "") ++ (if c.gt then " GT" else "") ++
    (if c.eq then " EQ" else "") ++ (if c.so then " SO" else "")

theorem ofNibble_toNibble (c : Condition) : ofNibble c.toNibble = c := by
  rcases c with ⟨_ | _, _ | _, _ | _, _ | _⟩ <;> rfl

theorem toNibble_ofNibble (n : BitVec 4) : (ofNibble n).toNibble = n := by
  revert n; decide

theorem flag_setFlag (c : Condition) (p q : Fin 4) (value : Bool) :
    (c.setFlag p value).flag q = if q = p then value else c.flag q := by
  match p, q with
  | 0, 0 | 0, 1 | 0, 2 | 0, 3 | 1, 0 | 1, 1 | 1, 2 | 1, 3
  | 2, 0 | 2, 1 | 2, 2 | 2, 3 | 3, 0 | 3, 1 | 3, 2 | 3, 3 => rfl

end Condition

structure ConditionRegister where
  fields : Vector Condition 8 := .replicate 8 {}
deriving DecidableEq, Repr

/-- A value that is none of no flag, LT, GT, EQ and SO. -/
structure InvalidCondition where
  field : CrField
  value : Byte
deriving DecidableEq, Repr

def InvalidCondition.message (e : InvalidCondition) : String :=
  "Invalid register state: CR" ++ Numeral.decimal e.field.val ++ " cannot hold " ++
    Numeral.binaryPadded 4 e.value.toNat

namespace ConditionRegister

def get (cr : ConditionRegister) (f : CrField) : Condition := cr.fields[f]

def set (cr : ConditionRegister) (f : CrField) (c : Condition) : ConditionRegister :=
  ⟨cr.fields.set f c⟩

/-- Replace the fields that the mask selects, bit 0 of the mask for field 0, by those of `w`. -/
def load (cr : ConditionRegister) (w : Word) (selected : Byte) : ConditionRegister :=
  ⟨.ofFn fun f : CrField =>
    if selected.getMsbD f.val then .ofNibble (w.field (4 * f.val) 4) else cr.get f⟩

def ofWord (w : Word) : ConditionRegister := ({} : ConditionRegister).load w (BitVec.allOnes 8)

def toWord (cr : ConditionRegister) : Word :=
  (cr.get 0).toNibble ++ (cr.get 1).toNibble ++ (cr.get 2).toNibble ++ (cr.get 3).toNibble ++
    (cr.get 4).toNibble ++ (cr.get 5).toNibble ++ (cr.get 6).toNibble ++ (cr.get 7).toNibble

def record (cr : ConditionRegister) (f : CrField) (o : Ordering) : ConditionRegister :=
  cr.set f (.ofOrdering o (cr.get f).so)

def setSo (cr : ConditionRegister) (f : CrField) : ConditionRegister :=
  cr.set f { cr.get f with so := true }

/-- Write one of no flag, LT, GT, EQ and SO. SO is sticky: it is added, and the others keep it. -/
def setField (cr : ConditionRegister) (f : CrField) (value : Byte) :
    Except InvalidCondition ConditionRegister :=
  if value = 1 then .ok (cr.setSo f)
  else if value = 0 ∨ value = 2 ∨ value = 4 ∨ value = 8 then
    .ok (cr.set f { Condition.ofNibble (value.setWidth 4) with so := (cr.get f).so })
  else .error ⟨f, value⟩

def clear (cr : ConditionRegister) (f : CrField) : ConditionRegister := cr.set f {}

def bit (cr : ConditionRegister) (b : CrBit) : Bool := (cr.get b.field).flag b.place

def setBit (cr : ConditionRegister) (b : CrBit) (value : Bool) : ConditionRegister :=
  cr.set b.field ((cr.get b.field).setFlag b.place value)

def text (cr : ConditionRegister) : String :=
  ", ".intercalate <| (List.finRange 8).map fun f : CrField =>
    "CR" ++ Numeral.decimal f.val ++ ":" ++ (cr.get f).text

theorem get_set (cr : ConditionRegister) (f g : CrField) (c : Condition) :
    (cr.set f c).get g = if g = f then c else cr.get g := by
  simp only [get, set, Fin.getElem_fin, Vector.getElem_set, Fin.ext_iff, eq_comm]

theorem get_load (cr : ConditionRegister) (w : Word) (selected : Byte) (f : CrField) :
    (cr.load w selected).get f =
      if selected.getMsbD f.val then .ofNibble (w.field (4 * f.val) 4) else cr.get f := by
  simp only [load, get, Fin.getElem_fin, Vector.getElem_ofFn]

theorem bit_set (cr : ConditionRegister) (f : CrField) (c : Condition) (b : CrBit) :
    (cr.set f c).bit b = if b.field = f then c.flag b.place else cr.bit b := by
  rw [bit, get_set]
  split
  · rfl
  · rfl

theorem bit_setBit (cr : ConditionRegister) (b d : CrBit) (value : Bool) :
    (cr.setBit b value).bit d = if d = b then value else cr.bit d := by
  rw [setBit, bit_set, Condition.flag_setFlag]
  by_cases h : d = b
  · simp [h]
  · by_cases hfield : d.field = b.field
    · have hplace : d.place ≠ b.place := fun hplace => h (CrBit.eq_iff.mpr ⟨hfield, hplace⟩)
      simp [h, hfield, hplace, bit]
    · simp [h, hfield]

end ConditionRegister

end PowerPC
