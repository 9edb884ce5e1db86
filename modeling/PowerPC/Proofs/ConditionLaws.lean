import Mathlib.Algebra.BigOperators.Fin
import PowerPC.Execute.Branch
import PowerPC.Proofs.FieldLaws
import PowerPC.Proofs.ResultLaws

/-!
# The condition register is one word

The fields of the register, its bits and the word that `toWord` packs are three views of the same
32 flags. Whatever is done to the register, the packed word changes where the operation says and
nowhere else, and the other two views follow it.
-/

namespace PowerPC

-- ---------------------------------------------------------------------------
-- Nibbles and flags of a word
-- ---------------------------------------------------------------------------

namespace Word

def nibble (w : Word) (f : CrField) : Nat := w.toNat / 2 ^ (28 - 4 * f.val) % 16

def flag (w : Word) (b : CrBit) : Bool := w.toNat.testBit (31 - b.val)

variable {w v : Word}

theorem toNat_field_nibble (w : Word) (f : CrField) : (w.field (4 * f.val) 4).toNat = w.nibble f := by
  have hplace : 32 - 4 * f.val - 4 = 28 - 4 * f.val := by omega
  rw [toNat_field w (by omega), hplace]
  rfl

/-- The flags of a field are the bits of its nibble, LT on top. -/
theorem flag_eq_testBit_nibble (w : Word) (b : CrBit) :
    w.flag b = (w.nibble b.field).testBit (3 - b.place.val) := by
  have hlow : 3 - b.place.val < 4 := by omega
  have hplace : 3 - b.place.val + (28 - 4 * b.field.val) = 31 - b.val := by
    show 3 - b.val % 4 + (28 - 4 * (b.val / 4)) = 31 - b.val
    omega
  rw [nibble, show (16 : Nat) = 2 ^ 4 from rfl, Nat.testBit_mod_two_pow, Nat.testBit_div_two_pow,
    hplace, flag]
  simp [hlow]

theorem eq_of_flag (h : ∀ b, w.flag b = v.flag b) : w = v := by
  refine BitVec.eq_of_getMsbD_eq fun i hi => ?_
  have hbit := h ⟨i, hi⟩
  simp only [flag, BitVec.testBit_toNat] at hbit
  simp [BitVec.getMsbD, hi, hbit]

theorem eq_of_nibble (h : ∀ f, w.nibble f = v.nibble f) : w = v :=
  eq_of_flag fun b => by rw [flag_eq_testBit_nibble, flag_eq_testBit_nibble, h]

end Word

-- ---------------------------------------------------------------------------
-- Packing
-- ---------------------------------------------------------------------------

namespace Condition

theorem flag_eq_testBit (c : Condition) (p : Fin 4) :
    c.toNibble.toNat.testBit (3 - p.val) = c.flag p := by
  rcases c with ⟨_ | _, _ | _, _ | _, _ | _⟩ <;> revert p <;> decide

theorem toNat_so (c : Condition) : c.so.toNat = c.toNibble.toNat % 2 := by
  rcases c with ⟨_ | _, _ | _, _ | _, _ | _⟩ <;> rfl

theorem toNibble_setSo (c : Condition) :
    ({ c with so := true } : Condition).toNibble.toNat = c.toNibble.toNat ||| 1 := by
  rcases c with ⟨_ | _, _ | _, _ | _, _ | _⟩ <;> rfl

theorem toNibble_ofOrdering (x y : Int) (so : Bool) :
    (ofOrdering (compare x y) so).toNibble.toNat =
      (if x < y then 8 else if y < x then 4 else 2) + so.toNat := by
  rw [Int.compare_eq_ite_lt]
  split
  · cases so <;> rfl
  · split <;> cases so <;> rfl

theorem toNibble_ofNibble_so {value : Byte}
    (h : value = 0 ∨ value = 2 ∨ value = 4 ∨ value = 8) (so : Bool) :
    ({ ofNibble (value.setWidth 4) with so } : Condition).toNibble.toNat =
      value.toNat + so.toNat := by
  rcases h with rfl | rfl | rfl | rfl <;> cases so <;> rfl

end Condition

namespace ConditionRegister

variable (cr : ConditionRegister) (w : Word)

theorem ext_get {cr cr' : ConditionRegister} (h : ∀ f, cr.get f = cr'.get f) : cr = cr' := by
  cases cr with
  | mk fields =>
    cases cr' with
    | mk fields' =>
      congr
      exact Vector.ext fun i hi => h ⟨i, hi⟩

theorem toNat_append {n m : Nat} (x : BitVec n) (y : BitVec m) :
    (x ++ y).toNat = x.toNat * 2 ^ m + y.toNat := by
  rw [BitVec.toNat_append, ← Nat.shiftLeft_add_eq_or_of_lt y.isLt, Nat.shiftLeft_eq]

theorem toNat_toWord :
    cr.toWord.toNat = ∑ f : CrField, (cr.get f).toNibble.toNat * 2 ^ (28 - 4 * f.val) := by
  unfold toWord
  simp only [toNat_append, Fin.sum_univ_eight]
  simp
  omega

theorem nibble_toWord (f : CrField) : cr.toWord.nibble f = (cr.get f).toNibble.toNat := by
  rw [Word.nibble, toNat_toWord, Fin.sum_univ_eight]
  match f with
  | 0 | 1 | 2 | 3 | 4 | 5 | 6 | 7 => simp; omega

theorem flag_toWord (b : CrBit) : cr.toWord.flag b = cr.bit b := by
  rw [Word.flag_eq_testBit_nibble, nibble_toWord, Condition.flag_eq_testBit, bit]

theorem get_ofWord (f : CrField) : (ofWord w).get f = .ofNibble (w.field (4 * f.val) 4) := by
  have hselected : (BitVec.allOnes 8).getMsbD f.val = true := by
    revert f
    decide
  rw [ofWord, get_load, if_pos hselected]

theorem ofWord_toWord : ofWord cr.toWord = cr := by
  refine ext_get fun f => ?_
  have hnibble : cr.toWord.field (4 * f.val) 4 = (cr.get f).toNibble := by
    apply BitVec.eq_of_toNat_eq
    rw [Word.toNat_field_nibble, nibble_toWord]
  rw [get_ofWord, hnibble, Condition.ofNibble_toNibble]

theorem toWord_ofWord : (ofWord w).toWord = w := by
  refine Word.eq_of_nibble fun f => ?_
  rw [nibble_toWord, get_ofWord, Condition.toNibble_ofNibble, Word.toNat_field_nibble]

end ConditionRegister

-- ---------------------------------------------------------------------------
-- Comparisons and connectives
-- ---------------------------------------------------------------------------

namespace Comparison

def value (kind : Comparison) {n : Nat} (x : BitVec n) : Int :=
  match kind with
  | signed => x.toInt
  | logical => x.toNat

def order (kind : Comparison) (a b : Word) : Ordering :=
  match kind with
  | signed => a.compareSigned b
  | logical => a.compareLogical b

theorem order_eq (kind : Comparison) (a b : Word) :
    kind.order a b = Ord.compare (kind.value a) (kind.value b) := by
  cases kind with
  | signed => rfl
  | logical =>
    show Ord.compare a.toNat b.toNat = Ord.compare (a.toNat : Int) b.toNat
    simp only [Int.compare_eq_ite_lt, Nat.compare_eq_ite_lt, Int.ofNat_lt]

end Comparison

def LogicalOp.Joins (op : LogicalOp) (p q : Prop) : Prop :=
  match op with
  | and => p ∧ q
  | andc => p ∧ ¬ q
  | or => p ∨ q
  | orc => p ∨ ¬ q
  | xor => ¬ (p ↔ q)
  | nand => ¬ (p ∧ q)
  | nor => ¬ (p ∨ q)
  | eqv => p ↔ q

theorem LogicalOp.evalBit_iff (op : LogicalOp) (a b : Bool) :
    op.evalBit a b = true ↔ op.Joins (a = true) (b = true) := by
  cases op <;> cases a <;> cases b <;> simp [evalBit, Joins]

-- ---------------------------------------------------------------------------
-- Operations
-- ---------------------------------------------------------------------------

inductive CrOperation where
  | compare (kind : Comparison) (f : CrField) (a b : Word)
  | setSo (f : CrField)
  | setField (f : CrField) (value : Byte)
  | clear (f : CrField)
  | load (w : Word) (selected : Byte)
  | setBit (b : CrBit) (value : Bool)
  | logical (op : LogicalOp) (bt ba bb : CrBit)
  | moveField (bf bfa : CrField)
deriving DecidableEq, Repr

namespace Registers

def perform (r : Registers) : CrOperation → Except InvalidCondition Registers
  | .compare kind f a b => .ok { r with cr := r.cr.record f (kind.order a b) }
  | .setSo f => .ok { r with cr := r.cr.setSo f }
  | .setField f value => (r.cr.setField f value).map fun cr => { r with cr }
  | .clear f => .ok { r with cr := r.cr.clear f }
  | .load w selected => .ok { r with cr := r.cr.load w selected }
  | .setBit b value => .ok { r with cr := r.cr.setBit b value }
  | .logical op bt ba bb => .ok (r.crLogical op bt ba bb)
  | .moveField bf bfa => .ok (r.moveCrField bf bfa)

def after (r : Registers) (op : CrOperation) : Registers :=
  match r.perform op with
  | .ok r' => r'
  | .error _ => r

def afterAll (r : Registers) (ops : List CrOperation) : Registers := ops.foldl after r

end Registers

namespace Word

/-- `v` is `w` with this nibble for a field. -/
def SetsNibble (w v : Word) (f : CrField) (n : Nat) : Prop :=
  ∀ g, v.nibble g = if g = f then n else w.nibble g

def SetsFlag (w v : Word) (b : CrBit) (value : Prop) : Prop :=
  ∀ d, v.flag d = true ↔ if d = b then value else w.flag d = true

end Word

namespace CrOperation

def Takes (w v : Word) : CrOperation → Prop
  | compare kind f a b =>
    w.SetsNibble v f ((if kind.value a < kind.value b then 8
      else if kind.value b < kind.value a then 4 else 2) + w.nibble f % 2)
  | setSo f => w.SetsNibble v f (w.nibble f ||| 1)
  | setField f value =>
    if value = 1 then w.SetsNibble v f (w.nibble f ||| 1)
    else if value = 0 ∨ value = 2 ∨ value = 4 ∨ value = 8 then
      w.SetsNibble v f (value.toNat + w.nibble f % 2)
    else v = w
  | clear f => w.SetsNibble v f 0
  | load x selected =>
    ∀ f, v.nibble f = if selected.toNat.testBit (7 - f.val) then x.nibble f else w.nibble f
  | setBit b value => w.SetsFlag v b (value = true)
  | logical op bt ba bb => w.SetsFlag v bt (op.Joins (w.flag ba = true) (w.flag bb = true))
  | moveField bf bfa => w.SetsNibble v bf (w.nibble bfa)

def TakeAll : List CrOperation → Word → Word → Prop
  | [], w, v => v = w
  | op :: ops, w, v => ∃ u, op.Takes w u ∧ TakeAll ops u v

/-- A field is asked to hold what is none of no flag, LT, GT, EQ and SO. -/
def Refused (op : CrOperation) (e : InvalidCondition) : Prop :=
  op = setField e.field e.value ∧ e.value ∉ [0, 1, 2, 4, 8]

end CrOperation

namespace Word

variable {w v v' : Word}

theorem SetsNibble.unique {f : CrField} {n : Nat} (h : w.SetsNibble v f n)
    (h' : w.SetsNibble v' f n) : v = v' :=
  eq_of_nibble fun g => (h g).trans (h' g).symm

theorem SetsFlag.unique {b : CrBit} {value : Prop} (h : w.SetsFlag v b value)
    (h' : w.SetsFlag v' b value) : v = v' :=
  eq_of_flag fun d => Bool.eq_iff_iff.mpr ((h d).trans (h' d).symm)

end Word

theorem CrOperation.Takes.unique {op : CrOperation} {w v v' : Word} (h : op.Takes w v)
    (h' : op.Takes w v') : v = v' := by
  cases op with
  | compare | setSo | clear | moveField => exact Word.SetsNibble.unique h h'
  | setBit | logical => exact Word.SetsFlag.unique h h'
  | load x selected => exact Word.eq_of_nibble fun f => (h f).trans (h' f).symm
  | setField f value =>
    rw [Takes] at h h'
    by_cases hone : value = 1
    · rw [if_pos hone] at h h'
      exact h.unique h'
    · rw [if_neg hone] at h h'
      by_cases hvalue : value = 0 ∨ value = 2 ∨ value = 4 ∨ value = 8
      · rw [if_pos hvalue] at h h'
        exact h.unique h'
      · rw [if_neg hvalue] at h h'
        rw [h, h']

section

variable (r : Registers) (cr : ConditionRegister)

theorem ConditionRegister.setsNibble_set (f : CrField) (c : Condition) :
    cr.toWord.SetsNibble (cr.set f c).toWord f c.toNibble.toNat := by
  intro g
  rw [nibble_toWord, get_set, nibble_toWord]
  split
  · rfl
  · rfl

theorem ConditionRegister.setsFlag_setBit (b : CrBit) (value : Bool) :
    cr.toWord.SetsFlag (cr.setBit b value).toWord b (value = true) := by
  intro d
  rw [flag_toWord, bit_setBit, flag_toWord]
  split
  · rfl
  · rfl

theorem ConditionRegister.setsNibble_setSo (f : CrField) :
    cr.toWord.SetsNibble (cr.setSo f).toWord f (cr.toWord.nibble f ||| 1) := by
  rw [nibble_toWord, ← Condition.toNibble_setSo]
  exact cr.setsNibble_set f _

theorem ConditionRegister.nibble_load (w : Word) (selected : Byte) (f : CrField) :
    (cr.load w selected).toWord.nibble f =
      if selected.toNat.testBit (7 - f.val) then w.nibble f else cr.toWord.nibble f := by
  have hbit : selected.getMsbD f.val = selected.toNat.testBit (7 - f.val) := by
    simp [BitVec.getMsbD, BitVec.testBit_toNat, f.isLt]
  rw [nibble_toWord, get_load, hbit]
  split
  · rw [Condition.toNibble_ofNibble, Word.toNat_field_nibble]
  · rw [nibble_toWord]

theorem ConditionRegister.load_load (w : Word) (m₁ m₂ : Byte) :
    (cr.load w m₁).load w m₂ = cr.load w (m₁ ||| m₂) := by
  refine ext_get fun f => ?_
  rw [get_load, get_load, get_load, BitVec.getMsbD_or]
  cases m₁.getMsbD f.val <;> cases m₂.getMsbD f.val <;> rfl

theorem takes_after (op : CrOperation) :
    op.Takes r.cr.toWord (r.after op).cr.toWord := by
  cases op with
  | compare kind f a b =>
    rw [CrOperation.Takes, ConditionRegister.nibble_toWord, ← Condition.toNat_so,
      ← Condition.toNibble_ofOrdering, ← Comparison.order_eq]
    exact r.cr.setsNibble_set f _
  | setSo f => exact r.cr.setsNibble_setSo f
  | setField f value =>
    simp only [CrOperation.Takes, Registers.after, Registers.perform, ConditionRegister.setField]
    split
    · exact r.cr.setsNibble_setSo f
    · split
      · rename_i hvalue
        rw [ConditionRegister.nibble_toWord, ← Condition.toNat_so,
          ← Condition.toNibble_ofNibble_so hvalue]
        exact r.cr.setsNibble_set f _
      · rfl
  | clear f => exact r.cr.setsNibble_set f {}
  | load w selected => exact r.cr.nibble_load w selected
  | setBit b value => exact r.cr.setsFlag_setBit b value
  | logical op bt ba bb =>
    rw [CrOperation.Takes, ConditionRegister.flag_toWord, ConditionRegister.flag_toWord,
      ← LogicalOp.evalBit_iff]
    exact r.cr.setsFlag_setBit bt _
  | moveField bf bfa =>
    rw [CrOperation.Takes, ConditionRegister.nibble_toWord]
    exact r.cr.setsNibble_set bf _

theorem takeAll_iff (ops : List CrOperation) {v : Word} :
    CrOperation.TakeAll ops r.cr.toWord v ↔ v = (r.afterAll ops).cr.toWord := by
  induction ops generalizing r with
  | nil => rfl
  | cons op ops ih =>
    constructor
    · rintro ⟨u, hop, hops⟩
      rw [hop.unique (takes_after r op)] at hops
      exact (ih (r.after op)).mp hops
    · intro hv
      exact ⟨_, takes_after r op, (ih (r.after op)).mpr hv⟩

theorem perform_error_iff (op : CrOperation) (e : InvalidCondition) :
    r.perform op = .error e ↔ op.Refused e := by
  cases op with
  | setField f value =>
    cases e
    simp only [Registers.perform, map_error, ConditionRegister.setField, CrOperation.Refused]
    grind
  | _ => simp [Registers.perform, CrOperation.Refused]

/-- The fields, the bits and the packed word are the same flags. -/
structure ConditionRegister.Coherent : Prop where
  round_trip : ofWord cr.toWord = cr
  field_lt : ∀ f, (cr.get f).toNibble.toNat < 16
  value_eq : cr.toWord.toNat = ∑ f : CrField, (cr.get f).toNibble.toNat * 2 ^ (28 - 4 * f.val)
  nibble_eq : ∀ f, cr.toWord.nibble f = (cr.get f).toNibble.toNat
  flag_eq : ∀ b, cr.toWord.flag b = cr.bit b

theorem ConditionRegister.coherent : cr.Coherent :=
  ⟨cr.ofWord_toWord, fun _ => BitVec.isLt _, cr.toNat_toWord, cr.nibble_toWord, cr.flag_toWord⟩

/-- From any packed value, a history of operations leads to the one word that they say. At its end
the three views agree, only what no field can hold is refused, and one load does what two loads of
the same word do. -/
theorem Registers.packed_evolves (w : Word) (ops : List CrOperation) :
    let u := ({ r with cr := .ofWord w } : Registers).afterAll ops
    (∀ v, CrOperation.TakeAll ops w v ↔ v = u.cr.toWord) ∧
    u.cr.Coherent ∧
    (∀ op e, u.perform op = .error e ↔ op.Refused e) ∧
    ∀ x m₁ m₂, u.afterAll [.load x m₁, .load x m₂] = u.after (.load x (m₁ ||| m₂)) := by
  intro u
  refine ⟨fun v => ?_, u.cr.coherent, perform_error_iff u, fun x m₁ m₂ => ?_⟩
  · have hrun := takeAll_iff ({ r with cr := .ofWord w } : Registers) ops (v := v)
    rwa [ConditionRegister.toWord_ofWord] at hrun
  · show ({ u with cr := (u.cr.load x m₁).load x m₂ } : Registers) = _
    rw [ConditionRegister.load_load]
    rfl

end

end PowerPC
