import Mathlib.Data.Nat.Digits.Defs
import PowerPC.Proofs.ArithmeticLaws

/-!
# Carry chains

A number of several words is added or subtracted word by word, the least significant first, with CA
handing the carry on. The first instruction of a chain does not look at CA. A chain conserves the
sum: the words of the result and the last carry together are worth as much as the words put in.
Subtracting adds the complement, so there the last carry says that nothing was borrowed.
-/

namespace PowerPC

-- ---------------------------------------------------------------------------
-- Sums of words
-- ---------------------------------------------------------------------------

namespace Word

theorem addOverflow_toNat (a b : Word) :
    (addOverflow a b).1.toNat + 2 ^ 32 * (addOverflow a b).2.toNat = a.toNat + b.toNat := by
  by_cases h : a + b < a
  · simp only [addOverflow, h, decide_true, Bool.toNat_true]
    bv_omega
  · simp only [addOverflow, h, decide_false, Bool.toNat_false]
    bv_omega

/-- The sum of two words and a carry has one more bit, so only one of the two additions wraps. -/
theorem addCarry_toNat (a b : Word) (carry : Bool) :
    (addCarry a b carry).1.toNat + 2 ^ 32 * (addCarry a b carry).2.toNat =
      a.toNat + b.toNat + carry.toNat := by
  have hfirst := addOverflow_toNat a b
  have hsecond := addOverflow_toNat (addOverflow a b).1 ((BitVec.ofBool carry).setWidth 32)
  have hcarry : ((BitVec.ofBool carry).setWidth 32).toNat = carry.toNat := by cases carry <;> rfl
  have hle := Bool.toNat_le carry
  have ha := a.isLt
  have hb := b.isLt
  rw [hcarry] at hsecond
  simp only [addCarry]
  cases h : (addOverflow a b).2 with
  | false =>
    simp only [h, Bool.toNat_false, Bool.false_or] at hfirst ⊢
    omega
  | true =>
    cases h' : (addOverflow (addOverflow a b).1 ((BitVec.ofBool carry).setWidth 32)).2 with
    | false =>
      simp only [h, h', Bool.toNat_true, Bool.toNat_false, Bool.true_or] at hfirst hsecond ⊢
      omega
    | true =>
      simp only [h, h', Bool.toNat_true] at hfirst hsecond
      omega

theorem addCarry_false (a b : Word) : addCarry a b false = addOverflow a b := by
  simp [addCarry, addOverflow]

end Word

/-- The number that words stand for, the least significant first. -/
def limbsValue (ws : List Word) : Nat := Nat.ofDigits (2 ^ 32) (ws.map BitVec.toNat)

theorem limbsValue_cons (w : Word) (ws : List Word) :
    limbsValue (w :: ws) = w.toNat + 2 ^ 32 * limbsValue ws := by
  rw [limbsValue, List.map_cons, Nat.ofDigits_cons]
  rfl

theorem limbsValue_lt (ws : List Word) : limbsValue ws < 2 ^ (32 * ws.length) := by
  have hlimbs : ∀ d ∈ ws.map BitVec.toNat, d < 2 ^ 32 := by
    intro d hd
    obtain ⟨w, -, rfl⟩ := List.mem_map.mp hd
    exact w.isLt
  have hlt := Nat.ofDigits_lt_base_pow_length (by decide) hlimbs
  rwa [List.length_map, ← Nat.pow_mul] at hlt

theorem limbsModulus_succ (n : Nat) : 2 ^ (32 * (n + 1)) = 2 ^ 32 * 2 ^ (32 * n) := by
  rw [Nat.mul_succ, Nat.add_comm, Nat.pow_add]

theorem limbsValue_complement (ws : List Word) :
    limbsValue (ws.map (~~~·)) + limbsValue ws + 1 = 2 ^ (32 * ws.length) := by
  induction ws with
  | nil => rfl
  | cons w ws ih =>
    have hword : (~~~w).toNat + w.toNat + 1 = 2 ^ 32 := by bv_omega
    rw [List.map_cons, limbsValue_cons, limbsValue_cons, List.length_cons, limbsModulus_succ, ← ih]
    omega

theorem conserves_cons {r x y i k result a b modulus carry : Nat}
    (hhead : r + 2 ^ 32 * k = x + y + i) (htail : result + modulus * carry = a + b + k) :
    r + 2 ^ 32 * result + 2 ^ 32 * modulus * carry =
      x + 2 ^ 32 * a + (y + 2 ^ 32 * b) + i := by
  rw [Nat.mul_assoc]
  omega

theorem eq_mod_and_carry_iff {v m t : Nat} {c : Bool} (hlt : v < m) (h : v + m * c.toNat = t) :
    v = t % m ∧ (c = true ↔ m ≤ t) := by
  subst h
  cases c with
  | false => simp [Nat.mod_eq_of_lt hlt, hlt]
  | true => simp [Nat.mod_eq_of_lt hlt]

theorem eq_emod_and_carry_iff {v m a b : Nat} {c : Bool} (hlt : v < m)
    (h : v + m * c.toNat + a = m + b) :
    (v : Int) = ((b : Int) - a) % m ∧ (c = true ↔ a ≤ b) := by
  have hself : (v : Int) % m = v := Int.emod_eq_of_lt (by omega) (by omega)
  cases c with
  | false =>
    rw [Bool.toNat_false, Nat.mul_zero] at h
    have hdiff : (b : Int) - a = v - m := by omega
    refine ⟨by rw [hdiff, Int.sub_emod_right, hself], by simp; omega⟩
  | true =>
    rw [Bool.toNat_true, Nat.mul_one] at h
    have hdiff : (b : Int) - a = v := by omega
    refine ⟨by rw [hdiff, hself], by simp; omega⟩

-- ---------------------------------------------------------------------------
-- Instructions of a chain
-- ---------------------------------------------------------------------------

/-- A state in which the words of two registers are about to be put together in a third. -/
structure Limb where
  state : State
  rt : Gpr
  ra : Gpr
  rb : Gpr
  rc : Bool

namespace Limb

variable {op : ArithmeticOp} {l : Limb} {f : Word → Word} {start : Bool → Bool}

def a (l : Limb) : Word := l.state.registers.gpr l.ra

def b (l : Limb) : Word := l.state.registers.gpr l.rb

def carryIn (l : Limb) : Bool := l.state.registers.xer.ca

def instruction (l : Limb) (op : ArithmeticOp) : Instruction :=
  .arithmetic op l.rt l.ra l.rb false l.rc

def after (l : Limb) (op : ArithmeticOp) : State := ((l.instruction op).execute l.state).2

def result (l : Limb) (op : ArithmeticOp) : Word := (l.after op).registers.gpr l.rt

def carryOut (l : Limb) (op : ArithmeticOp) : Bool := (l.after op).registers.xer.ca

def Succeeds (l : Limb) (op : ArithmeticOp) : Prop :=
  ((l.instruction op).execute l.state).1 = .ok ()

theorem succeeds (l : Limb) (op : ArithmeticOp) : l.Succeeds op := rfl

theorem after_registers :
    (l.after op).registers = l.state.registers.arithmetic op l.rt l.ra l.rb l.rc := rfl

theorem result_eq : l.result op = (op.eval l.a l.b l.carryIn).1 :=
  Registers.gpr_arithmetic ..

theorem carryOut_eq {carry : Bool} (h : (op.eval l.a l.b l.carryIn).2 = some carry) :
    l.carryOut op = carry := by
  rw [carryOut, after_registers, Registers.ca_arithmetic]
  exact congrArg (Option.getD · _) h

end Limb

/-- The operation adds its second word to what `f` makes of the first one, with what `start` makes
of CA. -/
def ArithmeticOp.Adds (op : ArithmeticOp) (f : Word → Word) (start : Bool → Bool) : Prop :=
  ∀ a b ca, op.eval a b ca =
    ((Word.addCarry (f a) b (start ca)).1, some (Word.addCarry (f a) b (start ca)).2)

namespace ArithmeticOp

theorem addc_adds : addc.Adds id fun _ => false := by
  intro a b ca
  rw [id, Word.addCarry_false]
  rfl

theorem adde_adds : adde.Adds id id := fun _ _ _ => rfl

theorem subfc_adds : subfc.Adds (~~~·) fun _ => true := fun _ _ _ => rfl

theorem subfe_adds : subfe.Adds (~~~·) id := fun _ _ _ => rfl

variable {op : ArithmeticOp} {f : Word → Word} {start : Bool → Bool}

theorem Adds.limb (h : op.Adds f start) (l : Limb) :
    (l.result op).toNat + 2 ^ 32 * (l.carryOut op).toNat =
      (f l.a).toNat + l.b.toNat + (start l.carryIn).toNat := by
  have hcarry := Limb.carryOut_eq (congrArg Prod.snd (h l.a l.b l.carryIn))
  rw [Limb.result_eq, hcarry, h]
  exact Word.addCarry_toNat _ _ _

end ArithmeticOp

-- ---------------------------------------------------------------------------
-- Chains
-- ---------------------------------------------------------------------------

/-- Every limb finds CA as the one before left it, and the first finds this carry. What else the
state holds may be anything. -/
def Linked (op : ArithmeticOp) : Bool → List Limb → Prop
  | _, [] => True
  | carry, l :: ls => l.carryIn = carry ∧ Linked op (l.carryOut op) ls

def lastCarry (op : ArithmeticOp) : Bool → List Limb → Bool
  | carry, [] => carry
  | _, l :: ls => lastCarry op (l.carryOut op) ls

variable {op first next : ArithmeticOp} {f : Word → Word} {start : Bool → Bool}

theorem ArithmeticOp.Adds.linked (h : op.Adds f id) {carry : Bool} {ls : List Limb}
    (hlinked : Linked op carry ls) :
    limbsValue (ls.map (·.result op)) + 2 ^ (32 * ls.length) * (lastCarry op carry ls).toNat =
      limbsValue (ls.map fun l => f l.a) + limbsValue (ls.map Limb.b) + carry.toNat := by
  induction ls generalizing carry with
  | nil => simp [limbsValue, lastCarry]
  | cons l ls ih =>
    obtain ⟨rfl, hrest⟩ := hlinked
    simp only [List.map_cons, limbsValue_cons, lastCarry, List.length_cons, limbsModulus_succ]
    exact conserves_cons (h.limb l) (ih hrest)

/-- Limbs that hand CA on, after a first one that another instruction is executed on. -/
structure Chain where
  head : Limb
  tail : List Limb

namespace Chain

variable (c : Chain)

def limbs : List Limb := c.head :: c.tail

def left : Nat := limbsValue (c.limbs.map Limb.a)

def right : Nat := limbsValue (c.limbs.map Limb.b)

def modulus : Nat := 2 ^ (32 * c.limbs.length)

/-- Nothing but the chain changes CA once it has begun. -/
def Unbroken (first next : ArithmeticOp) : Prop := Linked next (c.head.carryOut first) c.tail

def Succeeds (first next : ArithmeticOp) : Prop :=
  c.head.Succeeds first ∧ ∀ l ∈ c.tail, l.Succeeds next

def result (first next : ArithmeticOp) : Nat :=
  limbsValue (c.head.result first :: c.tail.map (·.result next))

def carry (first next : ArithmeticOp) : Bool := lastCarry next (c.head.carryOut first) c.tail

theorem succeeds (first next : ArithmeticOp) : c.Succeeds first next :=
  ⟨c.head.succeeds first, fun l _ => l.succeeds next⟩

theorem result_lt (first next : ArithmeticOp) : c.result first next < c.modulus := by
  have hlt := limbsValue_lt (c.head.result first :: c.tail.map (·.result next))
  rwa [List.length_cons, List.length_map] at hlt

theorem conserves (hfirst : first.Adds f start) (hnext : next.Adds f id)
    (h : c.Unbroken first next) :
    c.result first next + c.modulus * (c.carry first next).toNat =
      limbsValue (c.limbs.map fun l => f l.a) + c.right + (start c.head.carryIn).toNat := by
  simp only [result, modulus, carry, right, limbs, List.map_cons, limbsValue_cons,
    List.length_cons, limbsModulus_succ]
  exact conserves_cons (hfirst.limb c.head) (hnext.linked h)

/-- A chain adds, or subtracts the first number from the second, and its last carry says whether
the sum did not fit or the difference did. -/
theorem adds_and_subtracts :
    (c.Unbroken .addc .adde →
      c.Succeeds .addc .adde ∧
      c.result .addc .adde = (c.left + c.right) % c.modulus ∧
      (c.carry .addc .adde = true ↔ c.modulus ≤ c.left + c.right)) ∧
    (c.Unbroken .subfc .subfe →
      c.Succeeds .subfc .subfe ∧
      (c.result .subfc .subfe : Int) = ((c.right : Int) - c.left) % c.modulus ∧
      (c.carry .subfc .subfe = true ↔ c.left ≤ c.right)) := by
  constructor
  · intro h
    have hsum := c.conserves ArithmeticOp.addc_adds ArithmeticOp.adde_adds h
    exact ⟨c.succeeds _ _, eq_mod_and_carry_iff (c.result_lt _ _) hsum⟩
  · intro h
    have hsum := c.conserves ArithmeticOp.subfc_adds ArithmeticOp.subfe_adds h
    have hcomplement := limbsValue_complement (c.limbs.map Limb.a)
    rw [List.map_map, List.length_map] at hcomplement
    refine ⟨c.succeeds _ _, eq_emod_and_carry_iff (c.result_lt _ _) ?_⟩
    rw [hsum, Bool.toNat_true, modulus, ← hcomplement, left]
    simp only [Function.comp_def]
    omega

/-- The words of 2^64 - 1 in r4 and of 1 in r5. CA is set at first, and holds `carry` between the
two instructions. -/
def wrapping (carry : Bool) : Chain :=
  let placed (ca : Bool) (a b : Word) : Limb :=
    { state :=
        { registers := ((({} : Registers).setGpr 4 a).setGpr 5 b).setCarry ca, memory := .gamecube }
      rt := 3, ra := 4, rb := 5, rc := false }
  ⟨placed true 0xFFFFFFFF 1, [placed carry 0xFFFFFFFF 0]⟩

/-- The sum wraps to zero with a carry, and the difference to 2 without one. -/
theorem adds_and_subtracts_wrapping :
    (wrapping true).Unbroken .addc .adde ∧ (wrapping true).result .addc .adde = 0 ∧
      (wrapping true).carry .addc .adde = true ∧
    (wrapping false).Unbroken .subfc .subfe ∧ (wrapping false).result .subfc .subfe = 2 ∧
      (wrapping false).carry .subfc .subfe = false := by
  have hleft (carry : Bool) : (wrapping carry).left = 2 ^ 64 - 1 := by cases carry <;> rfl
  have hright (carry : Bool) : (wrapping carry).right = 1 := by cases carry <;> rfl
  have hmodulus (carry : Bool) : (wrapping carry).modulus = 2 ^ 64 := by cases carry <;> rfl
  have hadd : (wrapping true).Unbroken .addc .adde := ⟨rfl, trivial⟩
  have hsub : (wrapping false).Unbroken .subfc .subfe := ⟨rfl, trivial⟩
  obtain ⟨-, hsum, hcarry⟩ := (wrapping true).adds_and_subtracts.1 hadd
  obtain ⟨-, hdifference, hborrow⟩ := (wrapping false).adds_and_subtracts.2 hsub
  rw [hleft, hright, hmodulus] at hsum hcarry hdifference
  rw [hleft, hright] at hborrow
  refine ⟨hadd, hsum, hcarry.mpr (by decide), hsub, ?_, ?_⟩
  · omega
  · exact Bool.eq_false_iff.mpr (mt hborrow.mp (by decide))

end Chain

end PowerPC
