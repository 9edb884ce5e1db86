import Mathlib.Algebra.Group.Int.Defs
import Mathlib.Algebra.Group.Nat.Defs
import PowerPC.Word.Arithmetic

/-!
# Partial operations

Elsewhere every operation is total: a difference of numbers stops at zero, a shift may be of any
amount, an index is bounded by its type. Here operations are as a host has them. An index past the
end, a slice that does not lie in its list, a shift by the width or more, and arithmetic that leaves
the width are panics, and so is a narrowing that loses a bit.

Each operation comes with the condition under which it has its total counterpart's value.
-/

namespace PowerPC

inductive Panic where
  | index (i length : Nat)
  | slice (start stop length : Nat)
  | lengths (target source : Nat)
  | shift (amount width : Nat)
  | overflow
  | division
  | assertion
deriving DecidableEq, Repr

abbrev Checked := Except Panic

namespace Checked

variable {α : Type} {n m : Nat}

def require (p : Prop) [Decidable p] (panic : Panic) : Checked Unit :=
  if p then pure () else throw panic

theorem require_of {p : Prop} [Decidable p] {panic : Panic} (h : p) : require p panic = pure () :=
  if_pos h

-- ---------------------------------------------------------------------------
-- Numbers
-- ---------------------------------------------------------------------------

/-- A sum that must fit in `width` bits. -/
def plus (width a b : Nat) : Checked Nat :=
  if a + b < 2 ^ width then pure (a + b) else throw .overflow

def minus (a b : Nat) : Checked Nat := if b ≤ a then pure (a - b) else throw .overflow

def times (width a b : Nat) : Checked Nat :=
  if a * b < 2 ^ width then pure (a * b) else throw .overflow

theorem plus_of_lt {width a b : Nat} (h : a + b < 2 ^ width) : plus width a b = pure (a + b) :=
  if_pos h

theorem minus_of_le {a b : Nat} (h : b ≤ a) : minus a b = pure (a - b) := if_pos h

/-- There is no register 33 to count from. -/
example : minus 32 33 = .error .overflow := rfl

theorem times_of_lt {width a b : Nat} (h : a * b < 2 ^ width) : times width a b = pure (a * b) :=
  if_pos h

-- ---------------------------------------------------------------------------
-- Bit vectors
-- ---------------------------------------------------------------------------

def add (a b : BitVec n) : Checked (BitVec n) :=
  if a.toNat + b.toNat < 2 ^ n then pure (a + b) else throw .overflow

def sub (a b : BitVec n) : Checked (BitVec n) :=
  if b.toNat ≤ a.toNat then pure (a - b) else throw .overflow

def mul (a b : BitVec n) : Checked (BitVec n) :=
  if a.toNat * b.toNat < 2 ^ n then pure (a * b) else throw .overflow

def mulSigned (a b : BitVec n) : Checked (BitVec n) :=
  if -2 ^ (n - 1) ≤ a.toInt * b.toInt ∧ a.toInt * b.toInt < 2 ^ (n - 1) then pure (a * b)
  else throw .overflow

def div (a b : BitVec n) : Checked (BitVec n) :=
  if b = 0 then throw .division else pure (a / b)

/-- The quotient of two signed numbers, of which one does not fit. -/
def divSigned (a b : BitVec n) : Checked (BitVec n) :=
  if b = 0 then throw .division
  else if a = BitVec.intMin n ∧ b = -1 then throw .overflow
  else pure (a.sdiv b)

def shiftLeft (a : BitVec n) (amount : Nat) : Checked (BitVec n) :=
  if amount < n then pure (a <<< amount) else throw (.shift amount n)

def shiftRight (a : BitVec n) (amount : Nat) : Checked (BitVec n) :=
  if amount < n then pure (a >>> amount) else throw (.shift amount n)

def sshiftRight (a : BitVec n) (amount : Nat) : Checked (BitVec n) :=
  if amount < n then pure (a.sshiftRight amount) else throw (.shift amount n)

/-- The low `m` bits of a number that has no others. -/
def narrow (m : Nat) (a : BitVec n) : Checked (BitVec m) :=
  if a.toNat < 2 ^ m then pure (a.setWidth m) else throw .overflow

def orZero (x : Checked (BitVec n)) : BitVec n := x.toOption.getD 0

variable {a b : BitVec n} {amount : Nat}

theorem sub_of_le (h : b.toNat ≤ a.toNat) : sub a b = pure (a - b) := if_pos h

theorem mul_of_lt (h : a.toNat * b.toNat < 2 ^ n) : mul a b = pure (a * b) := if_pos h

theorem shiftLeft_of_lt (h : amount < n) : shiftLeft a amount = pure (a <<< amount) := if_pos h

theorem shiftRight_of_lt (h : amount < n) : shiftRight a amount = pure (a >>> amount) := if_pos h

theorem sshiftRight_of_lt (h : amount < n) : sshiftRight a amount = pure (a.sshiftRight amount) :=
  if_pos h

theorem narrow_of_lt (h : a.toNat < 2 ^ m) : narrow m a = pure (a.setWidth m) := if_pos h

theorem orZero_shiftLeft : orZero (shiftLeft a amount) = a <<< amount := by
  by_cases h : amount < n
  · rw [shiftLeft_of_lt h]
    rfl
  · rw [shiftLeft, if_neg h, BitVec.shiftLeft_eq_zero (Nat.not_lt.mp h)]
    rfl

theorem orZero_shiftRight : orZero (shiftRight a amount) = a >>> amount := by
  by_cases h : amount < n
  · rw [shiftRight_of_lt h]
    rfl
  · rw [shiftRight, if_neg h, BitVec.ushiftRight_eq_zero (Nat.not_lt.mp h)]
    rfl

theorem orZero_div (a b : Word) : orZero (div a b) = Word.divUnsigned a b := by
  rw [div, Word.divUnsigned]
  split <;> rfl

theorem orZero_divSigned (a b : Word) : orZero (divSigned a b) = Word.divSigned a b := by
  rw [divSigned, Word.divSigned]
  by_cases hzero : b = 0
  · rw [if_pos hzero, if_pos (.inl hzero)]
    rfl
  · by_cases hmin : a = BitVec.intMin 32 ∧ b = -1
    · rw [if_neg hzero, if_pos hmin, if_pos (.inr hmin)]
      rfl
    · rw [if_neg hzero, if_neg hmin, if_neg (not_or.mpr ⟨hzero, hmin⟩)]
      rfl

-- ---------------------------------------------------------------------------
-- Places in a row
-- ---------------------------------------------------------------------------

def index (n i : Nat) : Checked (Fin n) :=
  if h : i < n then pure ⟨i, h⟩ else throw (.index i n)

def get (v : Vector α n) (i : Nat) : Checked α := return v[← index n i]

def set (v : Vector α n) (i : Nat) (x : α) : Checked (Vector α n) := return v.set (← index n i) x

def nth (l : List α) (i : Nat) : Checked α := return l[← index l.length i]

def slice (l : List α) (start stop : Nat) : Checked (List α) :=
  if start ≤ stop ∧ stop ≤ l.length then pure ((l.take stop).drop start)
  else throw (.slice start stop l.length)

/-- What a copy does first: the bytes copied must be as many as those they replace. -/
def sameLength (target source : List α) : Checked Unit :=
  require (target.length = source.length) (.lengths target.length source.length)

variable {i : Nat}

theorem index_of_lt (h : i < n) : index n i = pure ⟨i, h⟩ := dif_pos h

theorem get_of_lt (v : Vector α n) (h : i < n) : get v i = pure v[i] := by
  rw [get, index_of_lt h]
  rfl

theorem set_of_lt (v : Vector α n) (h : i < n) (x : α) : set v i x = pure (v.set i x) := by
  rw [set, index_of_lt h]
  rfl

theorem nth_of_lt {l : List α} (h : i < l.length) : nth l i = pure l[i] := by
  rw [nth, index_of_lt h]
  rfl

theorem slice_of_le {l : List α} {start stop : Nat} (h : start ≤ stop) (hstop : stop ≤ l.length) :
    slice l start stop = pure ((l.take stop).drop start) :=
  if_pos ⟨h, hstop⟩

-- ---------------------------------------------------------------------------
-- Loops
-- ---------------------------------------------------------------------------

theorem mapM_of {β : Type} {f : α → Checked β} {g : α → β} {l : List α}
    (h : ∀ x ∈ l, f x = pure (g x)) : l.mapM f = pure (l.map g) := by
  induction l with
  | nil => rfl
  | cons x l ih =>
    rw [List.mapM_cons, h x List.mem_cons_self, pure_bind,
      ih fun y hy => h y (List.mem_cons_of_mem x hy), pure_bind, List.map_cons]

theorem findSomeM?_of {β : Type} {f : α → Checked (Option β)} {g : α → Option β} {l : List α}
    (h : ∀ x ∈ l, f x = pure (g x)) : l.findSomeM? f = pure (l.findSome? g) := by
  induction l with
  | nil => rfl
  | cons x l ih =>
    rw [List.findSomeM?, h x List.mem_cons_self, pure_bind, List.findSome?_cons]
    cases g x with
    | some y => rfl
    | none => exact ih fun y hy => h y (List.mem_cons_of_mem x hy)

theorem foldlM_of {β : Type} {f : β → α → Checked β} {g : β → α → β} {l : List α}
    (h : ∀ b, ∀ x ∈ l, f b x = pure (g b x)) (b : β) : l.foldlM f b = pure (l.foldl g b) := by
  induction l generalizing b with
  | nil => rfl
  | cons x l ih =>
    rw [List.foldlM_cons, h b x List.mem_cons_self, pure_bind, List.foldl_cons,
      ih fun b y hy => h b y (List.mem_cons_of_mem x hy)]

end Checked

end PowerPC
