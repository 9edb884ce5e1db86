import PowerPC.Execute.Branch
import PowerPC.Execute.Integer
import PowerPC.Proofs.TransferLaws

/-!
# Places of the register file

A register file is a number of places: registers, and the single bits of the condition register and
of packed XER. Two register files agree outside a set of places if they hold the same everywhere
else. Each operation on a register file keeps such an agreement if the places it writes belong to
the set, so the places that a chain of operations writes are read off the chain.
-/

namespace PowerPC

/-- A bit of XER goes by its weight, a bit of the condition register by its number. -/
inductive Place where
  | gpr (r : Gpr)
  | crBit (b : CrBit)
  | xerBit (weight : Fin 32)
  | lr
  | ctr
  | pc
deriving DecidableEq, Repr

/-- LT, GT and EQ of a field, and not SO. -/
def CrBit.Compares (b : CrBit) (f : CrField) : Prop := b.field = f ∧ b.place ≠ 3

namespace Registers

def SameAt (r s : Registers) : Place → Prop
  | .gpr i => s.gpr i = r.gpr i
  | .crBit b => s.cr.bit b = r.cr.bit b
  | .xerBit weight => s.xer.toWord.getLsbD weight = r.xer.toWord.getLsbD weight
  | .lr => s.lr = r.lr
  | .ctr => s.ctr = r.ctr
  | .pc => s.pc = r.pc

def AgreeOutside (places : Place → Prop) (r s : Registers) : Prop := ∀ p, ¬ places p → r.SameAt s p

namespace AgreeOutside

variable {places : Place → Prop} {r s : Registers}

theorem refl (places : Place → Prop) (r : Registers) : AgreeOutside places r r := by
  intro p _
  cases p <;> rfl

theorem setGpr (h : AgreeOutside places r s) {i : Gpr} (hi : places (.gpr i)) (w : Word) :
    AgreeOutside places r (s.setGpr i w) := by
  intro p hp
  cases p with
  | gpr j =>
    have hne : j ≠ i := by
      rintro rfl
      exact hp hi
    show (s.setGpr i w).gpr j = r.gpr j
    rw [gpr_setGpr, if_neg hne]
    exact h _ hp
  | _ => exact h _ hp

theorem setCr (h : AgreeOutside places r s) {cr : ConditionRegister}
    (hcr : ∀ b, ¬ places (.crBit b) → cr.bit b = s.cr.bit b) :
    AgreeOutside places r { s with cr } := by
  intro p hp
  cases p with
  | crBit b => exact (hcr b hp).trans (h _ hp)
  | _ => exact h _ hp

theorem setXer (h : AgreeOutside places r s) {xer : Xer}
    (hxer : ∀ n : Fin 32, ¬ places (.xerBit n) → xer.toWord.getLsbD n = s.xer.toWord.getLsbD n) :
    AgreeOutside places r { s with xer } := by
  intro p hp
  cases p with
  | xerBit n => exact (hxer n hp).trans (h _ hp)
  | _ => exact h _ hp

theorem setLr (h : AgreeOutside places r s) (hlr : places .lr) (w : Word) :
    AgreeOutside places r { s with lr := w } := by
  intro p hp
  cases p with
  | lr => exact absurd hlr hp
  | _ => exact h _ hp

theorem setCtr (h : AgreeOutside places r s) (hctr : places .ctr) (w : Word) :
    AgreeOutside places r { s with ctr := w } := by
  intro p hp
  cases p with
  | ctr => exact absurd hctr hp
  | _ => exact h _ hp

theorem setPc (h : AgreeOutside places r s) (hpc : places .pc) (w : Word) :
    AgreeOutside places r { s with pc := w } := by
  intro p hp
  cases p with
  | pc => exact absurd hpc hp
  | _ => exact h _ hp

-- ---------------------------------------------------------------------------
-- Flags
-- ---------------------------------------------------------------------------

theorem setCarry (h : AgreeOutside places r s) (hca : places (.xerBit 29)) (carry : Bool) :
    AgreeOutside places r (s.setCarry carry) := by
  refine h.setXer fun n hn => ?_
  have hne : n.val ≠ 29 := fun hn' => hn (by rwa [Fin.ext (a := n) (b := 29) hn'])
  rw [Xer.getLsbD_toWord _ n.isLt, Xer.getLsbD_toWord _ n.isLt, if_neg hne, if_neg hne]

theorem setCarry? (h : AgreeOutside places r s) {carry : Option Bool}
    (hca : carry.isSome → places (.xerBit 29)) : AgreeOutside places r (s.setCarry? carry) := by
  cases carry with
  | none => exact h
  | some carry => exact h.setCarry (hca rfl) carry

theorem recordField (h : AgreeOutside places r s) {f : CrField}
    (hf : ∀ b : CrBit, b.Compares f → places (.crBit b)) (o : Ordering) :
    AgreeOutside places r { s with cr := s.cr.record f o } := by
  refine h.setCr fun b hb => ?_
  rw [ConditionRegister.record, ConditionRegister.bit_set]
  split
  · rename_i hfield
    have hplace : b.place = 3 :=
      Decidable.byContradiction fun hplace => hb (hf b ⟨hfield, hplace⟩)
    rw [ConditionRegister.bit, hfield, hplace]
    rfl
  · rfl

theorem recordIf (h : AgreeOutside places r s) {rc : Bool}
    (hf : rc = true → ∀ b : CrBit, b.Compares 0 → places (.crBit b)) (w : Word) :
    AgreeOutside places r (s.recordIf rc w) := by
  cases rc with
  | false => exact h
  | true => exact h.recordField (hf rfl) _

-- ---------------------------------------------------------------------------
-- Branches, updates and multiple loads
-- ---------------------------------------------------------------------------

theorem transfer (h : AgreeOutside places r s) {lk : Bool} (hlr : lk = true → places .lr)
    (hpc : places .pc) (taken : Bool) (target : Word) :
    AgreeOutside places r (s.transfer taken target lk) := by
  have hlink : AgreeOutside places r { s with lr := if lk then s.pc else s.lr } := by
    cases lk with
    | false => exact h
    | true => exact h.setLr (hlr rfl) _
  exact hlink.setPc hpc _

theorem countDown (h : AgreeOutside places r s) {bo : Byte}
    (hctr : BranchOption.skipsCounter bo = false → places .ctr) :
    AgreeOutside places r (s.countDown bo).1 := by
  rw [Registers.countDown]
  split
  · exact h
  · rename_i hskip
    exact h.setCtr (hctr (Bool.eq_false_iff.mpr hskip)) _

theorem updated (h : AgreeOutside places r s) {update : Bool} {ea : Addressing}
    (hbase : update = true → places (.gpr ea.base)) (a : Word) :
    AgreeOutside places r (s.updated update ea a) := by
  cases update with
  | false => exact h
  | true => exact h.setGpr (hbase rfl) a

theorem loadWords (h : AgreeOutside places r s) {first : Nat}
    (hfrom : ∀ i : Gpr, first ≤ i.val → places (.gpr i)) (bytes : List Byte) :
    AgreeOutside places r (s.loadWords first bytes) := by
  fun_induction Registers.loadWords s first bytes with
  | case1 s first a b c d rest hlt ih =>
    refine ih (h.setGpr (hfrom _ (Nat.le_refl _)) _) fun i hi => hfrom i (by omega)
  | case2 => exact h
  | case3 => exact h

end AgreeOutside

end Registers

end PowerPC
