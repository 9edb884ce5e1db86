import PowerPC.Proofs.CheckedDecodeLaws
import PowerPC.Proofs.CheckedMemoryLaws
import PowerPC.Proofs.CheckedRegisterLaws
import PowerPC.Proofs.MultipleLaws

/-!
# Executing with partial operations

Each handler of an instruction again, where it has an operation that may panic: a register or a
field that is looked up, a shift, a product of double width, a count of registers. Handlers without
one are taken as they are. No instruction panics, in any state and for any operands.
-/

namespace PowerPC.Checked

-- ---------------------------------------------------------------------------
-- Shifts, masks and products
-- ---------------------------------------------------------------------------

/-- A shift by 32 or more leaves copies of the sign, and is not left to the shift operation. -/
def shiftRightAlgebraic (w : Word) (amount : Nat) : Checked (Word × Bool) := do
  if 32 ≤ amount then return (if w.msb then BitVec.allOnes 32 else 0, w.msb)
  else
    let result ← sshiftRight w amount
    return (result, w.msb && (w &&& (← lowOnes amount)) != 0)

@[simp] theorem shiftRightAlgebraic_eq (w : Word) (amount : Nat) :
    shiftRightAlgebraic w amount = pure (w.shiftRightAlgebraic amount) := by
  rw [shiftRightAlgebraic, Word.shiftRightAlgebraic]
  split
  · rename_i hle
    have hsign : w.sshiftRight amount = if w.msb then BitVec.allOnes 32 else 0 := by
      refine BitVec.eq_of_getLsbD_eq fun i hi => ?_
      have hout : ¬ amount + i < 32 := by omega
      rw [BitVec.getLsbD_sshiftRight, if_neg hout]
      cases w.msb
      · simp
      · rw [if_pos rfl, BitVec.getLsbD_allOnes]
        simp [hi]
    have hlost : (w.msb && (w &&& ((1#32 <<< amount) - 1)) != 0) = w.msb := by
      have hones : (1#32 <<< amount) - 1 = BitVec.allOnes 32 := by
        rw [BitVec.shiftLeft_eq_zero hle]
        rfl
      rw [hones, BitVec.and_allOnes]
      cases hmsb : w.msb
      · rfl
      · have hne : w ≠ 0 := fun hzero => by simp [hzero] at hmsb
        simpa using hne
    rw [hsign, hlost]
  · rename_i hlt
    rw [sshiftRight_of_lt (by omega), pure_bind, lowOnes_of_lt (by omega), pure_bind]

def mask (first last : Byte) : Checked Word := do
  let first := first.toNat % 32
  let last := last.toNat % 32
  let fromFirst ← shiftRight (BitVec.allOnes 32) first
  let toLast ← shiftLeft (BitVec.allOnes 32) (← minus 31 last)
  return if first ≤ last then fromFirst &&& toLast else fromFirst ||| toLast

@[simp] theorem mask_eq (first last : Byte) : mask first last = pure (Word.mask first last) := by
  rw [mask, shiftRight_of_lt (by omega), pure_bind, minus_of_le (by omega), pure_bind,
    shiftLeft_of_lt (by omega), pure_bind]
  rfl

/-- Products are made in 64 bits, of which the upper half is taken. -/
def mulHighSigned (a b : Word) : Checked Word := do
  return (← sshiftRight (← mulSigned (a.signExtend 64) (b.signExtend 64)) 32).setWidth 32

def mulHighUnsigned (a b : Word) : Checked Word := do
  return (← shiftRight (← mul (a.setWidth 64) (b.setWidth 64)) 32).setWidth 32

theorem mulHighSigned_eq (a b : Word) : mulHighSigned a b = pure (Word.mulHighSigned a b) := by
  have hsigned (w : Word) : (w.signExtend 64).toInt = w.toInt :=
    BitVec.toInt_signExtend_of_le (by decide)
  have hle : a.toInt * b.toInt ≤ 2 ^ 62 := BitVec.toInt_mul_toInt_le
  have hge : -2 ^ 62 ≤ a.toInt * b.toInt := BitVec.le_toInt_mul_toInt
  have hfits : mulSigned (a.signExtend 64) (b.signExtend 64) =
      pure (a.signExtend 64 * b.signExtend 64) := by
    refine if_pos ?_
    rw [hsigned, hsigned]
    omega
  rw [mulHighSigned, hfits, pure_bind, sshiftRight_of_lt (by decide), pure_bind,
    Word.mulHighSigned]
  refine congrArg pure (BitVec.eq_of_getLsbD_eq fun i hi => ?_)
  have hlt : i < 64 := by omega
  have hin : 32 + i < 64 := by omega
  rw [BitVec.getLsbD_setWidth, BitVec.getLsbD_sshiftRight, BitVec.getLsbD_extractLsb', if_pos hin]
  simp [hi, hlt]

theorem mulHighUnsigned_eq (a b : Word) :
    mulHighUnsigned a b = pure (Word.mulHighUnsigned a b) := by
  have hwide {w : Word} : (w.setWidth 64).toNat = w.toNat := by simp; omega
  have hfits : mul (a.setWidth 64) (b.setWidth 64) = pure (a.setWidth 64 * b.setWidth 64) := by
    refine mul_of_lt ?_
    rw [hwide, hwide]
    have hlt := Nat.mul_lt_mul'' a.isLt b.isLt
    omega
  rw [mulHighUnsigned, hfits, pure_bind, shiftRight_of_lt (by decide), pure_bind,
    Word.mulHighUnsigned]
  refine congrArg pure (BitVec.eq_of_getLsbD_eq fun i hi => ?_)
  simp [hi]

-- ---------------------------------------------------------------------------
-- Integer instructions
-- ---------------------------------------------------------------------------

/-- The result of an operation. Those that are not listed have no operation that may panic. -/
def evalArithmetic (op : ArithmeticOp) (a b : Word) (ca : Bool) : Checked (Word × Option Bool) :=
  match op with
  | .mulhw => return (← mulHighSigned a b, none)
  | .mulhwu => return (← mulHighUnsigned a b, none)
  | .divw => return (orZero (divSigned a b), none)
  | .divwu => return (orZero (div a b), none)
  | _ => return op.eval a b ca

@[simp] theorem evalArithmetic_eq (op : ArithmeticOp) (a b : Word) (ca : Bool) :
    evalArithmetic op a b ca = pure (op.eval a b ca) := by
  cases op <;>
    simp [evalArithmetic, ArithmeticOp.eval, mulHighSigned_eq, mulHighUnsigned_eq, orZero_div,
      orZero_divSigned]

def evalLogicalImmediate (op : LogicalImmediateOp) (s imm : Word) : Checked Word :=
  match op with
  | .oris => return s ||| (← shiftLeft imm 16)
  | .xoris => return s ^^^ (← shiftLeft imm 16)
  | .andis => return s &&& (← shiftLeft imm 16)
  | _ => return op.eval s imm

@[simp] theorem evalLogicalImmediate_eq (op : LogicalImmediateOp) (s imm : Word) :
    evalLogicalImmediate op s imm = pure (op.eval s imm) := by
  cases op <;> simp [evalLogicalImmediate, LogicalImmediateOp.eval, shiftLeft_of_lt]

def arithmeticImmediate (r : Registers) (op : ImmediateOp) (rt ra : Gpr) (imm : Word) :
    Checked Registers :=
  match op with
  | .addi => do setGpr r rt.val ((← base r ra.val) + imm)
  | .addis => do setGpr r rt.val ((← base r ra.val) + (← shiftLeft imm 16))
  | .addic => do
    let (result, carry) := Word.addOverflow (← gpr r ra.val) imm
    setGpr (r.setCarry carry) rt.val result
  | .addicRecord => do
    let (result, carry) := Word.addOverflow (← gpr r ra.val) imm
    record (← setGpr (r.setCarry carry) rt.val result) result
  | .subfic => do
    let (result, carry) := Word.addCarry (~~~(← gpr r ra.val)) imm true
    setGpr (r.setCarry carry) rt.val result
  | .mulli => do setGpr r rt.val ((← gpr r ra.val) * imm)

@[simp] theorem arithmeticImmediate_eq (r : Registers) (op : ImmediateOp) (rt ra : Gpr)
    (imm : Word) :
    arithmeticImmediate r op rt ra imm = pure (r.arithmeticImmediate op rt ra imm) := by
  cases op <;> simp [arithmeticImmediate, Registers.arithmeticImmediate, shiftLeft_of_lt]

def arithmetic (r : Registers) (op : ArithmeticOp) (rt ra rb : Gpr) (rc : Bool) :
    Checked Registers := do
  let (result, carry) ← evalArithmetic op (← gpr r ra.val) (← gpr r rb.val) r.xer.ca
  recordIf ((← setGpr r rt.val result).setCarry? carry) rc result

@[simp] theorem arithmetic_eq (r : Registers) (op : ArithmeticOp) (rt ra rb : Gpr) (rc : Bool) :
    arithmetic r op rt ra rb rc = pure (r.arithmetic op rt ra rb rc) := by
  simp [arithmetic, Registers.arithmetic]

def finish (r : Registers) (ra : Gpr) (rc : Bool) (result : Word) : Checked Registers := do
  recordIf (← setGpr r ra.val result) rc result

@[simp] theorem finish_eq (r : Registers) (ra : Gpr) (rc : Bool) (result : Word) :
    finish r ra rc result = pure ((r.setGpr ra result).recordIf rc result) := by
  simp [finish]

def logicalImmediate (r : Registers) (op : LogicalImmediateOp) (rs ra : Gpr) (imm : Word) :
    Checked Registers := do
  finish r ra op.records (← evalLogicalImmediate op (← gpr r rs.val) imm)

def logical (r : Registers) (op : LogicalOp) (rs ra rb : Gpr) (rc : Bool) : Checked Registers := do
  finish r ra rc (op.evalWord (← gpr r rs.val) (← gpr r rb.val))

def unary (r : Registers) (op : UnaryOp) (rs ra : Gpr) (rc : Bool) : Checked Registers := do
  finish r ra rc (op.eval (← gpr r rs.val))

def shiftAlgebraic (r : Registers) (rs ra : Gpr) (amount : Nat) (rc : Bool) :
    Checked Registers := do
  let (result, carry) ← shiftRightAlgebraic (← gpr r rs.val) amount
  finish (r.setCarry carry) ra rc result

/-- The panics of a logical shift are caught, and stand for zero. -/
def shift (r : Registers) (op : ShiftOp) (rs ra rb : Gpr) (rc : Bool) : Checked Registers := do
  let amount := (← gpr r rb.val).toNat % 64
  match op with
  | .slw => finish r ra rc (orZero (shiftLeft (← gpr r rs.val) amount))
  | .srw => finish r ra rc (orZero (shiftRight (← gpr r rs.val) amount))
  | .sraw => shiftAlgebraic r rs ra amount rc

inductive RotateKind where
  | rlwimi | rlwinm | rlwnm
deriving DecidableEq, Repr

/-- The rotate with a byte as its operand, the amount or, for `rlwnm`, the index of a register. -/
def RotateKind.withOperand : RotateKind → Byte → RotateOp
  | .rlwimi, sh => .rlwimi sh
  | .rlwinm, sh => .rlwinm sh
  | .rlwnm, sh => .rlwnm (.ofNat 32 sh.toNat)

def rotateAmount (r : Registers) (kind : RotateKind) (sh : Byte) : Checked Nat := do
  match kind with
  | .rlwimi | .rlwinm => return sh.toNat
  | .rlwnm => return (← gpr r sh.toNat).toNat % 32

/-- Any byte will do as an amount, but not every byte is the index of a register. -/
def rotateBy (r : Registers) (kind : RotateKind) (rs ra : Gpr) (sh mb me : Byte) (rc : Bool) :
    Checked Registers := do
  let amount ← rotateAmount r kind sh
  let rotated := (← gpr r rs.val).rotateLeft amount
  let mask ← mask mb me
  match kind with
  | .rlwimi => finish r ra rc ((rotated &&& mask) ||| ((← gpr r ra.val) &&& ~~~mask))
  | .rlwinm | .rlwnm => finish r ra rc (rotated &&& mask)

def rotate (r : Registers) (op : RotateOp) (rs ra : Gpr) (mb me : Byte) (rc : Bool) :
    Checked Registers :=
  match op with
  | .rlwimi sh => rotateBy r .rlwimi rs ra sh mb me rc
  | .rlwinm sh => rotateBy r .rlwinm rs ra sh mb me rc
  | .rlwnm rb => rotateBy r .rlwnm rs ra (.ofNat 8 rb.val) mb me rc

section Integer

variable (r : Registers) (rs ra rb : Gpr) (rc : Bool)

@[simp] theorem logicalImmediate_eq (op : LogicalImmediateOp) (imm : Word) :
    logicalImmediate r op rs ra imm = pure (r.logicalImmediate op rs ra imm) := by
  simp [logicalImmediate, Registers.logicalImmediate]

@[simp] theorem logical_eq (op : LogicalOp) :
    logical r op rs ra rb rc = pure (r.logical op rs ra rb rc) := by
  simp [logical, Registers.logical]

@[simp] theorem unary_eq (op : UnaryOp) :
    unary r op rs ra rc = pure (r.unary op rs ra rc) := by
  simp [unary, Registers.unary]

@[simp] theorem shiftAlgebraic_eq (amount : Nat) :
    shiftAlgebraic r rs ra amount rc = pure (r.shiftRightAlgebraic rs ra amount rc) := by
  simp [shiftAlgebraic, Registers.shiftRightAlgebraic]

@[simp] theorem shift_eq (op : ShiftOp) :
    shift r op rs ra rb rc = pure (r.shift op rs ra rb rc) := by
  cases op <;> simp [shift, Registers.shift, orZero_shiftLeft, orZero_shiftRight]

theorem rotateAmount_rlwnm {sh : Byte} (hsh : sh.toNat ≤ 31) :
    rotateAmount r .rlwnm sh = pure ((r.gpr (.ofNat 32 sh.toNat)).toNat % 32) := by
  have hindex : (Fin.ofNat 32 sh.toNat).val = sh.toNat := Nat.mod_eq_of_lt (by omega)
  rw [rotateAmount, ← hindex, gpr_eq, pure_bind, hindex]

theorem rotateBy_eq {kind : RotateKind} {sh : Byte} (mb me : Byte)
    (hsh : kind = .rlwnm → sh.toNat ≤ 31) :
    rotateBy r kind rs ra sh mb me rc = pure (r.rotate (kind.withOperand sh) rs ra mb me rc) := by
  cases kind with
  | rlwnm =>
    rw [rotateBy, rotateAmount_rlwnm r (hsh rfl)]
    simp [RotateKind.withOperand, Registers.rotate]
  | _ => simp [rotateBy, rotateAmount, RotateKind.withOperand, Registers.rotate]

example : rotateBy {} .rlwnm 5 4 32 0 31 false = .error (.index 32 32) := rfl

@[simp] theorem rotate_eq (op : RotateOp) (mb me : Byte) :
    rotate r op rs ra mb me rc = pure (r.rotate op rs ra mb me rc) := by
  cases op with
  | rlwimi sh => exact rotateBy_eq r rs ra rc mb me nofun
  | rlwinm sh => exact rotateBy_eq r rs ra rc mb me nofun
  | rlwnm rb =>
    have hindex : (BitVec.ofNat 8 rb.val).toNat = rb.val := by
      rw [BitVec.toNat_ofNat]
      omega
    have hrb : RotateKind.withOperand .rlwnm (.ofNat 8 rb.val) = .rlwnm rb := by
      rw [RotateKind.withOperand, hindex, Fin.ofNat_val_eq_self]
    rw [rotate, rotateBy_eq r rs ra rc mb me (fun _ => by omega), hrb]

end Integer

-- ---------------------------------------------------------------------------
-- Branches and condition register instructions
-- ---------------------------------------------------------------------------

def conditionHolds (r : Registers) (bo : Byte) (bi : CrBit) : Checked Bool :=
  if BranchOption.skipsCondition bo then return true
  else return (← bit r.cr bi.val) == BranchOption.onSet bo

def branchConditional (r : Registers) (bo : Byte) (bi : CrBit) (offset : Word) (aa lk : Bool) :
    Checked Registers := do
  let (r, counterOk) := r.countDown bo
  return r.transfer (counterOk && (← conditionHolds r bo bi)) (r.branchTarget offset aa) lk

def branchToLr (r : Registers) (bo : Byte) (bi : CrBit) (lk : Bool) : Checked Registers := do
  let (r, counterOk) := r.countDown bo
  return r.transfer (counterOk && (← conditionHolds r bo bi)) r.lr.alignDown lk

def branchToCtr (r : Registers) (bo : Byte) (bi : CrBit) (lk : Bool) : Checked Registers :=
  return r.transfer (← conditionHolds r bo bi) r.ctr.alignDown lk

def crLogical (r : Registers) (op : LogicalOp) (bt ba bb : CrBit) : Checked Registers := do
  let value := op.evalBit (← bit r.cr ba.val) (← bit r.cr bb.val)
  return { r with cr := ← setBit r.cr bt.val value }

def moveCrField (r : Registers) (bf bfa : CrField) : Checked Registers :=
  return { r with cr := ← setCondition r.cr bf.val (← condition r.cr bfa.val) }

def compare (r : Registers) (kind : Comparison) (bf : CrField) (ra : Gpr) (rhs : CompareOperand) :
    Checked Registers := do
  let a ← gpr r ra.val
  let b ← match rhs with
    | .gpr rb => gpr r rb.val
    | .immediate value => pure value
  let order := match kind with
    | .signed => a.compareSigned b
    | .logical => a.compareLogical b
  return { r with cr := ← recordIn r.cr bf.val order }

def moveFromSpr (r : Registers) (rt : Gpr) (s : Spr) : Checked Registers :=
  match s with
  | .xer => do setGpr r rt.val (← xerToWord r.xer)
  | .lr => setGpr r rt.val r.lr
  | .ctr => setGpr r rt.val r.ctr

def moveToSpr (r : Registers) (s : Spr) (rs : Gpr) : Checked Registers := do
  let w ← gpr r rs.val
  match s with
  | .xer => return { r with xer := ← xerOfWord w }
  | .lr => return { r with lr := w }
  | .ctr => return { r with ctr := w }

section Branches

variable (r : Registers)

@[simp] theorem conditionHolds_eq (bo : Byte) (bi : CrBit) :
    conditionHolds r bo bi = pure (r.conditionHolds bo bi) := by
  rw [conditionHolds, Registers.conditionHolds]
  cases BranchOption.skipsCondition bo <;> simp

@[simp] theorem branchConditional_eq (bo : Byte) (bi : CrBit) (offset : Word) (aa lk : Bool) :
    branchConditional r bo bi offset aa lk = pure (r.branchConditional bo bi offset aa lk) := by
  simp [branchConditional, Registers.branchConditional]

@[simp] theorem branchToLr_eq (bo : Byte) (bi : CrBit) (lk : Bool) :
    branchToLr r bo bi lk = pure (r.branchToLr bo bi lk) := by
  simp [branchToLr, Registers.branchToLr]

@[simp] theorem branchToCtr_eq (bo : Byte) (bi : CrBit) (lk : Bool) :
    branchToCtr r bo bi lk = pure (r.branchToCtr bo bi lk) := by
  simp [branchToCtr, Registers.branchToCtr]

@[simp] theorem crLogical_eq (op : LogicalOp) (bt ba bb : CrBit) :
    crLogical r op bt ba bb = pure (r.crLogical op bt ba bb) := by
  simp [crLogical, Registers.crLogical]

@[simp] theorem moveCrField_eq (bf bfa : CrField) :
    moveCrField r bf bfa = pure (r.moveCrField bf bfa) := by
  simp [moveCrField, Registers.moveCrField]

@[simp] theorem compare_eq (kind : Comparison) (bf : CrField) (ra : Gpr) (rhs : CompareOperand) :
    compare r kind bf ra rhs = pure (r.compare kind bf ra rhs) := by
  cases rhs <;> cases kind <;> simp [compare, Registers.compare]

@[simp] theorem moveFromSpr_eq (rt : Gpr) (s : Spr) :
    moveFromSpr r rt s = pure (r.setGpr rt (r.spr s)) := by
  cases s <;> simp [moveFromSpr, Registers.spr]

@[simp] theorem moveToSpr_eq (s : Spr) (rs : Gpr) :
    moveToSpr r s rs = pure (r.setSpr s (r.gpr rs)) := by
  cases s <;> simp [moveToSpr, Registers.setSpr]

end Branches

-- ---------------------------------------------------------------------------
-- Loads and stores
-- ---------------------------------------------------------------------------

def effectiveAddress (r : Registers) : Addressing → Checked Word
  | .displaced ra d => return (← base r ra.val) + d
  | .indexed ra rb => return (← base r ra.val) + (← gpr r rb.val)

def updated (r : Registers) (update : Bool) (ea : Addressing) (a : Word) : Checked Registers :=
  if update then setGpr r ea.base.val a else return r

def afterAccess {α : Type} (access : Except AccessFault α) (s : State) (next : α → Checked State) :
    Checked (Except Fault Unit × State) :=
  match access with
  | .ok value => return (.ok (), ← next value)
  | .error f => return (.error (.memory f), s)

theorem afterAccess_of {α : Type} {access : Except AccessFault α} {s : State}
    {next : α → Checked State} {g : α → State}
    (h : ∀ value, access = .ok value → next value = pure (g value)) :
    afterAccess access s next = pure (Exec.afterAccess access s g) := by
  cases access with
  | ok value => simp [afterAccess, Exec.afterAccess, h value rfl]
  | error f => rfl

def load (kind : LoadKind) (rt : Gpr) (ea : Addressing) (update : Bool) (s : State) :
    Checked (Except Fault Unit × State) := do
  let a ← effectiveAddress s.registers ea
  afterAccess (← read s.memory a kind.width) s fun bytes => do
    let value := kind.value (← firstBytes kind.width bytes)
    let registers ← updated (← setGpr s.registers rt.val value) update ea a
    return { s with registers }

def store (kind : StoreKind) (rs : Gpr) (ea : Addressing) (update : Bool) (s : State) :
    Checked (Except Fault Unit × State) := do
  let a ← effectiveAddress s.registers ea
  afterAccess (← write s.memory a (kind.bytes (← gpr s.registers rs.val))) s fun memory =>
    return { registers := ← updated s.registers update ea a, memory }

def loadWords (r : Registers) (first : Nat) : Nat → List Byte → Checked Registers
  | 0, _ => return r
  | n + 1, bytes => do
    let word ← firstBytes 4 bytes
    loadWords (← setGpr r first (BitVec.ofNat 32 (BigEndian.decode word))) (first + 1) n
      (bytes.drop 4)

def wordsFrom (r : Registers) (first : Nat) : Checked (List Byte) := do
  let words ← (List.finRange (32 - first)).mapM fun i => gpr r (first + i.val)
  return BigEndian.encodeWords words

def loadMultiple (rt ra : Gpr) (d : Word) (s : State) : Checked (Except Fault Unit × State) := do
  let a := (← base s.registers ra.val) + d
  let count ← minus 32 rt.val
  afterAccess (← read s.memory a (← times 64 count 4)) s fun bytes =>
    return { s with registers := ← loadWords s.registers rt.val count bytes }

def storeMultiple (rs ra : Gpr) (d : Word) (s : State) : Checked (Except Fault Unit × State) := do
  let a := (← base s.registers ra.val) + d
  afterAccess (← write s.memory a (← wordsFrom s.registers rs.val)) s fun memory =>
    return { s with memory }

section Transfers

variable (r : Registers) (s : State)

@[simp] theorem effectiveAddress_eq (ea : Addressing) :
    effectiveAddress r ea = pure (r.effectiveAddress ea) := by
  cases ea <;> simp [effectiveAddress, Registers.effectiveAddress]

@[simp] theorem updated_eq (update : Bool) (ea : Addressing) (a : Word) :
    updated r update ea a = pure (r.updated update ea a) := by
  cases update <;> simp [updated, Registers.updated]

theorem load_eq (kind : LoadKind) (rt : Gpr) (ea : Addressing) (update : Bool) :
    load kind rt ea update s = pure (Exec.load kind rt ea update s) := by
  rw [load, effectiveAddress_eq, pure_bind, read_eq, pure_bind, Exec.load_run]
  refine afterAccess_of fun bytes hread => ?_
  have hlength := Memory.length_read hread
  rw [firstBytes_eq (Nat.le_of_eq hlength.symm), List.take_of_length_le (Nat.le_of_eq hlength)]
  simp

theorem store_eq (kind : StoreKind) (rs : Gpr) (ea : Addressing) (update : Bool) :
    store kind rs ea update s = pure (Exec.store kind rs ea update s) := by
  rw [store, effectiveAddress_eq, pure_bind, gpr_eq, pure_bind, write_eq, pure_bind,
    Exec.store_run]
  exact afterAccess_of fun memory _ => by simp

theorem loadWords_eq (first : Nat) (ws : List Word) (h : first + ws.length ≤ 32) :
    loadWords r first ws.length (BigEndian.encodeWords ws) =
      pure (r.loadWords first (BigEndian.encodeWords ws)) := by
  induction ws generalizing r first with
  | nil => rfl
  | cons w ws ih =>
    rw [List.length_cons] at h
    have hword : (BigEndian.encode 4 w.toNat).length = 4 := BigEndian.length_encode 4 w.toNat
    have hvalue : BitVec.ofNat 32 (BigEndian.decode (BigEndian.encode 4 w.toNat)) = w :=
      BigEndian.ofNat_decode_encode (n := 4) w
    have hset : setGpr r first w = pure (r.setGpr ⟨first, by omega⟩ w) := setGpr_eq r ⟨first, _⟩ w
    rw [List.length_cons, loadWords, BigEndian.encodeWords_cons, firstBytes_eq (by simp [hword]),
      pure_bind, List.take_left' hword, hvalue, hset, pure_bind, List.drop_left' hword,
      ih _ _ (by omega), Registers.loadWords_cons r (by omega)]

@[simp] theorem wordsFrom_eq (rs : Gpr) : wordsFrom r rs.val = pure (r.wordsFrom rs) := by
  have hread : ∀ i ∈ List.finRange (32 - rs.val), gpr r (rs.val + i.val) =
      pure (r.gpr (rs.plus i)) := fun i _ => gpr_eq r (rs.plus i)
  rw [wordsFrom, mapM_of hread, pure_bind, Registers.wordsFrom_eq]
  rfl

theorem loadMultiple_eq (rt ra : Gpr) (d : Word) :
    loadMultiple rt ra d s = pure (Exec.loadMultiple rt ra d s) := by
  rw [loadMultiple, base_eq, pure_bind, minus_of_le (by omega), pure_bind, times_of_lt (by omega),
    pure_bind, Nat.mul_comm, read_eq, pure_bind, Exec.loadMultiple_run]
  refine afterAccess_of fun bytes hread => ?_
  obtain ⟨ws, hws, rfl⟩ := BigEndian.exists_encodeWords (Memory.length_read hread)
  rw [← hws, loadWords_eq _ _ _ (by omega), pure_bind]

theorem storeMultiple_eq (rs ra : Gpr) (d : Word) :
    storeMultiple rs ra d s = pure (Exec.storeMultiple rs ra d s) := by
  rw [storeMultiple, base_eq, pure_bind, wordsFrom_eq, pure_bind, write_eq, pure_bind,
    Exec.storeMultiple_run]
  exact afterAccess_of fun memory _ => rfl

end Transfers

-- ---------------------------------------------------------------------------
-- Instructions
-- ---------------------------------------------------------------------------

def withRegisters (s : State) (registers : Checked Registers) :
    Checked (Except Fault Unit × State) :=
  return (.ok (), { s with registers := ← registers })

@[simp] theorem withRegisters_pure (s : State) (f : Registers → Registers) :
    withRegisters s (pure (f s.registers)) = pure (Exec.modifyRegisters f s) := rfl

def execute (s : State) : Instruction → Checked (Except Fault Unit × State)
  | .branch offset aa lk => withRegisters s (pure (s.registers.branch offset aa lk))
  | .branchConditional bo bi offset aa lk =>
    withRegisters s (branchConditional s.registers bo bi offset aa lk)
  | .branchToLr bo bi lk => withRegisters s (branchToLr s.registers bo bi lk)
  | .branchToCtr bo bi lk => withRegisters s (branchToCtr s.registers bo bi lk)
  | .crLogical op bt ba bb => withRegisters s (crLogical s.registers op bt ba bb)
  | .moveCrField bf bfa => withRegisters s (moveCrField s.registers bf bfa)
  | .compare kind bf ra rhs => withRegisters s (compare s.registers kind bf ra rhs)
  | .arithmeticImmediate op rt ra imm =>
    withRegisters s (arithmeticImmediate s.registers op rt ra imm)
  | .arithmetic op rt ra rb oe rc =>
    if oe then return (.error (.overflowEnable op), s)
    else withRegisters s (arithmetic s.registers op rt ra rb rc)
  | .logicalImmediate op rs ra imm => withRegisters s (logicalImmediate s.registers op rs ra imm)
  | .logical op rs ra rb rc => withRegisters s (logical s.registers op rs ra rb rc)
  | .unary op rs ra rc => withRegisters s (unary s.registers op rs ra rc)
  | .shift op rs ra rb rc => withRegisters s (shift s.registers op rs ra rb rc)
  | .shiftRightAlgebraicImmediate rs ra sh rc =>
    withRegisters s (shiftAlgebraic s.registers rs ra sh.toNat rc)
  | .rotate op rs ra mb me rc => withRegisters s (rotate s.registers op rs ra mb me rc)
  | .load kind rt ea update => load kind rt ea update s
  | .store kind rs ea update => store kind rs ea update s
  | .loadMultiple rt ra d => loadMultiple rt ra d s
  | .storeMultiple rs ra d => storeMultiple rs ra d s
  | .moveFromSpr rt spr => withRegisters s (moveFromSpr s.registers rt spr)
  | .moveToSpr spr rs => withRegisters s (moveToSpr s.registers spr rs)
  | .moveFromCr rt => withRegisters s do setGpr s.registers rt.val (← toWord s.registers.cr)
  | .moveToCrFields fxm rs => withRegisters s do
    return { s.registers with cr := ← loadFields s.registers.cr (← gpr s.registers rs.val) fxm }
  | .sync | .isync => return (.ok (), s)

theorem execute_eq (i : Instruction) (s : State) : execute s i = pure (i.execute s) := by
  cases i with
  | arithmetic op rt ra rb oe rc =>
    cases oe
    · simp only [execute, arithmetic_eq]
      rfl
    · rfl
  | load kind rt ea update => exact load_eq s kind rt ea update
  | store kind rs ea update => exact store_eq s kind rs ea update
  | loadMultiple rt ra d => exact loadMultiple_eq s rt ra d
  | storeMultiple rs ra d => exact storeMultiple_eq s rs ra d
  | _ =>
    simp only [execute, branchConditional_eq, branchToLr_eq, branchToCtr_eq, crLogical_eq,
      moveCrField_eq, compare_eq, arithmeticImmediate_eq, logicalImmediate_eq, logical_eq, unary_eq,
      shift_eq, shiftAlgebraic_eq, rotate_eq, moveFromSpr_eq, moveToSpr_eq, toWord_eq, setGpr_eq,
      gpr_eq, loadFields_eq, pure_bind]
    rfl

end PowerPC.Checked
