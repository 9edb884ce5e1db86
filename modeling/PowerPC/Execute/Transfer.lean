import PowerPC.Execute.State
import PowerPC.Instruction.Basic

/-!
# Loads and stores

A load reads memory before it writes a register, and a store writes memory before it updates its
base, so a fault changes nothing. The multiple forms access their whole range at once.
-/

namespace PowerPC

def Registers.effectiveAddress (r : Registers) : Addressing → Word
  | .displaced ra d => r.base ra + d
  | .indexed ra rb => r.base ra + r.gpr rb

def LoadKind.value (kind : LoadKind) (bytes : List Byte) : Word :=
  match kind with
  | byte | halfword | word => BitVec.ofNat 32 (BigEndian.decode bytes)
  | halfwordAlgebraic => (BitVec.ofNat 16 (BigEndian.decode bytes)).signExtend 32
  | halfwordByteReversed | wordByteReversed =>
    BitVec.ofNat 32 (BigEndian.decode bytes.reverse)

def StoreKind.bytes (kind : StoreKind) (w : Word) : List Byte :=
  match kind with
  | byte | halfword | word => BigEndian.encode kind.width w.toNat
  | halfwordByteReversed | wordByteReversed => (BigEndian.encode kind.width w.toNat).reverse

def Registers.loadWords (r : Registers) (first : Nat) : List Byte → Registers
  | a :: b :: c :: d :: rest =>
    if h : first < 32 then
      (r.setGpr ⟨first, h⟩ (BitVec.ofNat 32 (BigEndian.decode [a, b, c, d]))).loadWords
        (first + 1) rest
    else r
  | _ => r

def Registers.wordsFrom (r : Registers) (first : Gpr) : List Byte :=
  ((List.finRange 32).filter (first ≤ ·)).flatMap fun i => BigEndian.encode 4 (r.gpr i).toNat

namespace Exec

def updateBase (update : Bool) (ea : Addressing) (a : Word) : Exec Unit :=
  if update then modifyRegisters (·.setGpr ea.base a) else return

def load (kind : LoadKind) (rt : Gpr) (ea : Addressing) (update : Bool) : Exec Unit := do
  let a := (← registers).effectiveAddress ea
  let bytes ← readMemory a kind.width
  modifyRegisters (·.setGpr rt (kind.value bytes))
  updateBase update ea a

def store (kind : StoreKind) (rs : Gpr) (ea : Addressing) (update : Bool) : Exec Unit := do
  let r ← registers
  let a := r.effectiveAddress ea
  writeMemory a (kind.bytes (r.gpr rs))
  updateBase update ea a

def loadMultiple (rt ra : Gpr) (d : Word) : Exec Unit := do
  let a := (← registers).effectiveAddress (.displaced ra d)
  let bytes ← readMemory a (4 * (32 - rt.val))
  modifyRegisters (·.loadWords rt.val bytes)

def storeMultiple (rs ra : Gpr) (d : Word) : Exec Unit := do
  let r ← registers
  writeMemory (r.effectiveAddress (.displaced ra d)) (r.wordsFrom rs)

end Exec

end PowerPC
