import PowerPC.Word.Basic

/-!
# The fixed-point exception register

Packed from the most significant bit on: SO, OV, CA, 22 reserved bits, a byte count of 7 bits.
-/

namespace PowerPC

structure Xer where
  so : Bool := false
  ov : Bool := false
  ca : Bool := false
  reserved : BitVec 22 := 0
  byteCount : BitVec 7 := 0
deriving DecidableEq, Repr

namespace Xer

def ofWord (w : Word) : Xer :=
  ⟨w.bit 0, w.bit 1, w.bit 2, w.field 3 22, w.field 25 7⟩

def toWord (x : Xer) : Word :=
  BitVec.ofBool x.so ++ BitVec.ofBool x.ov ++ BitVec.ofBool x.ca ++ x.reserved ++ x.byteCount

theorem getLsbD_toWord (x : Xer) {n : Nat} (h : n < 32) :
    x.toWord.getLsbD n =
      if n < 7 then x.byteCount.getLsbD n
      else if n < 29 then x.reserved.getLsbD (n - 7)
      else if n = 29 then x.ca else if n = 30 then x.ov else x.so := by
  unfold toWord
  change BitVec.getLsbD (w := 1 + 1 + 1 + 22 + 7) _ n = _
  have hreserved : n - 7 < 22 ↔ n < 29 := by omega
  simp only [BitVec.getLsbD_append, hreserved]
  obtain hn | rfl | rfl | rfl : n < 29 ∨ n = 29 ∨ n = 30 ∨ n = 31 := by omega
  · simp [hn]
  · simp
  · simp
  · simp

end Xer

end PowerPC
