import PowerPC.Word.Basic

/-!
# Shifts, rotate masks and counts

Shift amounts are unbounded: from 32 on a logical shift gives zero and an algebraic one the sign.
-/

namespace PowerPC.Word

/-- Algebraic right shift, with whether a negative value lost a one bit. -/
def shiftRightAlgebraic (w : Word) (amount : Nat) : Word × Bool :=
  let lost := w &&& ((1#32 <<< amount) - 1)
  (w.sshiftRight amount, w.msb && lost != 0)

/-- Ones on the bits from `first` to `last`, going round from bit 31 to bit 0 when `first` is the
larger. Only the low five bits of each end count. -/
def mask (first last : Byte) : Word :=
  let first := first.toNat % 32
  let last := last.toNat % 32
  let fromFirst := BitVec.allOnes 32 >>> first
  let toLast := BitVec.allOnes 32 <<< (31 - last)
  if first ≤ last then fromFirst &&& toLast else fromFirst ||| toLast

def leadingZeros (w : Word) : Word := w.clz

end PowerPC.Word
