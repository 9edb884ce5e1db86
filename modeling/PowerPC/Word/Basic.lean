/-!
# Words

A word has 32 bits, numbered from 0 at its most significant end. `Word.bits` cuts a run of bits
out of a word, `Word.field` gives the same run at its own width.
-/

namespace PowerPC

abbrev Byte := BitVec 8
abbrev Halfword := BitVec 16
abbrev Word := BitVec 32

namespace Word

/-- The bits `first..last` as a number; bit 0 is the most significant. -/
def bits (w : Word) (first last : Nat) : Word :=
  (w >>> (31 - last)) &&& (BitVec.allOnes 32 >>> (31 - (last - first)))

def field (w : Word) (first n : Nat) : BitVec n :=
  (w.bits first (first + n - 1)).setWidth n

/-- Bit `i`, counted from the most significant. -/
def bit (w : Word) (i : Nat) : Bool := w.getMsbD i

def signExtendLow (n : Nat) (w : Word) : Word := (w.setWidth n).signExtend 32

def alignDown (w : Word) : Word := w &&& ~~~3#32

def compareSigned (a b : Word) : Ordering := compare a.toInt b.toInt

def compareLogical (a b : Word) : Ordering := compare a.toNat b.toNat

theorem getLsbD_field (w : Word) {first n i : Nat} (h : first + n ≤ 32) (hi : i < n) :
    (w.field first n).getLsbD i = w.getLsbD (32 - first - n + i) := by
  have hplace : 31 - (first + n - 1) + i = 32 - first - n + i := by omega
  have hmask : 31 - (first + n - 1 - first) + i < 32 := by omega
  simp only [field, bits, BitVec.getLsbD_setWidth, BitVec.getLsbD_and, BitVec.getLsbD_ushiftRight,
    BitVec.getLsbD_allOnes]
  simp [hi, hplace, hmask]

end Word

end PowerPC
