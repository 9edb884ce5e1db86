import PowerPC.Word.Basic

/-!
# Carries, products and quotients of words

Sums come with the carry out of the top bit. Division is total: where the quotient has no value
in 32 bits the result is zero.
-/

namespace PowerPC.Word

def addOverflow (a b : Word) : Word × Bool :=
  (a + b, decide (a + b < a))

/-- Sum with a carry in, and carry out. At most one of the two additions wraps. -/
def addCarry (a b : Word) (carry : Bool) : Word × Bool :=
  let (partialSum, first) := addOverflow a b
  let (sum, second) := addOverflow partialSum ((BitVec.ofBool carry).setWidth 32)
  (sum, first || second)

def mulHighSigned (a b : Word) : Word :=
  (a.signExtend 64 * b.signExtend 64).extractLsb' 32 32

def mulHighUnsigned (a b : Word) : Word :=
  (a.setWidth 64 * b.setWidth 64).extractLsb' 32 32

/-- Signed quotient truncated toward zero; zero for a zero divisor and for the one quotient,
`-2^31 / -1`, that does not fit. -/
def divSigned (a b : Word) : Word :=
  if b = 0 ∨ (a = BitVec.intMin 32 ∧ b = -1) then 0 else a.sdiv b

def divUnsigned (a b : Word) : Word :=
  if b = 0 then 0 else a / b

end PowerPC.Word
