/-!
# Numerals

Decimal and lowercase hexadecimal text of numbers, with zeros in front up to a least width, and
the values of single digits.
-/

namespace PowerPC.Numeral

def padded (base width n : Nat) : String :=
  let digits := Nat.toDigits base n
  String.ofList (List.replicate (width - digits.length) '0' ++ digits)

def decimal (n : Nat) : String := padded 10 1 n

def signed (i : Int) : String :=
  if i < 0 then "-" ++ decimal i.natAbs else decimal i.natAbs

def hex (n : Nat) : String := "0x" ++ padded 16 1 n

def hexPadded (width n : Nat) : String := "0x" ++ padded 16 width n

def address (w : BitVec 32) : String := hexPadded 8 w.toNat

/-- The value of a digit in a base up to 16; letters may be of either case. -/
def digit? (base : Nat) (c : Char) : Option Nat :=
  let value? :=
    if c.isDigit then some (c.toNat - '0'.toNat)
    else if 'a' ≤ c ∧ c ≤ 'f' then some (c.toNat - 'a'.toNat + 10)
    else if 'A' ≤ c ∧ c ≤ 'F' then some (c.toNat - 'A'.toNat + 10)
    else none
  value?.filter (· < base)

def binaryPadded (width n : Nat) : String := "0b" ++ padded 2 width n

end PowerPC.Numeral
