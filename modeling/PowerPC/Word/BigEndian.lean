import PowerPC.Word.Basic

/-!
# Bytes of a number, most significant first
-/

namespace PowerPC.BigEndian

def encode : Nat → Nat → List Byte
  | 0, _ => []
  | n + 1, value => BitVec.ofNat 8 (value >>> (8 * n)) :: encode n value

def decode (bytes : List Byte) : Nat :=
  bytes.foldl (fun value byte => value * 256 + byte.toNat) 0

theorem length_encode (n value : Nat) : (encode n value).length = n := by
  induction n with
  | zero => rfl
  | succ n ih => simp [encode, ih]

end PowerPC.BigEndian
