import Mathlib.Algebra.Group.Int.Defs
import Mathlib.Algebra.Group.Nat.Defs
import PowerPC.Word.BigEndian

/-!
# Numbers in bytes and in words

What is left of a number that is cut into bytes, and which words a narrower number is extended to:
those within its bounds, and each from one number alone.
-/

namespace PowerPC

namespace BigEndian

theorem foldl_encode (n value start : Nat) :
    (encode n value).foldl (fun value byte => value * 256 + byte.toNat) start =
      start * 2 ^ (8 * n) + value % 2 ^ (8 * n) := by
  induction n generalizing start with
  | zero => simp [encode, Nat.mod_one]
  | succ n ih =>
    have hpow : 2 ^ (8 * (n + 1)) = 2 ^ (8 * n) * 256 := by
      rw [show 8 * (n + 1) = 8 * n + 8 by omega, Nat.pow_add]
    simp only [encode, List.foldl_cons, ih, BitVec.toNat_ofNat, hpow, Nat.mod_mul,
      Nat.shiftRight_eq_div_pow]
    grind

theorem decode_encode (n value : Nat) : decode (encode n value) = value % 2 ^ (8 * n) := by
  simpa [decode] using foldl_encode n value 0

theorem foldl_eq (bytes : List Byte) (start : Nat) :
    bytes.foldl (fun value byte => value * 256 + byte.toNat) start =
      start * 2 ^ (8 * bytes.length) + decode bytes := by
  induction bytes generalizing start with
  | nil => simp [decode]
  | cons b bs ih =>
    have hpow : 2 ^ (8 * (bs.length + 1)) = 2 ^ (8 * bs.length) * 256 := by
      rw [Nat.mul_succ, Nat.pow_add]
    rw [decode, List.foldl_cons, List.foldl_cons, ih, ih, List.length_cons, hpow]
    grind

theorem decode_cons (b : Byte) (bs : List Byte) :
    decode (b :: bs) = b.toNat * 2 ^ (8 * bs.length) + decode bs := by
  rw [decode, List.foldl_cons, foldl_eq, Nat.zero_mul, Nat.zero_add]

theorem decode_lt (bytes : List Byte) : decode bytes < 2 ^ (8 * bytes.length) := by
  induction bytes with
  | nil => decide
  | cons b bs ih =>
    have hb : b.toNat * 2 ^ (8 * bs.length) ≤ 255 * 2 ^ (8 * bs.length) :=
      Nat.mul_le_mul_right _ (Nat.le_of_lt_succ b.isLt)
    rw [decode_cons, List.length_cons, Nat.mul_succ, Nat.pow_add]
    omega

theorem encode_foldl (bytes : List Byte) (start : Nat) :
    encode bytes.length (bytes.foldl (fun value byte => value * 256 + byte.toNat) start) =
      bytes := by
  induction bytes generalizing start with
  | nil => rfl
  | cons b bs ih =>
    have hpos : 0 < 2 ^ (8 * bs.length) := Nat.two_pow_pos _
    have hhead : BitVec.ofNat 8 (start * 256 + b.toNat) = b := by bv_omega
    rw [List.length_cons, List.foldl_cons, encode, ih, foldl_eq, Nat.shiftRight_eq_div_pow,
      Nat.add_comm, Nat.add_mul_div_right _ _ hpos, Nat.div_eq_of_lt (decode_lt bs), Nat.zero_add,
      hhead]

theorem encode_decode (bytes : List Byte) : encode bytes.length (decode bytes) = bytes :=
  encode_foldl bytes 0

theorem encode_mod (n value : Nat) : encode n (value % 2 ^ (8 * n)) = encode n value := by
  have hbytes := encode_decode (encode n value)
  rwa [length_encode, decode_encode] at hbytes

theorem encode_setWidth (n : Nat) {m : Nat} (v : BitVec m) :
    encode n (v.setWidth (8 * n)).toNat = encode n v.toNat := by
  rw [BitVec.toNat_setWidth, encode_mod]

theorem ofNat_decode_encode {n : Nat} (v : BitVec (8 * n)) :
    BitVec.ofNat (8 * n) (decode (encode n v.toNat)) = v := by
  rw [decode_encode, Nat.mod_eq_of_lt v.isLt, BitVec.ofNat_toNat, BitVec.setWidth_eq]

theorem encode_ofNat_decode {n : Nat} {bytes : List Byte} (h : bytes.length = n) :
    encode n (BitVec.ofNat (8 * n) (decode bytes)).toNat = bytes := by
  subst h
  rw [BitVec.toNat_ofNat, encode_mod, encode_decode]

theorem getElem?_encode {m n k : Nat} (v : BitVec m) (hk : k < n) :
    (encode n v.toNat)[k]? = some (v.extractLsb' (8 * (n - 1 - k)) 8) := by
  induction n generalizing k with
  | zero => omega
  | succ n ih =>
    cases k with
    | zero => rfl
    | succ k =>
      have hplace : n + 1 - 1 - (k + 1) = n - 1 - k := by omega
      rw [encode, List.getElem?_cons_succ, ih (by omega), hplace]

end BigEndian

variable {w : Word} {n m : Nat}

-- ---------------------------------------------------------------------------
-- Extended numbers
-- ---------------------------------------------------------------------------

theorem setWidth_eq_iff {x : BitVec n} {y : BitVec m} (h : n ≤ m) :
    x.setWidth m = y ↔ y.toNat < 2 ^ n ∧ x = y.setWidth n := by
  have hlt := x.isLt
  have hpow : 2 ^ n ≤ 2 ^ m := Nat.pow_le_pow_right (by decide) h
  constructor
  · rintro rfl
    refine ⟨?_, ?_⟩
    · rw [BitVec.toNat_setWidth, Nat.mod_eq_of_lt (by omega)]
      exact hlt
    · rw [BitVec.setWidth_setWidth_of_le _ h, BitVec.setWidth_eq]
  · rintro ⟨hy, rfl⟩
    apply BitVec.eq_of_toNat_eq
    rw [BitVec.toNat_setWidth, BitVec.toNat_setWidth, Nat.mod_eq_of_lt hy,
      Nat.mod_eq_of_lt y.isLt]

namespace Word

def IsSigned (n : Nat) (w : Word) : Prop := -2 ^ (n - 1) ≤ w.toInt ∧ w.toInt < 2 ^ (n - 1)

/-- The word is the distance of a branch, counted in bytes: four times a number. -/
def IsOffset (n : Nat) (w : Word) : Prop := w.IsSigned n ∧ 4 ∣ w.toInt

instance : Decidable (w.IsSigned n) := inferInstanceAs (Decidable (_ ∧ _))

instance : Decidable (w.IsOffset n) := inferInstanceAs (Decidable (_ ∧ _))

theorem setWidth_signExtend (x : BitVec n) (hn : n ≤ m) : (x.signExtend m).setWidth n = x := by
  refine BitVec.eq_of_getLsbD_eq fun i hi => ?_
  simp [BitVec.getElem_signExtend, hi, show i < m by omega]

theorem signExtend_eq_iff {x : BitVec n} (hpos : 0 < n) (hn : n ≤ 32) :
    x.signExtend 32 = w ↔ w.IsSigned n ∧ x = w.setWidth n := by
  constructor
  · rintro rfl
    refine ⟨?_, (setWidth_signExtend x hn).symm⟩
    rw [IsSigned, BitVec.toInt_signExtend_of_le hn]
    exact ⟨x.le_toInt, x.toInt_lt⟩
  · rintro ⟨⟨hlow, hhigh⟩, rfl⟩
    have hint : (BitVec.ofInt n w.toInt).toInt = w.toInt :=
      BitVec.toInt_ofInt_eq_self hpos hlow hhigh
    have hext : (BitVec.ofInt n w.toInt).signExtend 32 = w :=
      BitVec.eq_of_toInt_eq (by rw [BitVec.toInt_signExtend_of_le hn, hint])
    conv => lhs; rw [← hext, setWidth_signExtend _ hn]
    exact hext

theorem extractLsb'_signExtend_shiftLeft (x : BitVec n) (hn : n + 2 ≤ 32) :
    (x.signExtend 32 <<< 2).extractLsb' 2 n = x := by
  refine BitVec.eq_of_getLsbD_eq fun i hi => ?_
  rw [BitVec.getLsbD_extractLsb', BitVec.getLsbD_shiftLeft]
  have hlow : ¬ 2 + i < 2 := by omega
  have hplace : 2 + i - 2 = i := by omega
  simp only [hlow, hplace, decide_false, Bool.not_false]
  simp [BitVec.getElem_signExtend, hi, show i < 32 by omega, show 2 + i < 32 by omega]

theorem toInt_signExtend_shiftLeft (x : BitVec n) (hn : n + 2 ≤ 32) :
    (x.signExtend 32 <<< 2).toInt = x.toInt * 4 := by
  have hfour : (BitVec.twoPow 32 2).toInt = 4 := by decide
  have hpow : (2 : Int) ^ (n - 1) ≤ 2 ^ 29 := by
    exact_mod_cast Nat.pow_le_pow_right (by decide : 0 < 2) (show n - 1 ≤ 29 by omega)
  have hlow := x.le_toInt
  have hhigh := x.toInt_lt
  rw [BitVec.shiftLeft_eq_mul_twoPow, BitVec.toInt_mul, hfour,
    BitVec.toInt_signExtend_of_le (by omega)]
  exact Int.bmod_eq_of_le (by omega) (by omega)

theorem signExtend_shiftLeft_eq_iff {x : BitVec n} (hpos : 0 < n) (hn : n + 2 ≤ 32) :
    x.signExtend 32 <<< 2 = w ↔ w.IsOffset (n + 2) ∧ x = w.extractLsb' 2 n := by
  have hpow : (2 : Int) ^ (n + 2 - 1) = 2 ^ (n - 1) * 4 := by
    rw [show n + 2 - 1 = n - 1 + 2 by omega, Int.pow_add]
    rfl
  constructor
  · rintro rfl
    have hint := toInt_signExtend_shiftLeft x hn
    have hlow := x.le_toInt
    have hhigh := x.toInt_lt
    refine ⟨⟨⟨?_, ?_⟩, ?_⟩, (extractLsb'_signExtend_shiftLeft x hn).symm⟩
    · rw [hint, hpow]
      omega
    · rw [hint, hpow]
      omega
    · rw [hint]
      exact Int.dvd_mul_left _ _
  · rintro ⟨⟨⟨hlow, hhigh⟩, hdvd⟩, rfl⟩
    rw [hpow] at hlow hhigh
    have hint : (BitVec.ofInt n (w.toInt / 4)).toInt = w.toInt / 4 :=
      BitVec.toInt_ofInt_eq_self hpos (by omega) (by omega)
    have hext : (BitVec.ofInt n (w.toInt / 4)).signExtend 32 <<< 2 = w :=
      BitVec.eq_of_toInt_eq (by rw [toInt_signExtend_shiftLeft _ hn, hint]; omega)
    conv => lhs; rw [← hext, extractLsb'_signExtend_shiftLeft _ hn]
    exact hext

end Word

end PowerPC
