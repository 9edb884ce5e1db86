import Mathlib.Data.Nat.Notation
import PowerPC.Text.Numeral

/-!
# Numerals read back

The digits of a numeral tell its number, so two numbers of one text are equal, and a character
that is no digit does not stand among the digits.
-/

namespace PowerPC.Numeral

variable {base width n m : Nat} {c : Char}

def value (base : Nat) (digits : List Char) : Nat :=
  digits.foldl (fun n c => n * base + (digit? base c).getD 0) 0

-- ---------------------------------------------------------------------------
-- Digits
-- ---------------------------------------------------------------------------

theorem digit?_digitChar (hbase : base ≤ 16) (h : n < base) :
    digit? base n.digitChar = some n := by
  have hvalue : ∀ d < 16, digit? 16 (Nat.digitChar d) = some d := by decide
  have hdigit := hvalue n (by omega)
  simp only [digit?, Option.filter_eq_some_iff, decide_eq_true_eq] at hdigit ⊢
  exact ⟨hdigit.1, h⟩

theorem digit?_zero (hpos : 0 < base) : digit? base '0' = some 0 := by
  rw [digit?, Option.filter_eq_some_iff]
  exact ⟨rfl, decide_eq_true hpos⟩

theorem value_concat (digits : List Char) :
    value base (digits ++ [c]) = value base digits * base + (digit? base c).getD 0 := by
  rw [value, List.foldl_append]
  rfl

/-- The digits of a number are those of its quotient by the base and then the remainder. -/
theorem toDigits_induction {P : Nat → List Char → Prop} (hpos : 1 < base)
    (single : ∀ n < base, P n [n.digitChar])
    (snoc : ∀ n digits, base ≤ n → P (n / base) digits →
      P n (digits ++ [(n % base).digitChar])) :
    P n (Nat.toDigits base n) := by
  induction n using Nat.strongRecOn with
  | ind n ih =>
    rcases Nat.lt_or_ge n base with h | h
    · rw [Nat.toDigits_of_lt_base h]
      exact single n h
    · rw [Nat.toDigits_of_base_le hpos h]
      exact snoc n _ h (ih _ (Nat.div_lt_self (by omega) hpos))

theorem value_toDigits (hpos : 1 < base) (hbase : base ≤ 16) :
    value base (Nat.toDigits base n) = n := by
  refine toDigits_induction (P := fun n digits => value base digits = n) hpos ?_ ?_
  · intro n h
    rw [← List.nil_append [n.digitChar], value_concat, digit?_digitChar hbase h]
    simp [value]
  · intro n digits _ ih
    have hlast : n % base < base := Nat.mod_lt _ (by omega)
    rw [value_concat, ih, digit?_digitChar hbase hlast, Option.getD_some, Nat.div_add_mod']

theorem isSome_digit?_of_mem_toDigits (hpos : 1 < base) (hbase : base ≤ 16)
    (h : c ∈ Nat.toDigits base n) : (digit? base c).isSome := by
  have hdigits : ∀ c ∈ Nat.toDigits base n, (digit? base c).isSome := by
    refine toDigits_induction (P := fun _ digits => ∀ c ∈ digits, (digit? base c).isSome) hpos
      ?_ ?_
    · intro n h
      simp [digit?_digitChar hbase h]
    · intro n digits _ ih c hc
      have hlast : n % base < base := Nat.mod_lt _ (by omega)
      rcases List.mem_append.mp hc with hc | hc
      · exact ih c hc
      · simp [List.mem_singleton.mp hc, digit?_digitChar hbase hlast]
  exact hdigits c h

-- ---------------------------------------------------------------------------
-- Padded digits
-- ---------------------------------------------------------------------------

theorem toList_padded :
    (padded base width n).toList =
      List.replicate (width - (Nat.toDigits base n).length) '0' ++ Nat.toDigits base n :=
  String.toList_ofList

theorem value_zeros_append (k : Nat) (digits : List Char) (hpos : 0 < base) :
    value base (List.replicate k '0' ++ digits) = value base digits := by
  have hzeros : value base (List.replicate k '0') = 0 := by
    induction k with
    | zero => rfl
    | succ k ih => rw [List.replicate_succ', value_concat, ih, digit?_zero hpos]; simp
  rw [value, List.foldl_append]
  exact congrArg (List.foldl _ · digits) hzeros

theorem value_padded (hpos : 1 < base) (hbase : base ≤ 16) :
    value base (padded base width n).toList = n := by
  rw [toList_padded, value_zeros_append _ _ (by omega), value_toDigits hpos hbase]

theorem padded_inj (hpos : 1 < base) (hbase : base ≤ 16) :
    padded base width n = padded base width m ↔ n = m := by
  refine ⟨fun h => ?_, congrArg _⟩
  calc n = value base (padded base width n).toList := (value_padded hpos hbase).symm
    _ = value base (padded base width m).toList := by rw [h]
    _ = m := value_padded hpos hbase

theorem notMem_padded (hpos : 1 < base) (hbase : base ≤ 16) (hc : digit? base c = none) :
    c ∉ (padded base width n).toList := by
  have hzero : digit? base '0' = some 0 := digit?_zero (by omega)
  rw [toList_padded, List.mem_append, List.mem_replicate]
  rintro (⟨-, rfl⟩ | h)
  · simp [hzero] at hc
  · simpa [hc] using isSome_digit?_of_mem_toDigits hpos hbase h

-- ---------------------------------------------------------------------------
-- Texts of numbers
-- ---------------------------------------------------------------------------

theorem decimal_inj : decimal n = decimal m ↔ n = m := padded_inj (by decide) (by decide)

theorem hexPadded_inj : hexPadded width n = hexPadded width m ↔ n = m := by
  rw [hexPadded, hexPadded, String.append_right_inj, padded_inj (by decide) (by decide)]

theorem hex_inj : hex n = hex m ↔ n = m := hexPadded_inj

theorem address_inj {v w : BitVec 32} : address v = address w ↔ v = w := by
  rw [address, address, hexPadded_inj, BitVec.toNat_inj]

theorem notMem_decimal (hc : digit? 10 c = none) : c ∉ (decimal n).toList :=
  notMem_padded (by decide) (by decide) hc

theorem notMem_hexPadded (hc : digit? 16 c = none) (hx : c ≠ 'x') :
    c ∉ (hexPadded width n).toList := by
  have hzero : c ≠ '0' := by
    rintro rfl
    exact absurd hc (by decide)
  rw [hexPadded, String.toList_append, List.mem_append]
  rintro (h | h)
  · simp [hx, hzero] at h
  · exact notMem_padded (by decide) (by decide) hc h

theorem notMem_signed {i : Int} (hc : digit? 10 c = none) (hminus : c ≠ '-') :
    c ∉ (signed i).toList := by
  rw [signed]
  split
  · simp [String.toList_append, hminus, notMem_decimal hc]
  · exact notMem_decimal hc

theorem signed_inj {i j : Int} : signed i = signed j ↔ i = j := by
  refine ⟨fun h => ?_, congrArg _⟩
  have hminus (n : Nat) : '-' ∉ (decimal n).toList := notMem_decimal (by decide)
  have hmixed (n m : Nat) : "-" ++ decimal n ≠ decimal m := by
    intro h
    apply hminus m
    simp [← h]
  unfold signed at h
  split at h <;> split at h
  · have habs := decimal_inj.mp ((String.append_right_inj _).mp h)
    omega
  · exact absurd h (hmixed _ _)
  · exact absurd h.symm (hmixed _ _)
  · have habs := decimal_inj.mp h
    omega

end PowerPC.Numeral
