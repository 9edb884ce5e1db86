import Mathlib.Data.List.Basic
import PowerPC.Instruction.Listing
import PowerPC.Proofs.NumeralLaws

/-!
# Listings read back

The text of a listing tells its mnemonic, which ends at the first blank, and the texts of its
operands, which end at commas. An operand's text tells the operand once its kind is known; without
it `1` could be a bit number or an immediate.
-/

namespace PowerPC

-- ---------------------------------------------------------------------------
-- Text cut at a separator
-- ---------------------------------------------------------------------------

namespace Text

variable {c : Char} {xs ys : List (List Char)} {x y s t : List Char}

theorem append_cons_inj (hx : c ∉ x) (hy : c ∉ y) : x ++ c :: s = y ++ c :: t ↔ x = y ∧ s = t := by
  refine ⟨fun h => ?_, by rintro ⟨rfl, rfl⟩; rfl⟩
  have hlength : x.length = y.length := by
    simpa [List.idxOf_append, hx, hy] using congrArg (List.idxOf c) h
  obtain ⟨hxy, hst⟩ := List.append_inj h hlength
  exact ⟨hxy, List.tail_eq_of_cons_eq hst⟩

theorem intercalate_inj (hx : ∀ x ∈ xs, ',' ∉ x) (hy : ∀ y ∈ ys, ',' ∉ y) (hxs : xs ≠ [])
    (hys : ys ≠ []) (h : [',', ' '].intercalate xs = [',', ' '].intercalate ys) : xs = ys := by
  have hjoin (x x' : List Char) (rest : List (List Char)) :
      [',', ' '].intercalate (x :: x' :: rest) =
        x ++ ',' :: ' ' :: [',', ' '].intercalate (x' :: rest) := by
    rw [List.intercalate_cons_cons]
    simp
  induction xs generalizing ys with
  | nil => exact absurd rfl hxs
  | cons x xs ih =>
    obtain ⟨y, ys, rfl⟩ := List.exists_cons_of_ne_nil hys
    have hcx := hx x List.mem_cons_self
    have hcy := hy y List.mem_cons_self
    match xs, ys with
    | [], [] => simpa using h
    | [], y' :: ys =>
      rw [hjoin, List.intercalate_singleton] at h
      exact absurd (h ▸ hcx) (by simp)
    | x' :: xs, [] =>
      rw [hjoin, List.intercalate_singleton] at h
      exact absurd (h ▸ hcy) (by simp)
    | x' :: xs, y' :: ys =>
      rw [hjoin, hjoin, append_cons_inj hcx hcy, List.cons_inj_right] at h
      have hrest := ih (fun z hz => hx z (List.mem_cons_of_mem _ hz))
        (fun z hz => hy z (List.mem_cons_of_mem _ hz)) (List.cons_ne_nil x' xs)
        (List.cons_ne_nil y' ys) h.2
      rw [h.1, hrest]

end Text

-- ---------------------------------------------------------------------------
-- Operands
-- ---------------------------------------------------------------------------

namespace Operand

inductive Kind where
  | gpr | crField | number | signed | hex | mask | displaced | target | distance
deriving DecidableEq, Repr

def kind : Operand → Kind
  | gpr _ => .gpr
  | crField _ => .crField
  | number _ => .number
  | signed _ => .signed
  | hex _ => .hex
  | mask _ => .mask
  | displaced _ _ => .displaced
  | target _ => .target
  | distance _ => .distance

theorem comma_notMem_text (o : Operand) : ',' ∉ o.text.toList := by
  have hdecimal (n : Nat) : ',' ∉ (Numeral.decimal n).toList := Numeral.notMem_decimal (by decide)
  have hsigned (i : Int) : ',' ∉ (Numeral.signed i).toList :=
    Numeral.notMem_signed (by decide) (by decide)
  have hhex (width n : Nat) : ',' ∉ (Numeral.hexPadded width n).toList :=
    Numeral.notMem_hexPadded (by decide) (by decide)
  cases o with
  | gpr r => simp [text, hdecimal]
  | crField f => simp [text, hdecimal]
  | number n => exact hdecimal n
  | signed w => exact hsigned w.toInt
  | hex w => exact hhex 1 w.toNat
  | mask b => exact hhex 2 b.toNat
  | displaced d ra => simp [text, hsigned, hdecimal]
  | target address => exact hhex 8 address.toNat
  | distance offset =>
    have hmagnitude : ',' ∉ (Numeral.hex offset.toInt.natAbs).toList := hhex 1 _
    by_cases hsign : offset.toInt < 0
    · simp [text, hsign, hmagnitude]
    · simp [text, hsign, hmagnitude]

theorem displaced_text_inj {d e : Word} {ra rb : Gpr}
    (h : (displaced d ra).text = (displaced e rb).text) : d = e ∧ ra = rb := by
  have hparen (w : Word) : '(' ∉ (Numeral.signed w.toInt).toList :=
    Numeral.notMem_signed (by decide) (by decide)
  have hshape (w : Word) (r : Gpr) : (displaced w r).text.toList =
      (Numeral.signed w.toInt).toList ++ '(' :: ("r" ++ Numeral.decimal r.val ++ ")").toList := by
    simp [text]
  have hlists := congrArg String.toList h
  rw [hshape, hshape, Text.append_cons_inj (hparen d) (hparen e), String.toList_inj,
    String.toList_inj, String.append_left_inj, String.append_right_inj, Numeral.signed_inj,
    Numeral.decimal_inj, BitVec.toInt_inj, ← Fin.ext_iff] at hlists
  exact hlists

theorem distance_text_inj {v w : Word} (h : (distance v).text = (distance w).text) : v = w := by
  have htext (w : Word) : (distance w).text =
      (if w.toInt < 0 then ".-" else ".+") ++ Numeral.hex w.toInt.natAbs := rfl
  have hmixed (n m : Nat) : ".-" ++ Numeral.hex n ≠ ".+" ++ Numeral.hex m := by
    intro h
    simpa using congrArg String.toList h
  rw [htext, htext] at h
  rw [← BitVec.toInt_inj]
  by_cases hv : v.toInt < 0 <;> by_cases hw : w.toInt < 0
  · rw [if_pos hv, if_pos hw, String.append_right_inj, Numeral.hex_inj] at h
    omega
  · rw [if_pos hv, if_neg hw] at h
    exact absurd h (hmixed _ _)
  · rw [if_neg hv, if_pos hw] at h
    exact absurd h.symm (hmixed _ _)
  · rw [if_neg hv, if_neg hw, String.append_right_inj, Numeral.hex_inj] at h
    omega

theorem text_inj {a b : Operand} (hkind : a.kind = b.kind) : a.text = b.text ↔ a = b := by
  refine ⟨fun h => ?_, congrArg text⟩
  match a, b, hkind with
  | gpr r, gpr s, _ =>
    have hr := Numeral.decimal_inj.mp ((String.append_right_inj _).mp h)
    rw [Fin.ext hr]
  | crField f, crField g, _ =>
    have hf := Numeral.decimal_inj.mp ((String.append_right_inj _).mp h)
    rw [Fin.ext hf]
  | number n, number m, _ => rw [Numeral.decimal_inj.mp h]
  | signed v, signed w, _ => rw [BitVec.toInt_inj.mp (Numeral.signed_inj.mp h)]
  | hex v, hex w, _ => rw [BitVec.toNat_inj.mp (Numeral.hex_inj.mp h)]
  | mask v, mask w, _ => rw [BitVec.toNat_inj.mp (Numeral.hexPadded_inj.mp h)]
  | displaced d ra, displaced e rb, _ =>
    obtain ⟨rfl, rfl⟩ := displaced_text_inj h
    rfl
  | target v, target w, _ => rw [Numeral.address_inj.mp h]
  | distance v, distance w, _ => rw [distance_text_inj h]

end Operand

-- ---------------------------------------------------------------------------
-- Listings
-- ---------------------------------------------------------------------------

namespace Listing

variable {l l' : Listing}

theorem toList_text (h : l.operands ≠ []) :
    l.text.toList = l.mnemonic.toList ++
      ' ' :: [',', ' '].intercalate (l.operands.map fun o => o.text.toList) := by
  simp [text, h, String.toList_intercalate, Function.comp_def]

/-- A text tells the mnemonic, up to the first blank, and the texts of the operands. -/
theorem mnemonic_and_texts_eq (hl : ' ' ∉ l.mnemonic.toList) (hl' : ' ' ∉ l'.mnemonic.toList)
    (h : l.text = l'.text) :
    l.mnemonic = l'.mnemonic ∧ l.operands.map Operand.text = l'.operands.map Operand.text := by
  have hbare {l : Listing} (h : l.operands = []) : l.text = l.mnemonic := if_pos h
  by_cases hops : l.operands = [] <;> by_cases hops' : l'.operands = []
  · rw [hbare hops, hbare hops'] at h
    exact ⟨h, by rw [hops, hops']⟩
  · rw [← hbare hops, h, toList_text hops'] at hl
    exact absurd hl (by simp)
  · rw [← hbare hops', ← h, toList_text hops] at hl'
    exact absurd hl' (by simp)
  · have hlists := congrArg String.toList h
    rw [toList_text hops, toList_text hops', Text.append_cons_inj hl hl', String.toList_inj]
      at hlists
    have hcomma (os : List Operand) : ∀ x ∈ os.map fun o => o.text.toList, ',' ∉ x := by
      intro x hx
      obtain ⟨o, -, rfl⟩ := List.mem_map.mp hx
      exact o.comma_notMem_text
    have hitems := Text.intercalate_inj (hcomma _) (hcomma _) (by simpa using hops)
      (by simpa using hops') hlists.2
    have htexts := congrArg (List.map String.ofList) hitems
    simp only [List.map_map, Function.comp_def, String.ofList_toList] at htexts
    exact ⟨hlists.1, htexts⟩

theorem operands_eq_of_texts_eq {os os' : List Operand}
    (hkinds : os.map Operand.kind = os'.map Operand.kind)
    (htexts : os.map Operand.text = os'.map Operand.text) : os = os' := by
  induction os generalizing os' with
  | nil => exact (List.map_eq_nil_iff.mp htexts.symm).symm
  | cons o os ih =>
    obtain ⟨o', os', rfl⟩ := List.exists_cons_of_ne_nil (l := os') (by rintro rfl; simp at htexts)
    simp only [List.map_cons, List.cons.injEq] at hkinds htexts
    rw [(Operand.text_inj hkinds.1).mp htexts.1, ih hkinds.2 htexts.2]

end Listing

end PowerPC
