import Mathlib.Algebra.Group.Nat.Defs
import PowerPC.Instruction.Form

/-!
# Fields of a word

A field is a run of bits with the value it is to have. Words are compared and put together field
by field: a word holds a field if its bits there are the value's, two words that hold the same
fields agree on the bits that these cover, and fields that do not overlap are all held by the word
that is assembled from them.
-/

namespace PowerPC

/-- The `width` bits from `first` on, bit 0 being the most significant. -/
structure Span where
  first : Nat
  width : Nat
deriving DecidableEq, Repr

structure BitField extends Span where
  value : BitVec width

variable {w v : Word} {b : Nat}

namespace Span

variable {s t : Span}

def Fits (s : Span) : Prop := s.first + s.width ≤ 32

def Covers (s : Span) (b : Nat) : Prop := s.first ≤ b ∧ b < s.first + s.width

def Apart (s t : Span) : Prop := s.first + s.width ≤ t.first ∨ t.first + t.width ≤ s.first

instance : Decidable s.Fits := inferInstanceAs (Decidable (_ ≤ _))

instance : Decidable (s.Covers b) := inferInstanceAs (Decidable (_ ∧ _))

instance : Decidable (s.Apart t) := inferInstanceAs (Decidable (_ ∨ _))

theorem Apart.not_covers (h : s.Apart t) (hb : s.Covers b) : ¬ t.Covers b := by
  intro hb'
  have h₁ := hb.1
  have h₂ := hb.2
  have h₃ := hb'.1
  have h₄ := hb'.2
  rcases h with h | h <;> omega

end Span

theorem Word.getMsbD_field {first n j : Nat} (h : first + n ≤ 32) (hj : j < n) :
    (w.field first n).getMsbD j = w.bit (first + j) := by
  have hlsb : 32 - first - n + (n - 1 - j) = 32 - 1 - (first + j) := by omega
  have hlt : n - 1 - j < n := by omega
  simp only [Word.bit, BitVec.getMsbD, Word.getLsbD_field w h hlt, hlsb]
  simp only [hj, decide_true, Bool.true_and, show first + j < 32 by omega]

theorem Word.toNat_field (w : Word) {first n : Nat} (h : first + n ≤ 32) :
    (w.field first n).toNat = w.toNat / 2 ^ (32 - first - n) % 2 ^ n := by
  refine Nat.eq_of_testBit_eq fun i => ?_
  rw [Nat.testBit_mod_two_pow, Nat.testBit_div_two_pow, BitVec.testBit_toNat, BitVec.testBit_toNat]
  by_cases hi : i < n
  · rw [getLsbD_field w h hi, Nat.add_comm]
    simp [hi]
  · rw [BitVec.getLsbD_of_ge _ _ (Nat.le_of_not_lt hi)]
    simp [hi]

namespace BitField

def bit (f : BitField) (b : Nat) : Bool := f.value.getMsbD (b - f.first)

def HeldBy (f : BitField) (w : Word) : Prop := w.field f.first f.width = f.value

variable {f : BitField} {fs : List BitField}

theorem heldBy_iff_bit (h : f.Fits) : f.HeldBy w ↔ ∀ b, f.Covers b → w.bit b = f.bit b := by
  constructor
  · intro hheld b hb
    have hj : b - f.first < f.width := by
      have h₁ := hb.1
      have h₂ := hb.2
      omega
    have hbit := Word.getMsbD_field (w := w) h hj
    rw [show f.first + (b - f.first) = b by have h₁ := hb.1; omega] at hbit
    rw [← hbit, bit, show w.field f.first f.width = f.value from hheld]
  · intro hbits
    refine BitVec.eq_of_getMsbD_eq fun j hj => ?_
    have hbit := hbits (f.first + j) ⟨by omega, by omega⟩
    rw [Word.getMsbD_field h hj, hbit, bit, Nat.add_sub_cancel_left]

theorem heldBy_congr (hfit : ∀ f ∈ fs, f.Fits) (hw : ∀ f ∈ fs, f.HeldBy w) :
    (∀ f ∈ fs, f.HeldBy v) ↔ ∀ b, (∃ f ∈ fs, f.Covers b) → w.bit b = v.bit b := by
  constructor
  · rintro hv b ⟨f, hf, hb⟩
    have hwb := (heldBy_iff_bit (hfit f hf)).mp (hw f hf) b hb
    have hvb := (heldBy_iff_bit (hfit f hf)).mp (hv f hf) b hb
    rw [hwb, hvb]
  · intro hagree f hf
    rw [heldBy_iff_bit (hfit f hf)]
    intro b hb
    rw [← hagree b ⟨f, hf, hb⟩]
    exact (heldBy_iff_bit (hfit f hf)).mp (hw f hf) b hb

-- ---------------------------------------------------------------------------
-- Assembling a word
-- ---------------------------------------------------------------------------

def toWord (f : BitField) : Word := f.value.setWidth 32 <<< (32 - f.first - f.width)

def assemble : List BitField → Word
  | [] => 0
  | f :: fs => f.toWord ||| assemble fs

theorem bit_toWord_of_covers (h : f.Fits) (hb : f.Covers b) : f.toWord.bit b = f.bit b := by
  obtain ⟨hlow, hhigh⟩ := hb
  have h : f.first + f.width ≤ 32 := h
  have hplace : 32 - 1 - b - (32 - f.first - f.width) = f.width - 1 - (b - f.first) := by omega
  have hin : ¬ 32 - 1 - b < 32 - f.first - f.width := by omega
  simp only [toWord, bit, Word.bit, BitVec.getMsbD, BitVec.getLsbD_shiftLeft,
    BitVec.getLsbD_setWidth, hplace]
  simp [hin, show b < 32 by omega, show b - f.first < f.width by omega,
    show f.width - 1 - (b - f.first) < 32 by omega, show 31 - b < 32 by omega]

theorem bit_toWord_of_not_covers (h : f.Fits) (hb : ¬ f.Covers b) : f.toWord.bit b = false := by
  have h : f.first + f.width ≤ 32 := h
  have hout : b < f.first ∨ f.first + f.width ≤ b := by
    rcases Nat.lt_or_ge b f.first with hlow | hlow
    · exact .inl hlow
    · exact .inr (Nat.le_of_not_lt fun hhigh => hb ⟨hlow, hhigh⟩)
  simp only [toWord, Word.bit, BitVec.getMsbD, BitVec.getLsbD_shiftLeft, BitVec.getLsbD_setWidth]
  rcases hout with hlow | hhigh
  · have hbeyond : f.width ≤ 32 - 1 - b - (32 - f.first - f.width) := by omega
    rw [BitVec.getLsbD_of_ge _ _ hbeyond]
    simp
  · by_cases hlt : b < 32
    · simp [show 32 - 1 - b < 32 - f.first - f.width by omega]
    · simp [hlt]

theorem bit_assemble_of_not_covers (hfit : ∀ f ∈ fs, f.Fits) (hb : ∀ f ∈ fs, ¬ f.Covers b) :
    (assemble fs).bit b = false := by
  induction fs with
  | nil => simp [assemble, Word.bit]
  | cons f fs ih =>
    have hhead := bit_toWord_of_not_covers (hfit f (by simp)) (hb f (by simp))
    have htail := ih (fun g hg => hfit g (List.mem_cons_of_mem _ hg))
      fun g hg => hb g (List.mem_cons_of_mem _ hg)
    simp only [Word.bit] at hhead htail
    simp [assemble, Word.bit, hhead, htail]

theorem heldBy_assemble (hfit : ∀ f ∈ fs, f.Fits)
    (hapart : fs.Pairwise fun f g => f.Apart g.toSpan) :
    ∀ f ∈ fs, f.HeldBy (assemble fs) := by
  induction fs with
  | nil => simp
  | cons g fs ih =>
    obtain ⟨hg, hapart⟩ := List.pairwise_cons.mp hapart
    have htail : ∀ f ∈ fs, f.Fits := fun f hf => hfit f (List.mem_cons_of_mem _ hf)
    have hhead : g.Fits := hfit g (by simp)
    intro f hf
    rw [heldBy_iff_bit (hfit f hf)]
    intro b hb
    have hor : (assemble (g :: fs)).bit b = (g.toWord.bit b || (assemble fs).bit b) := by
      simp [assemble, Word.bit]
    rcases List.mem_cons.mp hf with rfl | hf
    · have hrest : (assemble fs).bit b = false :=
        bit_assemble_of_not_covers htail fun k hk => (hg k hk).not_covers hb
      rw [hor, hrest, bit_toWord_of_covers hhead hb, Bool.or_false]
    · have hzero : g.toWord.bit b = false := by
        refine bit_toWord_of_not_covers hhead fun hgb => ?_
        exact (hg f hf).not_covers hgb hb
      have hrest := (heldBy_iff_bit (htail f hf)).mp (ih htail hapart f hf) b hb
      rw [hor, hzero, hrest, Bool.false_or]

end BitField

end PowerPC
