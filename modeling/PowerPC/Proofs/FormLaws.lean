import Mathlib.Data.List.Forall2
import PowerPC.Proofs.CheckedDecodeLaws
import PowerPC.Proofs.OperandLaws

/-!
# Forms divide a word

A run of bits is a quotient and a remainder of the word, and two runs that touch are one longer run.
Each form takes a word apart into runs that do not overlap, and what is put back together from them
is the word, but for the bits that the form has no field for.
-/

namespace PowerPC

variable {w : Word} {first last n : Nat}

-- ---------------------------------------------------------------------------
-- Runs of bits
-- ---------------------------------------------------------------------------

namespace Word

theorem toNat_bits (w : Word) (h : first ≤ last) (hlast : last < 32) :
    (w.bits first last).toNat = w.toNat / 2 ^ (31 - last) % 2 ^ (last - first + 1) := by
  have hones : ∀ n : Fin 32,
      (BitVec.allOnes 32 >>> (31 - n.val)).toNat = 2 ^ (n.val + 1) - 1 := by
    decide
  rw [bits, BitVec.toNat_and, hones ⟨last - first, by omega⟩, Nat.and_two_pow_sub_one_eq_mod,
    BitVec.toNat_ushiftRight, Nat.shiftRight_eq_div_pow]

theorem toNat_bits_append (w : Word) {k : Nat} (hk : first ≤ k) (h : k < last)
    (hlast : last < 32) :
    (w.bits first last).toNat =
      (w.bits first k).toNat * 2 ^ (last - k) + (w.bits (k + 1) last).toNat := by
  have hlow : last - (k + 1) + 1 = last - k := by omega
  have hwidth : 2 ^ (last - first + 1) = 2 ^ (last - k) * 2 ^ (k - first + 1) := by
    rw [← Nat.pow_add]
    congr 1
    omega
  have hplace : 2 ^ (31 - k) = 2 ^ (31 - last) * 2 ^ (last - k) := by
    rw [← Nat.pow_add]
    congr 1
    omega
  rw [toNat_bits w (by omega) hlast, toNat_bits w hk (by omega), toNat_bits w h hlast, hlow,
    hwidth, hplace, Nat.mod_mul, ← Nat.div_div_eq_div_mul, Nat.mul_comm, Nat.add_comm]

theorem toNat_setWidth_bits (w : Word) (h : first ≤ last) (hlast : last < 32)
    (hn : last - first < n) :
    ((w.bits first last).setWidth n).toNat = (w.bits first last).toNat := by
  have hlt : w.toNat / 2 ^ (31 - last) % 2 ^ (last - first + 1) < 2 ^ n :=
    Nat.lt_of_lt_of_le (Nat.mod_lt _ (Nat.two_pow_pos _)) (Nat.pow_le_pow_right (by decide) hn)
  rw [BitVec.toNat_setWidth, toNat_bits w h hlast, Nat.mod_eq_of_lt hlt]

end Word

-- ---------------------------------------------------------------------------
-- Fields put together
-- ---------------------------------------------------------------------------

namespace BitField

variable {fs : List BitField}

theorem bit_assemble_of_heldBy (hfit : ∀ f ∈ fs, f.Fits)
    (hapart : fs.Pairwise fun f g => f.Apart g.toSpan) (hheld : ∀ f ∈ fs, f.HeldBy w) (b : Nat) :
    (assemble fs).bit b = (w.bit b && decide (∃ f ∈ fs, f.Covers b)) := by
  by_cases hcovers : ∃ f ∈ fs, f.Covers b
  · obtain ⟨f, hf, hb⟩ := hcovers
    have hleft := (heldBy_iff_bit (hfit f hf)).mp (heldBy_assemble hfit hapart f hf) b hb
    have hright := (heldBy_iff_bit (hfit f hf)).mp (hheld f hf) b hb
    rw [hleft, hright, decide_eq_true ⟨f, hf, hb⟩, Bool.and_true]
  · have hnone : ∀ f ∈ fs, ¬ f.Covers b := fun f hf hb => hcovers ⟨f, hf, hb⟩
    rw [bit_assemble_of_not_covers hfit hnone, decide_eq_false hcovers, Bool.and_false]

/-- The field is what the word has in its place, and a number of `n` bits can hold it. -/
def KeptIn (w : Word) (f : BitField) (n : Nat) : Prop :=
  f.value.toNat = (w.bits f.first (f.first + f.width - 1)).toNat ∧
    ((w.bits f.first (f.first + f.width - 1)).setWidth n).toNat = f.value.toNat

theorem HeldBy.keptIn {f : BitField} (h : f.HeldBy w) (hfit : f.Fits) (hpos : 0 < f.width)
    (hn : f.width ≤ n) : f.KeptIn w n := by
  have hend : f.first + f.width ≤ 32 := hfit
  have hvalue : f.value.toNat = (w.bits f.first (f.first + f.width - 1)).toNat := by
    rw [← show w.field f.first f.width = f.value from h, Word.field,
      Word.toNat_setWidth_bits w (by omega) (by omega) (by omega)]
  refine ⟨hvalue, ?_⟩
  rw [hvalue, Word.toNat_setWidth_bits w (by omega) (by omega) (by omega)]

end BitField

-- ---------------------------------------------------------------------------
-- Forms
-- ---------------------------------------------------------------------------

inductive FormKind where
  | i | b | d | ds | x | xo | xl | xfx | xfl | m
deriving DecidableEq, Repr

namespace FormKind

variable {k : FormKind}

/-- The fields of the form behind the primary opcode, each where it was cut out of the word. -/
def operands (k : FormKind) (w : Word) : List BitField :=
  match k with
  | i =>
    let f := IForm.ofWord w
    [⟨⟨6, 24⟩, f.li⟩, .flag 30 f.aa, .flag 31 f.lk]
  | b =>
    let f := BForm.ofWord w
    [⟨⟨6, 5⟩, f.bo⟩, ⟨⟨11, 5⟩, f.bi⟩, ⟨⟨16, 14⟩, f.bd⟩, .flag 30 f.aa, .flag 31 f.lk]
  | d =>
    let f := DForm.ofWord w
    [⟨⟨6, 5⟩, f.rt⟩, ⟨⟨11, 5⟩, f.ra⟩, ⟨⟨16, 16⟩, f.d⟩]
  | ds =>
    let f := DsForm.ofWord w
    [⟨⟨6, 5⟩, f.rt⟩, ⟨⟨11, 5⟩, f.ra⟩, ⟨⟨16, 14⟩, f.ds⟩, ⟨⟨30, 2⟩, f.xo⟩]
  | x =>
    let f := XForm.ofWord w
    [⟨⟨6, 5⟩, f.rt⟩, ⟨⟨11, 5⟩, f.ra⟩, ⟨⟨16, 5⟩, f.rb⟩, ⟨⟨21, 10⟩, f.xo⟩, .flag 31 f.rc]
  | xo =>
    let f := XoForm.ofWord w
    [⟨⟨6, 5⟩, f.rt⟩, ⟨⟨11, 5⟩, f.ra⟩, ⟨⟨16, 5⟩, f.rb⟩, .flag 21 f.oe, ⟨⟨22, 9⟩, f.xo⟩,
      .flag 31 f.rc]
  | xl =>
    let f := XlForm.ofWord w
    [⟨⟨6, 5⟩, f.bt⟩, ⟨⟨11, 5⟩, f.ba⟩, ⟨⟨16, 5⟩, f.bb⟩, ⟨⟨21, 10⟩, f.xo⟩, .flag 31 f.lk]
  | xfx =>
    let f := XfxForm.ofWord w
    [⟨⟨6, 5⟩, f.rt⟩, ⟨⟨11, 10⟩, f.spr⟩, ⟨⟨21, 10⟩, f.xo⟩]
  | xfl =>
    let f := XflForm.ofWord w
    [⟨⟨7, 8⟩, f.flm⟩, ⟨⟨16, 5⟩, f.frb⟩, ⟨⟨21, 10⟩, f.xo⟩, .flag 31 f.rc]
  | m =>
    let f := MForm.ofWord w
    [⟨⟨6, 5⟩, f.rs⟩, ⟨⟨11, 5⟩, f.ra⟩, ⟨⟨16, 5⟩, f.rb⟩, ⟨⟨21, 5⟩, f.mb⟩, ⟨⟨26, 5⟩, f.me⟩,
      .flag 31 f.rc]

def fields (k : FormKind) (w : Word) : List BitField := ⟨⟨0, 6⟩, w.primary⟩ :: k.operands w

def spans : FormKind → List Span
  | i => [⟨0, 6⟩, ⟨6, 24⟩, ⟨30, 1⟩, ⟨31, 1⟩]
  | b => [⟨0, 6⟩, ⟨6, 5⟩, ⟨11, 5⟩, ⟨16, 14⟩, ⟨30, 1⟩, ⟨31, 1⟩]
  | d => [⟨0, 6⟩, ⟨6, 5⟩, ⟨11, 5⟩, ⟨16, 16⟩]
  | ds => [⟨0, 6⟩, ⟨6, 5⟩, ⟨11, 5⟩, ⟨16, 14⟩, ⟨30, 2⟩]
  | x | xl => [⟨0, 6⟩, ⟨6, 5⟩, ⟨11, 5⟩, ⟨16, 5⟩, ⟨21, 10⟩, ⟨31, 1⟩]
  | xo => [⟨0, 6⟩, ⟨6, 5⟩, ⟨11, 5⟩, ⟨16, 5⟩, ⟨21, 1⟩, ⟨22, 9⟩, ⟨31, 1⟩]
  | xfx => [⟨0, 6⟩, ⟨6, 5⟩, ⟨11, 10⟩, ⟨21, 10⟩]
  | xfl => [⟨0, 6⟩, ⟨7, 8⟩, ⟨16, 5⟩, ⟨21, 10⟩, ⟨31, 1⟩]
  | m => [⟨0, 6⟩, ⟨6, 5⟩, ⟨11, 5⟩, ⟨16, 5⟩, ⟨21, 5⟩, ⟨26, 5⟩, ⟨31, 1⟩]

/-- How many bits the host keeps each field in: a word, a halfword, a byte or a flag. -/
def storage : FormKind → List Nat
  | i => [8, 32, 1, 1]
  | b => [8, 8, 8, 32, 1, 1]
  | d => [8, 8, 8, 32]
  | ds => [8, 8, 8, 32, 8]
  | x | xl => [8, 8, 8, 8, 16, 1]
  | xo => [8, 8, 8, 8, 1, 16, 1]
  | xfx => [8, 8, 16, 16]
  | xfl => [8, 8, 8, 16, 1]
  | m => [8, 8, 8, 8, 8, 8, 1]

/-- Ones on the bits that the form has no field for. -/
def unread : FormKind → Word
  | xfx => 0x00000001
  | xfl => 0x02010000
  | _ => 0

theorem map_span_fields (k : FormKind) (w : Word) :
    (k.fields w).map BitField.toSpan = k.spans := by
  cases k <;> rfl

theorem spans_fit (k : FormKind) : ∀ s ∈ k.spans, s.Fits := by
  cases k <;> decide

theorem spans_apart (k : FormKind) : k.spans.Pairwise Span.Apart := by
  cases k <;> decide

theorem bit_unread {b : Nat} (hb : b < 32) :
    (∃ s ∈ k.spans, s.Covers b) ↔ k.unread.bit b = false := by
  revert b
  cases k <;> decide

theorem spans_storage (k : FormKind) :
    List.Forall₂ (fun s n => 0 < s.width ∧ s.width ≤ n) k.spans k.storage := by
  cases k <;> simp [spans, storage]

theorem fields_fit : ∀ f ∈ k.fields w, f.Fits := by
  intro f hf
  refine k.spans_fit _ ?_
  rw [← map_span_fields k w]
  exact List.mem_map_of_mem hf

theorem fields_apart : (k.fields w).Pairwise fun f g => f.Apart g.toSpan := by
  have hapart := k.spans_apart
  rw [← map_span_fields k w] at hapart
  exact List.pairwise_map.mp hapart

theorem fields_heldBy : ∀ f ∈ k.fields w, f.HeldBy w := by
  have hrun {first n : Nat} : BitField.HeldBy ⟨⟨first, n⟩, w.field first n⟩ w := rfl
  have hflag {place : Nat} (h : place < 32) : (BitField.flag place (w.bit place)).HeldBy w :=
    (Word.bit_eq_iff h).mp rfl
  cases k <;>
    simp [fields, operands, Word.primary, IForm.ofWord, BForm.ofWord, DForm.ofWord, DsForm.ofWord,
      XForm.ofWord, XoForm.ofWord, XlForm.ofWord, XfxForm.ofWord, XflForm.ofWord, MForm.ofWord,
      hrun, hflag]

theorem assemble_fields (k : FormKind) (w : Word) :
    BitField.assemble (k.fields w) = w &&& ~~~k.unread := by
  refine BitVec.eq_of_getMsbD_eq fun b hb => ?_
  have hcovers : (∃ f ∈ k.fields w, f.Covers b) ↔ k.unread.bit b = false := by
    rw [← bit_unread hb, ← map_span_fields k w]
    simp
  have hbit : (BitField.assemble (k.fields w)).bit b = (w.bit b && !k.unread.bit b) := by
    simp only [BitField.bit_assemble_of_heldBy fields_fit fields_apart fields_heldBy, hcovers,
      Bool.decide_eq_false]
  rw [BitVec.getMsbD_and, BitVec.getMsbD_not, decide_eq_true hb, Bool.true_and]
  exact hbit

theorem fields_keptIn (k : FormKind) (w : Word) :
    List.Forall₂ (fun f n => f.KeptIn w n) (k.fields w) k.storage := by
  have hstorage := k.spans_storage
  rw [← map_span_fields k w, List.forall₂_map_left_iff] at hstorage
  have hheld := (List.forall₂_and_left _ _).mpr
    ⟨fun f hf => And.intro (fields_heldBy f hf) (fields_fit f hf), hstorage⟩
  exact hheld.imp fun f n ⟨⟨hword, hfit⟩, hpos, hn⟩ => hword.keptIn hfit hpos hn

/-- Runs are quotients with a remainder, and join where they touch. Put back in their places, the
fields of a form are the word again, save the bits that `XFX` and `XFL` have no field for. -/
theorem fields_partition (w : Word) :
    (∀ first last, first ≤ last → last < 32 →
      Checked.bits w first last = pure (w.bits first last) ∧
        (w.bits first last).toNat = w.toNat / 2 ^ (31 - last) % 2 ^ (last - first + 1)) ∧
    (∀ first k last, first ≤ k → k < last → last < 32 →
      (w.bits first last).toNat =
        (w.bits first k).toNat * 2 ^ (last - k) + (w.bits (k + 1) last).toNat) ∧
    (∀ k : FormKind, k ≠ xfx → k ≠ xfl → BitField.assemble (k.fields w) = w) ∧
    BitField.assemble (xfx.fields w) = w &&& ~~~0x00000001#32 ∧
    BitField.assemble (xfl.fields w) = w &&& ~~~0x02010000#32 ∧
    ∀ k : FormKind, List.Forall₂ (fun f n => f.KeptIn w n) (k.fields w) k.storage := by
  have hruns (first last : Nat) (h : first ≤ last) (hlast : last < 32) :=
    And.intro (Checked.bits_of_le w h hlast) (Word.toNat_bits w h hlast)
  have hwhole (k : FormKind) (hxfx : k ≠ xfx) (hxfl : k ≠ xfl) :
      BitField.assemble (k.fields w) = w := by
    have hnone : k.unread = 0#32 := by cases k <;> first | rfl | contradiction
    rw [assemble_fields, hnone, BitVec.not_zero, BitVec.and_allOnes]
  exact ⟨hruns, fun _ _ _ hk h hlast => Word.toNat_bits_append w hk h hlast, hwhole,
    assemble_fields xfx w, assemble_fields xfl w, fun k => fields_keptIn k w⟩

/-- `mflr r0` with the record bit that it does not have. -/
theorem fields_partition_mflr :
    (Word.bits 0x7C0802A7 11 20).toNat = 0x7C0802A7 / 2 ^ 11 % 2 ^ 10 ∧
      (Word.bits 0x7C0802A7 0 31).toNat =
        (Word.bits 0x7C0802A7 0 5).toNat * 2 ^ 26 + (Word.bits 0x7C0802A7 6 31).toNat ∧
      BitField.assemble (x.fields 0x7C0802A7) = 0x7C0802A7 ∧
      BitField.assemble (xfx.fields 0x7C0802A7) = 0x7C0802A6 := by
  obtain ⟨hruns, happend, hwhole, hxfx, -, -⟩ := fields_partition 0x7C0802A7
  exact ⟨(hruns 11 20 (by decide) (by decide)).2,
    happend 0 5 31 (by decide) (by decide) (by decide), hwhole x (by decide) (by decide), hxfx⟩

/-- Nothing that `XFX` reads tells a word from the one with its last bit set. -/
theorem xfx_misses_last_bit :
    Word.primary 1 = Word.primary 0 ∧ XfxForm.ofWord 1 = XfxForm.ofWord 0 ∧
      BitField.assemble (xfx.fields 1) ≠ 1 := by
  decide

end FormKind

end PowerPC
