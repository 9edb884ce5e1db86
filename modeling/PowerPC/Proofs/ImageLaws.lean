import Mathlib.Data.List.Forall2
import PowerPC.Proofs.FieldLaws
import PowerPC.Proofs.LoopLaws
import PowerPC.Proofs.WriteLaws

/-!
# Images are read and executed as they were written

A word in memory is read whole, in halves and in bytes, and the three agree at every address. A
program that was written is read back so, through either alias; and where no instruction branches
or stores into it, it is executed word after word from its first to its last.
-/

namespace PowerPC

variable {a b : Word} {w : Word} {ws vs : List Word} {n k : Nat}

-- ---------------------------------------------------------------------------
-- Parts of a word
-- ---------------------------------------------------------------------------

namespace BigEndian

theorem drop_encode (value : Nat) (h : k ≤ n) : (encode n value).drop k = encode (n - k) value := by
  induction k generalizing n with
  | zero => rfl
  | succ k ih =>
    cases n with
    | zero => omega
    | succ n =>
      rw [encode, List.drop_succ_cons, ih (by omega), Nat.add_sub_add_right]

theorem take_encode (value : Nat) (h : k ≤ n) :
    (encode n value).take k = encode k (value / 2 ^ (8 * (n - k))) := by
  induction k generalizing n with
  | zero => simp [encode]
  | succ k ih =>
    cases n with
    | zero => omega
    | succ n =>
      have hplace : 8 * (n - k) + 8 * k = 8 * n := by omega
      rw [encode, List.take_succ_cons, ih (by omega), encode, Nat.add_sub_add_right,
        Nat.shiftRight_eq_div_pow, Nat.shiftRight_eq_div_pow, Nat.div_div_eq_div_mul,
        ← Nat.pow_add, hplace]

theorem take_drop_encode (w : Word) (h : k + n ≤ 4) :
    ((encode 4 w.toNat).drop k).take n = encode n (w.field (8 * k) (8 * n)).toNat := by
  have hplace : 32 - 8 * k - 8 * n = 8 * (4 - k - n) := by omega
  rw [drop_encode _ (by omega), take_encode _ (by omega), Word.toNat_field w (by omega), encode_mod,
    hplace]

end BigEndian

namespace Word

theorem toNat_eq_halves (w : Word) :
    w.toNat = (w.field 0 16).toNat * 2 ^ 16 + (w.field 16 16).toNat := by
  rw [toNat_field w (by decide), toNat_field w (by decide)]
  omega

theorem toNat_eq_bytes (w : Word) :
    w.toNat = (w.field 0 8).toNat * 2 ^ 24 + (w.field 8 8).toNat * 2 ^ 16 +
      (w.field 16 8).toNat * 2 ^ 8 + (w.field 24 8).toNat := by
  rw [toNat_field w (by decide), toNat_field w (by decide), toNat_field w (by decide),
    toNat_field w (by decide)]
  omega

end Word

-- ---------------------------------------------------------------------------
-- Words in memory
-- ---------------------------------------------------------------------------

namespace Memory

open BigEndian

variable {m m' : Memory}

/-- The word is what is read at the address, and its parts are what is read of a part. -/
structure ReadsAs (m : Memory) (a w : Word) : Prop where
  word : m.read32 a = .ok w
  high : m.read16 a = .ok (w.field 0 16)
  low : m.read16 (a + 2) = .ok (w.field 16 16)
  bytes : ∀ j < 4, m.read8 (a + BitVec.ofNat 32 j) = .ok (w.field (8 * j) 8)

theorem read16_field (h : m.read32 a = .ok w) (hk : k + 2 ≤ 4) :
    m.read16 (a + BitVec.ofNat 32 k) = .ok (w.field (8 * k) 16) := by
  refine map_ok.mpr ⟨_, read_part (read32_eq_ok_iff.mp h) (by omega) hk, ?_⟩
  rw [take_drop_encode w hk]
  exact ofNat_decode_encode (n := 2) _

theorem read8_field (h : m.read32 a = .ok w) (hk : k + 1 ≤ 4) :
    m.read8 (a + BitVec.ofNat 32 k) = .ok (w.field (8 * k) 8) := by
  refine map_ok.mpr ⟨_, read_part (read32_eq_ok_iff.mp h) (by omega) hk, ?_⟩
  rw [take_drop_encode w hk]
  exact ofNat_decode_encode (n := 1) _

theorem readsAs_of_read32 (h : m.read32 a = .ok w) : m.ReadsAs a w where
  word := h
  high := by simpa using read16_field h (k := 0) (by decide)
  low := read16_field h (k := 2) (by decide)
  bytes _ hj := read8_field h hj

theorem read_of_sameCell {bytes : List Byte} (h : m.read a n = .ok bytes)
    (hsame : SameCell m.layout.regions b a) : m.read b n = .ok bytes := by
  obtain ⟨c, ha, hfit, rfl⟩ := read_eq_ok_iff.mp h
  have hfitb := m.layout.fits_of_sameCell hsame hfit
  obtain ⟨d, hb, ha'⟩ := hsame
  obtain rfl := m.layout.denotes_unique ha ha'
  exact read_eq_ok_iff.mpr ⟨_, hb, hfitb, rfl⟩

theorem readsAs_of_sameCell (h : m.ReadsAs a w) (hsame : SameCell m.layout.regions b a) :
    m.ReadsAs b w :=
  readsAs_of_read32 (read32_eq_ok_iff.mpr (read_of_sameCell (read32_eq_ok_iff.mp h.word) hsame))

def HoldsImage (m : Memory) (a : Word) (ws : List Word) : Prop :=
  m.read a (4 * ws.length) = .ok (encodeWords ws)

theorem holdsImage_of_writeWords (h : m.writeWords a ws = .ok m') : m'.HoldsImage a ws := by
  rw [HoldsImage, ← length_encodeWords]
  exact read_write h

theorem HoldsImage.read32 (h : m.HoldsImage a ws) {i : Nat} (hw : ws[i]? = some w) :
    m.read32 (a + BitVec.ofNat 32 (4 * i)) = .ok w :=
  read32_of_read h hw

end Memory

-- ---------------------------------------------------------------------------
-- Straight-line programs
-- ---------------------------------------------------------------------------

namespace Machine

/-- The steps from one machine to another execute these instructions, and none of them faults. -/
inductive Executes : List Instruction → Machine → Machine → Prop
  | nil (m) : Executes [] m m
  | cons {i is m m₁ t} : step m = (.ok i, m₁) → Executes is m₁ t → Executes (i :: is) m t

variable {m m₁ t : Machine} {i : Instruction} {is : List Instruction}

theorem Executes.steps (h : Executes is m t) : Steps is.length m t := by
  induction h with
  | nil m => exact .refl m
  | cons hstep _ ih => exact .next hstep ih

/-- Each of the next `n` steps succeeds, at an instruction that is no branch and leaves the `k`
bytes at the address as they were. -/
def RunsStraight (m : Machine) (n : Nat) (a : Word) (k : Nat) : Prop :=
  ∀ j < n, ∀ t, Steps j m t → ∃ i u, step t = (.ok i, u) ∧ ¬ i.WritesPc ∧
    u.memory.read a k = t.memory.read a k

theorem RunsStraight.tail (h : RunsStraight m (n + 1) a k) (hstep : step m = (.ok i, m₁)) :
    RunsStraight m₁ n a k :=
  fun j hj t ht => h (j + 1) (by omega) t (.next hstep ht)

theorem step_straight (hpc : m.registers.pc.Aligned) (hw : m.memory.read32 m.registers.pc = .ok w)
    (hstep : step m = (.ok i, m₁)) (hbranch : ¬ i.WritesPc) :
    Instruction.decode w = .ok i ∧ m₁.registers.pc = m.registers.pc + 4 := by
  rcases step_cases m with ⟨_, -, hm⟩ | ⟨_, _, -, -, hm⟩ | ⟨j, s, hfetch, hexecute, hm⟩
  · rw [hm] at hstep
    cases hstep
  · rw [hm] at hstep
    cases hstep
  · rw [hm] at hstep
    cases hstep
    refine ⟨(fetchInstruction_of_read hpc hw).symm.trans hfetch, ?_⟩
    exact (Instruction.execute_changes hexecute).registers .pc hbranch

theorem exists_executes (hbase : a.Aligned) (hholds : m.memory.HoldsImage a ws)
    (hpc : m.registers.pc = a + BitVec.ofNat 32 (4 * k)) (hrest : ws.drop k = vs)
    (hruns : RunsStraight m vs.length a (4 * ws.length)) :
    ∃ is t, List.Forall₂ (fun w i => Instruction.decode w = .ok i) vs is ∧ Executes is m t ∧
      t.registers.pc = a + BitVec.ofNat 32 (4 * (k + vs.length)) := by
  -- What is left of the image shrinks, and all of it stays where it was written.
  induction vs generalizing m k with
  | nil => exact ⟨[], m, .nil, .nil m, hpc⟩
  | cons w vs ih =>
    obtain ⟨i, m₁, hstep, hbranch, hkept⟩ := hruns 0 (by simp) m (.refl m)
    have hw : ws[k]? = some w := by rw [← List.head?_drop, hrest, List.head?_cons]
    have hvs : ws.drop (k + 1) = vs := by rw [← List.tail_drop, hrest, List.tail_cons]
    have haligned : m.registers.pc.Aligned := by
      rw [hpc]
      exact aligned_bodyEnd hbase
    have hread : m.memory.read32 m.registers.pc = .ok w := hpc ▸ hholds.read32 hw
    obtain ⟨hdecode, hnext⟩ := step_straight haligned hread hstep hbranch
    have hpc₁ : m₁.registers.pc = a + BitVec.ofNat 32 (4 * (k + 1)) := by
      rw [hnext, hpc, Nat.mul_succ, BitVec.ofNat_add, BitVec.add_assoc]
      rfl
    obtain ⟨is, t, hall, hexecutes, hend⟩ := ih (hkept.trans hholds) hpc₁ hvs (hruns.tail hstep)
    refine ⟨i :: is, t, .cons hdecode hall, .cons hstep hexecutes, ?_⟩
    rw [hend, List.length_cons, Nat.add_right_comm, Nat.add_assoc]

/-- An image that could be written is read back as its words, their halves and their bytes through
either alias, as any word in memory is. A run from its first word that does not branch or change the
image executes it to the end. -/
theorem image_read_and_executed {u u' : Memory} {base : Word} {ws : List Word}
    (h : u.writeWords base ws = .ok u') :
    (∀ k w, ws[k]? = some w → u'.ReadsAs (base + BitVec.ofNat 32 (4 * k)) w ∧
      ∀ b, SameCell u'.layout.regions b (base + BitVec.ofNat 32 (4 * k)) → u'.ReadsAs b w) ∧
    (∀ (v : Memory) a w, v.read32 a = .ok w → v.ReadsAs a w ∧
      w.toNat = (w.field 0 16).toNat * 2 ^ 16 + (w.field 16 16).toNat ∧
      w.toNat = (w.field 0 8).toNat * 2 ^ 24 + (w.field 8 8).toNat * 2 ^ 16 +
        (w.field 16 8).toNat * 2 ^ 8 + (w.field 24 8).toNat) ∧
    ∀ m : Machine, m.memory = u' → m.registers.pc = base → base.Aligned → m.stop = false →
      RunsStraight m ws.length base (4 * ws.length) →
      ∃ is t, List.Forall₂ (fun w i => Instruction.decode w = .ok i) ws is ∧ Executes is m t ∧
        runFor ws.length m = (.ok ws.length, t) ∧
        t.registers.pc = base + BitVec.ofNat 32 (4 * ws.length) := by
  have hholds := Memory.holdsImage_of_writeWords h
  refine ⟨fun k w hw => ?_, fun v a w hread => ?_, fun m hmemory hpc hbase hstop hruns => ?_⟩
  · have hreads := Memory.readsAs_of_read32 (hholds.read32 hw)
    exact ⟨hreads, fun b hb => Memory.readsAs_of_sameCell hreads hb⟩
  · exact ⟨Memory.readsAs_of_read32 hread, w.toNat_eq_halves, w.toNat_eq_bytes⟩
  · have hfirst : m.registers.pc = base + BitVec.ofNat 32 (4 * 0) := by simpa using hpc
    obtain ⟨is, t, hall, hexecutes, hend⟩ :=
      exists_executes hbase (hmemory ▸ hholds) hfirst List.drop_zero hruns
    have hsteps : Steps ws.length m t := hall.length_eq ▸ hexecutes.steps
    rw [Nat.zero_add] at hend
    exact ⟨is, t, hall, hexecutes, (runFor_ok_iff hstop).mpr ⟨rfl, hsteps⟩, hend⟩

/-- `li r3, 7` and `stw r3, 16(r4)` in the last two words of the address space. -/
def atEnd : Machine where
  memory := ({ layout := Memory.touching } : Memory).store ⟨1, 0xFF8⟩
    (BigEndian.encodeWords [0x38600007, 0x90640010])
  registers := ({ pc := 0xFFFFFFF8 } : Registers).setGpr 4 0x80000000

theorem runsStraight_atEnd : RunsStraight atEnd 2 0xFFFFFFF8 8 := by
  have hfirst : step atEnd = (.ok (.arithmeticImmediate .addi 3 0 7), (step atEnd).2) := rfl
  have hsecond : (step (step atEnd).2).1 = .ok (.store .word 3 (.displaced 4 16) false) := rfl
  have hkept : (step (step atEnd).2).2.memory.read 0xFFFFFFF8 8 =
      (step atEnd).2.memory.read 0xFFFFFFF8 8 := by
    decide +kernel
  intro j hj t ht
  match j with
  | 0 =>
    obtain rfl := Steps.zero_iff.mp ht
    exact ⟨_, _, hfirst, id, rfl⟩
  | 1 =>
    obtain rfl := Steps.zero_iff.mp ((Steps.succ_iff hfirst).mp ht)
    exact ⟨_, _, Prod.ext hsecond rfl, id, hkept⟩

/-- PC runs off the end of the address space, to zero. -/
theorem image_read_and_executed_at_end :
    ∃ u', ({ layout := Memory.touching } : Memory).writeWords 0xFFFFFFF8 [0x38600007, 0x90640010] =
        .ok u' ∧
      u'.ReadsAs 0x80001FFC 0x90640010 ∧ u'.ReadsAs 0xFFFFFFFA 0x00079064 ∧
      ∃ is t, List.Forall₂ (fun w i => Instruction.decode w = .ok i) [0x38600007, 0x90640010] is ∧
        Executes is atEnd t ∧ runFor 2 atEnd = (.ok 2, t) ∧ t.registers.pc = 0 := by
  have hwrite : ({ layout := Memory.touching } : Memory).writeWords 0xFFFFFFF8
      [0x38600007, 0x90640010] = .ok atEnd.memory := rfl
  obtain ⟨hreads, hparts, hruns⟩ := image_read_and_executed hwrite
  have hsame : SameCell Memory.touching.regions 0x80001FFC 0xFFFFFFFC :=
    ⟨⟨1, 0xFFC⟩, ⟨⟨0x80001000, 0xFFFFF000, 0x1000⟩, .cached, ⟨rfl, by decide⟩, by decide⟩,
      ⟨⟨0x80001000, 0xFFFFF000, 0x1000⟩, .uncached, ⟨rfl, by decide⟩, by decide⟩⟩
  exact ⟨_, hwrite, (hreads 1 _ rfl).2 _ hsame, (hparts _ _ _ rfl).1,
    hruns atEnd rfl rfl (by decide) rfl runsStraight_atEnd⟩

end Machine

end PowerPC
