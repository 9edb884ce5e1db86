import PowerPC.Proofs.AccessLaws
import PowerPC.Proofs.TransferLaws

/-!
# Loads and stores of multiple words

The registers from one to the last go to memory and come from it in a single access, so either all
of them are transferred or nothing changes. What such a store leaves behind is what a store for each
word leaves, and a load brings back what a store has put away.
-/

namespace PowerPC

open BigEndian (encodeWords encode)

variable {r first : Gpr} {ws : List Word} {n : Nat}

-- ---------------------------------------------------------------------------
-- Registers in a row
-- ---------------------------------------------------------------------------

def Gpr.plus (first : Gpr) (i : Fin (32 - first.val)) : Gpr := ⟨first.val + i.val, by omega⟩

namespace Registers

def valuesFrom (r : Registers) (first : Gpr) : List Word :=
  (List.finRange (32 - first.val)).map fun i => r.gpr (first.plus i)

def wordStores (r : Registers) (first : Gpr) (a : Word) : List Memory.Change :=
  (List.finRange (32 - first.val)).map fun i =>
    .write32 (a + BitVec.ofNat 32 (4 * i.val)) (r.gpr (first.plus i))

theorem length_valuesFrom (r : Registers) (first : Gpr) :
    (r.valuesFrom first).length = 32 - first.val := by
  simp [valuesFrom]

theorem getElem?_valuesFrom (r : Registers) {i : Gpr} (h : first ≤ i) :
    (r.valuesFrom first)[i.val - first.val]? = some (r.gpr i) := by
  have hlt : i.val - first.val < 32 - first.val := by omega
  have hplus : first.plus ⟨i.val - first.val, hlt⟩ = i := Fin.ext (Nat.add_sub_cancel' h)
  simp [valuesFrom, hlt, hplus]

theorem wordsFrom_eq (r : Registers) (first : Gpr) :
    r.wordsFrom first = encodeWords (r.valuesFrom first) := by
  have hrow : (List.finRange 32).filter (first ≤ ·) =
      (List.finRange (32 - first.val)).map first.plus := by
    revert first
    decide
  rw [wordsFrom, hrow, encodeWords, valuesFrom, List.flatMap_map, List.flatMap_map]

theorem length_encode_valuesFrom (r : Registers) (first : Gpr) :
    (encodeWords (r.valuesFrom first)).length = 4 * (32 - first.val) := by
  rw [BigEndian.length_encodeWords, length_valuesFrom]

theorem wordStores_eq (r : Registers) (first : Gpr) (a : Word) :
    r.wordStores first a = Memory.wordWrites a (r.valuesFrom first) := by
  refine List.ext_getElem (by simp [wordStores, Memory.wordWrites, valuesFrom]) fun i _ _ => ?_
  simp [wordStores, Memory.wordWrites, valuesFrom]

-- ---------------------------------------------------------------------------
-- Words into registers
-- ---------------------------------------------------------------------------

theorem loadWords_cons (r : Registers) {first : Nat} (h : first < 32) (w : Word)
    (rest : List Byte) :
    r.loadWords first (encode 4 w.toNat ++ rest) =
      (r.setGpr ⟨first, h⟩ w).loadWords (first + 1) rest := by
  have hword : BitVec.ofNat 32 (BigEndian.decode (encode 4 w.toNat)) = w :=
    BigEndian.ofNat_decode_encode (n := 4) w
  simp only [encode] at hword ⊢
  simp only [List.cons_append, List.nil_append, loadWords, dif_pos h, hword]

theorem gpr_loadWords (r : Registers) {first : Nat} (h : first + ws.length ≤ 32) (i : Gpr) :
    (r.loadWords first (encodeWords ws)).gpr i =
      if first ≤ i.val then ws[i.val - first]?.getD (r.gpr i) else r.gpr i := by
  induction ws generalizing r first with
  | nil =>
    have hnone : r.loadWords first (encodeWords []) = r := by
      simp [encodeWords, loadWords]
    simp [hnone]
  | cons w ws ih =>
    rw [List.length_cons] at h
    rw [BigEndian.encodeWords_cons, loadWords_cons r (by omega), ih _ (by omega), gpr_setGpr]
    rcases Nat.lt_trichotomy i.val first with hlt | heq | hgt
    · have hne : i ≠ ⟨first, by omega⟩ := fun h => by simp [h] at hlt
      simp [hne, Nat.not_le.mpr hlt, show ¬ first + 1 ≤ i.val by omega]
    · have hi : i = ⟨first, by omega⟩ := Fin.ext heq
      have hpast : ¬ first + 1 ≤ i.val := by omega
      rw [if_neg hpast]
      simp [hi]
    · have hne : i ≠ ⟨first, by omega⟩ := fun h => by simp [h] at hgt
      have hsub : i.val - first = i.val - (first + 1) + 1 := by omega
      simp [hne, hsub, show first + 1 ≤ i.val by omega, show first ≤ i.val by omega]

end Registers

-- ---------------------------------------------------------------------------
-- Transfers
-- ---------------------------------------------------------------------------

namespace Exec

open Memory (Change)

variable {s t u : State} {rs rt ra : Gpr} {d : Word}

theorem storeMultiple_ok_iff : storeMultiple rs ra d s = (.ok (), t) ↔
    t.registers = s.registers ∧ s.memory.write (s.registers.effectiveAddress (.displaced ra d))
      (encodeWords (s.registers.valuesFrom rs)) = .ok t.memory := by
  rw [storeMultiple_run, Registers.wordsFrom_eq]
  exact afterAccess_memory_ok_iff

theorem loadMultiple_ok_iff : loadMultiple rt ra d s = (.ok (), t) ↔
    ∃ ws, ws.length = 32 - rt.val ∧
      s.memory.read (s.registers.effectiveAddress (.displaced ra d)) (4 * (32 - rt.val)) =
        .ok (encodeWords ws) ∧
      t = { s with registers := s.registers.loadWords rt.val (encodeWords ws) } := by
  rw [loadMultiple_run, afterAccess_ok_iff]
  constructor
  · rintro ⟨bytes, hread, rfl⟩
    obtain ⟨ws, hws, rfl⟩ := BigEndian.exists_encodeWords (Memory.length_read hread)
    exact ⟨ws, hws, hread, rfl⟩
  · rintro ⟨ws, -, hread, rfl⟩
    exact ⟨_, hread, rfl⟩

/-- Storing and loading the registers from `r` to 31 at the address `a`. -/
structure TransfersWords (s : State) (r ra : Gpr) (d a : Word) : Prop where
  store_ok_iff : (∃ t, storeMultiple r ra d s = (.ok (), t)) ↔
    Fits s.memory.layout.regions a (4 * (32 - r.val))
  load_ok_iff : (∃ t, loadMultiple r ra d s = (.ok (), t)) ↔
    Fits s.memory.layout.regions a (4 * (32 - r.val))
  store_fault : ∀ f t, storeMultiple r ra d s = (.error f, t) →
    f = .memory (.outOfBounds a (4 * (32 - r.val))) ∧ t = s
  load_fault : ∀ f t, loadMultiple r ra d s = (.error f, t) →
    f = .memory (.outOfBounds a (4 * (32 - r.val))) ∧ t = s
  /-- Memory is as after a store for each word. All of these go through. -/
  store : ∀ t, storeMultiple r ra d s = (.ok (), t) →
    t.registers = s.registers ∧ s.memory.changeAll (s.registers.wordStores r a) = .ok t.memory
  /-- The registers from `r` on hold the words that stand at the address, whether or not the base
  register is one of them. -/
  load : ∀ t, loadMultiple r ra d s = (.ok (), t) →
    t.memory = s.memory ∧ { t.registers with gprs := s.registers.gprs } = s.registers ∧
    (∀ i, i < r → t.registers.gpr i = s.registers.gpr i) ∧
    ∀ i, r ≤ i →
      s.memory.read32 (a + BitVec.ofNat 32 (4 * (i.val - r.val))) = .ok (t.registers.gpr i)
  /-- Whatever becomes of the registers, and whatever is written elsewhere, a load from the cells
  that were stored to brings all the values back. -/
  restore : ∀ t, storeMultiple r ra d s = (.ok (), t) → ∀ (u : State) (cs : List Change),
    u.memory = t.memory.afterAll cs →
    (∀ c ∈ cs, c.Misses s.memory.layout.regions a (4 * (32 - r.val))) →
    ∀ ra' d', SameCell s.memory.layout.regions
      (u.registers.effectiveAddress (.displaced ra' d')) a →
    ∃ v, loadMultiple r ra' d' u = (.ok (), v) ∧
      ∀ i, r ≤ i → v.registers.gpr i = s.registers.gpr i

/-- A store of multiple words is its stores word by word, a load its loads, and each happens as a
whole or not at all. -/
theorem multiple_word_by_word (s : State) (r ra : Gpr) (d : Word) :
    TransfersWords s r ra d (s.registers.effectiveAddress (.displaced ra d)) where
  store_ok_iff := by
    rw [storeMultiple_run, exists_afterAccess_ok_iff, Memory.write_ok_iff,
      Registers.length_wordsFrom]
  load_ok_iff := by
    rw [loadMultiple_run, exists_afterAccess_ok_iff, Memory.read_ok_iff]
  store_fault _ _ h := (storeMultiple_error_iff.mp h).2
  load_fault _ _ h := (loadMultiple_error_iff.mp h).2
  store t h := by
    obtain ⟨hregisters, hwrite⟩ := storeMultiple_ok_iff.mp h
    refine ⟨hregisters, ?_⟩
    rw [Registers.wordStores_eq]
    exact Memory.changeAll_wordWrites hwrite
  load t h := by
    obtain ⟨ws, hws, hread, rfl⟩ := loadMultiple_ok_iff.mp h
    have hroom : r.val + ws.length ≤ 32 := by omega
    refine ⟨rfl, s.registers.loadWords_eq r.val _, fun i hi => ?_, fun i hi => ?_⟩
    · exact (s.registers.gpr_loadWords hroom i).trans (if_neg (Nat.not_le.mpr hi))
    · have hlt : i.val - r.val < ws.length := by omega
      have hword : ws[i.val - r.val]? = some ws[i.val - r.val] := List.getElem?_eq_getElem hlt
      have hloaded := (s.registers.gpr_loadWords hroom i).trans (if_pos hi)
      rw [hword] at hloaded
      rw [hloaded]
      exact Memory.read32_of_read hread hword
  restore t h u cs hu hmiss ra' d' hsame := by
    obtain ⟨-, hwrite⟩ := storeMultiple_ok_iff.mp h
    have hlen := s.registers.length_encode_valuesFrom r
    have hroom : r.val + (s.registers.valuesFrom r).length ≤ 32 := by
      rw [Registers.length_valuesFrom]
      omega
    rw [← hlen] at hmiss
    have hread := Memory.read_back hwrite hmiss hsame
    rw [← hu, hlen] at hread
    refine ⟨_, loadMultiple_ok_iff.mpr ⟨_, s.registers.length_valuesFrom r, hread, rfl⟩,
      fun i hi => ?_⟩
    rw [u.registers.gpr_loadWords hroom, if_pos (show r.val ≤ i.val from hi),
      s.registers.getElem?_valuesFrom hi]
    rfl

/-- About to save r29, r30 and r31 in the last three words of a region. -/
def saving : State where
  registers := ((({} : Registers).setGpr 1 0x80000FF4).setGpr 30 7).setGpr 31 8
  memory := { layout := Memory.touching }

/-- All registers are lost but a base register. The word before the saved ones and the word behind
them are written. -/
def lost (memory : Memory) : State where
  registers := ({} : Registers).setGpr 30 0xC0001004
  memory := memory.afterAll [.write32 0x80000FF0 9, .write32 0x80001000 9]

/-- The words are loaded through the other alias, over the base register too. -/
theorem multiple_word_by_word_other_alias : ∃ t v,
    storeMultiple 29 1 0 saving = (.ok (), t) ∧
    loadMultiple 29 30 (-0x10) (lost t.memory) = (.ok (), v) ∧
    v.registers.gpr 29 = 0 ∧ v.registers.gpr 30 = 7 ∧ v.registers.gpr 31 = 8 := by
  have hsaved : Denotes Memory.touching.regions 0x80000FF4 ⟨0, 0xFF4⟩ :=
    ⟨_, .cached, ⟨rfl, by decide⟩, rfl⟩
  have hother : Denotes Memory.touching.regions 0xC0000FF4 ⟨0, 0xFF4⟩ :=
    ⟨_, .uncached, ⟨rfl, by decide⟩, rfl⟩
  have hbefore : Denotes Memory.touching.regions 0x80000FF0 ⟨0, 0xFF0⟩ :=
    ⟨_, .cached, ⟨rfl, by decide⟩, rfl⟩
  have hbehind : Denotes Memory.touching.regions 0x80001000 ⟨1, 0⟩ :=
    ⟨_, .cached, ⟨rfl, by decide⟩, rfl⟩
  have htransfers : TransfersWords saving 29 1 0 0x80000FF4 := multiple_word_by_word saving 29 1 0
  have hfit : Fits Memory.touching.regions 0x80000FF4 12 :=
    htransfers.store_ok_iff.mp ⟨_, rfl⟩
  obtain ⟨t, hstore⟩ := htransfers.store_ok_iff.mpr hfit
  have haddress (memory : Memory) :
      (lost memory).registers.effectiveAddress (.displaced 30 (-0x10)) = 0xC0000FF4 := by
    simp [lost, Registers.effectiveAddress, Registers.base]
  have hmiss : ∀ c ∈ [Change.write32 0x80000FF0 9, .write32 0x80001000 9],
      c.Misses Memory.touching.regions 0x80000FF4 12 := by
    simp only [List.forall_mem_cons]
    exact ⟨Change.misses_of_apart Memory.touching hbefore hsaved hfit (by decide),
      Change.misses_of_apart Memory.touching hbehind hsaved hfit (by decide), by simp⟩
  obtain ⟨v, hload, hv⟩ := htransfers.restore t hstore (lost t.memory) _ rfl hmiss 30 (-0x10)
    ⟨_, haddress t.memory ▸ hother, hsaved⟩
  exact ⟨t, v, hstore, hload, hv 29 (by decide), hv 30 (by decide), hv 31 (by decide)⟩

end Exec

end PowerPC
