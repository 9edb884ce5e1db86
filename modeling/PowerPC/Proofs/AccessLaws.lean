import PowerPC.Proofs.MemoryLaws
import PowerPC.Proofs.NumberLaws

/-!
# Accesses and their parts

A run of bytes that is read is read in parts as well, and one that is written is written part after
part. What was written stays, and is read back at every address of its first cell, until a later
write reaches it. Bytes four by four are words.
-/

namespace PowerPC

variable {a b : Word} {n k j : Nat} {c d : Cell} {bytes xs ys : List Byte}

theorem Cell.advance_add (c : Cell) (k j : Nat) : c.advance (k + j) = (c.advance k).advance j := by
  simp [Cell.advance, Nat.add_assoc]

namespace Memory

variable {m m' u : Memory}

-- ---------------------------------------------------------------------------
-- Parts
-- ---------------------------------------------------------------------------

theorem read_part (h : m.read a n = .ok bytes) (hk : k < n) (hj : k + j ≤ n) :
    m.read (a + BitVec.ofNat 32 k) j = .ok ((bytes.drop k).take j) := by
  obtain ⟨c, hc, hfit, rfl⟩ := read_eq_ok_iff.mp h
  refine read_eq_ok_iff.mpr
    ⟨c.advance k, m.layout.denotes_add hc hfit hk, m.layout.fits_part hfit hk hj, ?_⟩
  refine List.ext_getElem (by simp; omega) fun i _ _ => ?_
  simp [Cell.advance_add]

theorem read8_of_read (h : m.read a n = .ok bytes) {x : Byte} (hx : bytes[k]? = some x) :
    m.read8 (a + BitVec.ofNat 32 k) = .ok x := by
  obtain ⟨hk, rfl⟩ := List.getElem?_eq_some_iff.mp hx
  have hlt : k < n := length_read h ▸ hk
  refine map_ok.mpr ⟨[bytes[k]], ?_, by simp [BigEndian.decode]⟩
  rw [read_part h hlt hlt, List.drop_eq_getElem_cons hk]
  rfl

theorem store_append (m : Memory) (c : Cell) (xs ys : List Byte) :
    m.store c (xs ++ ys) = (m.store c xs).store (c.advance xs.length) ys := by
  induction xs generalizing m c with
  | nil => rfl
  | cons x xs ih =>
    rw [List.cons_append, store, ih, store, List.length_cons, Nat.add_comm, Cell.advance_add]

/-- A run may end where its alias ends, and no second part begins there. -/
theorem write_append (hys : ys ≠ []) (h : m.write a (xs ++ ys) = .ok m') :
    ∃ u, m.write a xs = .ok u ∧ u.write (a + BitVec.ofNat 32 xs.length) ys = .ok m' := by
  obtain ⟨c, hc, hfit, rfl⟩ := write_eq_ok_iff.mp h
  have hpos := List.length_pos_iff.mpr hys
  rw [List.length_append] at hfit
  have hlt : xs.length < xs.length + ys.length := by omega
  refine ⟨m.store c xs, write_eq_ok_iff.mpr ⟨c, hc, hfit.mono (by omega), rfl⟩, ?_⟩
  rw [store_append]
  refine write_eq_ok_iff.mpr ⟨_, ?_, ?_, rfl⟩
  · rw [layout_store]
    exact m.layout.denotes_add hc hfit hlt
  · rw [layout_store]
    exact m.layout.fits_part hfit hlt (Nat.le_refl _)

-- ---------------------------------------------------------------------------
-- What a write leaves alone
-- ---------------------------------------------------------------------------

theorem byte_write_of_not_denotes (hw : m.write a bytes = .ok m')
    (hd : ∀ k < bytes.length, ¬ Denotes m.layout.regions (a + BitVec.ofNat 32 k) d) :
    m'.byte d = m.byte d := by
  obtain ⟨c, hc, hfit, rfl⟩ := write_eq_ok_iff.mp hw
  rw [byte_store, if_neg]
  rintro ⟨hregion, hlow, hhigh⟩
  have hk : d.offset - c.offset < bytes.length := by omega
  have hadvance : c.advance (d.offset - c.offset) = d := by
    cases d
    simp only [Cell.advance, Cell.mk.injEq] at hregion hlow ⊢
    exact ⟨hregion.symm, by omega⟩
  have hdenotes := m.layout.denotes_add hc hfit hk
  rw [hadvance] at hdenotes
  exact hd _ hk hdenotes

/-- The call goes through and writes the cell. -/
def Change.Writes (c : Change) (regions : List Region) (d : Cell) : Prop :=
  Fits regions c.address c.bytes.length ∧
    ∃ k < c.bytes.length, Denotes regions (c.address + BitVec.ofNat 32 k) d

/-- The call writes none of the cells that `n` addresses from `a` on stand for. -/
def Change.Misses (c : Change) (regions : List Region) (a : Word) (n : Nat) : Prop :=
  ∀ k < n, ∀ d, Denotes regions (a + BitVec.ofNat 32 k) d → ¬ c.Writes regions d

theorem Change.misses_of_apart (l : Layout) {x : Change} (hx : Denotes l.regions x.address d)
    (ha : Denotes l.regions a c) (hfit : Fits l.regions a n)
    (hapart : d.region ≠ c.region ∨ d.offset + x.bytes.length ≤ c.offset ∨
      c.offset + n ≤ d.offset) : x.Misses l.regions a n := by
  rintro k hk e he ⟨hroom, j, hj, hwritten⟩
  have hread : e = c.advance k := l.denotes_unique he (l.denotes_add ha hfit hk)
  have hwrite : e = d.advance j := l.denotes_unique hwritten (l.denotes_add hx hroom hj)
  have hsame := hread.symm.trans hwrite
  simp only [Cell.advance, Cell.mk.injEq] at hsame
  rcases hapart with hregion | hbefore | hbehind
  · exact hregion hsame.1.symm
  · omega
  · omega

theorem byte_after {c : Change} (h : ¬ c.Writes m.layout.regions d) :
    (m.after c).byte d = m.byte d := by
  rw [after]
  split
  · rename_i m' hm'
    rw [change_eq_write] at hm'
    refine byte_write_of_not_denotes hm' fun k hk hd => h ⟨write_ok_iff.mp ⟨_, hm'⟩, k, hk, hd⟩
  · rfl

theorem byte_afterAll {cs : List Change} (h : ∀ c ∈ cs, ¬ c.Writes m.layout.regions d) :
    (m.afterAll cs).byte d = m.byte d := by
  induction cs generalizing m with
  | nil => rfl
  | cons c cs ih =>
    have hlayout : (m.after c).layout = m.layout := layout_after m c
    refine (ih fun c' hc' => ?_).trans (byte_after (h c List.mem_cons_self))
    rw [hlayout]
    exact h c' (List.mem_cons_of_mem _ hc')

-- ---------------------------------------------------------------------------
-- What was written is read back
-- ---------------------------------------------------------------------------

theorem byte_write (hw : m.write a bytes = .ok m') (hc : Denotes m.layout.regions a c)
    (hk : k < bytes.length) : m'.byte (c.advance k) = bytes[k] := by
  obtain ⟨d, hd, -, rfl⟩ := write_eq_ok_iff.mp hw
  obtain rfl := m.layout.denotes_unique hc hd
  rw [byte_store, if_pos ⟨rfl, by simp only [Cell.advance]; omega,
    by simp only [Cell.advance]; omega⟩]
  simp [Cell.advance, hk]

theorem read_back (hw : m.write a bytes = .ok m') {cs : List Change}
    (hmiss : ∀ c ∈ cs, c.Misses m.layout.regions a bytes.length)
    (hsame : SameCell m.layout.regions b a) :
    (m'.afterAll cs).read b bytes.length = .ok bytes := by
  have hlayout : (m'.afterAll cs).layout = m.layout :=
    (layout_afterAll m' cs).trans (layout_write hw)
  have hfit := write_ok_iff.mp ⟨_, hw⟩
  have hfitb := m.layout.fits_of_sameCell hsame hfit
  obtain ⟨c, hb, ha⟩ := hsame
  refine read_eq_ok_iff.mpr ⟨c, hlayout ▸ hb, hlayout ▸ hfitb, ?_⟩
  refine List.ext_getElem (by simp) fun k hk _ => ?_
  have hkept : (m'.afterAll cs).byte (c.advance k) = m'.byte (c.advance k) := by
    refine byte_afterAll fun x hx => ?_
    rw [layout_write hw]
    exact hmiss x hx k hk _ (m.layout.denotes_add ha hfit hk)
  simp [hkept, byte_write hw ha hk]

theorem read_write (hw : m.write a bytes = .ok m') : m'.read a bytes.length = .ok bytes := by
  obtain ⟨c, hc⟩ := (write_ok_iff.mp ⟨_, hw⟩).denotes
  have hnone : ∀ x ∈ ([] : List Change), x.Misses m.layout.regions a bytes.length := nofun
  exact read_back hw hnone ⟨c, hc, hc⟩

end Memory

-- ---------------------------------------------------------------------------
-- Words
-- ---------------------------------------------------------------------------

namespace BigEndian

variable {w : Word} {ws : List Word} {i : Nat}

def encodeWords (ws : List Word) : List Byte := ws.flatMap fun w => encode 4 w.toNat

theorem encodeWords_cons (w : Word) (ws : List Word) :
    encodeWords (w :: ws) = encode 4 w.toNat ++ encodeWords ws := rfl

theorem length_encodeWords (ws : List Word) : (encodeWords ws).length = 4 * ws.length := by
  induction ws with
  | nil => rfl
  | cons w ws ih =>
    simp only [encodeWords_cons, List.length_append, length_encode, ih, List.length_cons]
    omega

theorem encodeWords_ne_nil (h : ws ≠ []) : encodeWords ws ≠ [] := by
  have hpos := List.length_pos_iff.mpr h
  refine List.length_pos_iff.mp ?_
  rw [length_encodeWords]
  omega

theorem take_drop_encodeWords (h : ws[i]? = some w) :
    ((encodeWords ws).drop (4 * i)).take 4 = encode 4 w.toNat := by
  induction ws generalizing i with
  | nil => simp at h
  | cons v ws ih =>
    have hlen : (encode 4 v.toNat).length = 4 := length_encode 4 v.toNat
    cases i with
    | zero =>
      obtain rfl : v = w := by simpa using h
      simp [encodeWords_cons, hlen]
    | succ i =>
      have hrest := ih (by simpa using h)
      rwa [encodeWords_cons, Nat.mul_succ, Nat.add_comm, ← List.drop_drop, List.drop_left' hlen]

theorem exists_encodeWords (h : bytes.length = 4 * n) :
    ∃ ws : List Word, ws.length = n ∧ encodeWords ws = bytes := by
  induction n generalizing bytes with
  | zero => exact ⟨[], rfl, (List.length_eq_zero_iff.mp h).symm⟩
  | succ n ih =>
    obtain ⟨ws, hws, hrest⟩ := @ih (bytes.drop 4) (by simp; omega)
    have hlen : (bytes.take 4).length = 4 := by simp; omega
    have hword : encode 4 (BitVec.ofNat 32 (decode (bytes.take 4))).toNat = bytes.take 4 :=
      encode_ofNat_decode hlen
    refine ⟨BitVec.ofNat 32 (decode (bytes.take 4)) :: ws, by simp [hws], ?_⟩
    rw [encodeWords_cons, hword, hrest, List.take_append_drop]

end BigEndian

namespace Memory

open BigEndian

variable {m m' : Memory} {w : Word} {ws : List Word} {i : Nat}

theorem read32_eq_ok_iff : m.read32 a = .ok w ↔ m.read a 4 = .ok (encode 4 w.toNat) := by
  rw [read32, map_ok]
  constructor
  · rintro ⟨bytes, hbytes, rfl⟩
    have hword : encode 4 (BitVec.ofNat 32 (decode bytes)).toNat = bytes :=
      encode_ofNat_decode (length_read hbytes)
    rw [hword, hbytes]
  · intro h
    exact ⟨_, h, ofNat_decode_encode (n := 4) w⟩

theorem read32_of_read (h : m.read a (4 * n) = .ok (encodeWords ws)) (hw : ws[i]? = some w) :
    m.read32 (a + BitVec.ofNat 32 (4 * i)) = .ok w := by
  have hi : i < ws.length := (List.getElem?_eq_some_iff.mp hw).1
  have hlen := length_read h
  rw [length_encodeWords] at hlen
  rw [read32_eq_ok_iff, read_part h (by omega) (by omega), take_drop_encodeWords hw]

def changeAll (m : Memory) (cs : List Change) : Except AccessFault Memory := cs.foldlM change m

def wordWrites (a : Word) (ws : List Word) : List Change :=
  ws.mapIdx fun i w => .write32 (a + BitVec.ofNat 32 (4 * i)) w

theorem wordWrites_cons (a w : Word) (ws : List Word) :
    wordWrites a (w :: ws) = .write32 a w :: wordWrites (a + 4) ws := by
  have hnext (i : Nat) : a + BitVec.ofNat 32 (4 * (i + 1)) = a + 4 + BitVec.ofNat 32 (4 * i) := by
    rw [Nat.mul_succ, BitVec.ofNat_add]
    bv_omega
  simp [wordWrites, List.mapIdx_cons, hnext]

theorem changeAll_wordWrites (h : m.write a (encodeWords ws) = .ok m') :
    m.changeAll (wordWrites a ws) = .ok m' := by
  induction ws generalizing m a with
  | nil =>
    obtain ⟨c, -, -, rfl⟩ := write_eq_ok_iff.mp h
    rfl
  | cons w ws ih =>
    rw [wordWrites_cons, changeAll, List.foldlM_cons]
    cases hws : ws with
    | nil =>
      subst hws
      have hone : m.write32 a w = .ok m' := h
      rw [change, hone]
      rfl
    | cons v vs =>
      obtain ⟨u, hu, hrest⟩ := write_append (encodeWords_ne_nil (hws ▸ List.cons_ne_nil v vs)) h
      have hone : m.write32 a w = .ok u := hu
      rw [change, hone, ← hws]
      exact ih hrest

end Memory

end PowerPC
