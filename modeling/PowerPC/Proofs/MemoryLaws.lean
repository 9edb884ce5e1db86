import PowerPC.Memory.Dump
import PowerPC.Proofs.AddressLaws
import PowerPC.Proofs.ResultLaws

/-!
# Memory is a flat store seen twice

A region list that is accepted fixes, for good, which addresses can be accessed and which of them
are two names of one byte. After any history of writes a read still succeeds exactly where the
list says, and a further write is seen at every name of the bytes it wrote and nowhere else.
-/

namespace PowerPC

theorem Layout.regions_ofRegions {regions : List Region} {l : Layout}
    (h : Layout.ofRegions regions = .ok l) : l.regions = regions := by
  unfold Layout.ofRegions at h
  split at h
  · cases h
  · split at h
    · cases h
    · cases h
      rfl

namespace Memory

inductive Change where
  | write (a : Word) (bytes : List Byte)
  | write8 (a : Word) (value : Byte)
  | write16 (a : Word) (value : Halfword)
  | write32 (a : Word) (value : Word)
  | writeWords (a : Word) (words : List Word)
deriving DecidableEq, Repr

def Change.address : Change → Word
  | .write a _ | .write8 a _ | .write16 a _ | .write32 a _ | .writeWords a _ => a

def Change.bytes : Change → List Byte
  | .write _ bytes => bytes
  | .write8 _ value => BigEndian.encode 1 value.toNat
  | .write16 _ value => BigEndian.encode 2 value.toNat
  | .write32 _ value => BigEndian.encode 4 value.toNat
  | .writeWords _ words => words.flatMap fun w => BigEndian.encode 4 w.toNat

def change (m : Memory) : Change → Except AccessFault Memory
  | .write a bytes => m.write a bytes
  | .write8 a value => m.write8 a value
  | .write16 a value => m.write16 a value
  | .write32 a value => m.write32 a value
  | .writeWords a words => m.writeWords a words

/-- The memory that a call leaves, whether it succeeds or not. -/
def after (m : Memory) (c : Change) : Memory :=
  match m.change c with
  | .ok m' => m'
  | .error _ => m

def afterAll (m : Memory) (cs : List Change) : Memory := cs.foldl after m

variable {m m' : Memory} {a b : Word} {n : Nat}

theorem change_eq_write (m : Memory) (c : Change) : m.change c = m.write c.address c.bytes := by
  cases c <;> rfl

-- ---------------------------------------------------------------------------
-- Reading
-- ---------------------------------------------------------------------------

theorem read_eq_ok_iff {bytes : List Byte} : m.read a n = .ok bytes ↔
    ∃ c, Denotes m.layout.regions a c ∧ Fits m.layout.regions a n ∧
      bytes = (List.range n).map fun i => m.byte (c.advance i) := by
  simp only [read, map_ok, locate_eq_ok_iff]
  constructor
  · rintro ⟨c, ⟨hc, hfit⟩, rfl⟩
    exact ⟨c, hc, hfit, rfl⟩
  · rintro ⟨c, hc, hfit, rfl⟩
    exact ⟨c, ⟨hc, hfit⟩, rfl⟩

theorem read_ok_iff : (∃ bytes, m.read a n = .ok bytes) ↔ Fits m.layout.regions a n := by
  constructor
  · rintro ⟨bytes, h⟩
    obtain ⟨c, -, hfit, -⟩ := read_eq_ok_iff.mp h
    exact hfit
  · intro hfit
    obtain ⟨c, hc⟩ := hfit.denotes
    exact ⟨_, read_eq_ok_iff.mpr ⟨c, hc, hfit, rfl⟩⟩

theorem length_read {bytes : List Byte} (h : m.read a n = .ok bytes) : bytes.length = n := by
  obtain ⟨c, -, -, rfl⟩ := read_eq_ok_iff.mp h
  simp

theorem read_fault {f : AccessFault} (h : m.read a n = .error f) : f = .outOfBounds a n :=
  locate_fault (map_error.mp h)

theorem read_error_iff {f : AccessFault} :
    m.read a n = .error f ↔ ¬ Fits m.layout.regions a n ∧ f = .outOfBounds a n :=
  error_iff_of_ok_iff read_ok_iff fun _ => read_fault

theorem read32_ok_iff : (∃ w, m.read32 a = .ok w) ↔ Fits m.layout.regions a 4 := by
  rw [← read_ok_iff]
  constructor
  · rintro ⟨w, hw⟩
    obtain ⟨bytes, hbytes, -⟩ := map_ok.mp hw
    exact ⟨bytes, hbytes⟩
  · rintro ⟨bytes, hbytes⟩
    exact ⟨_, map_ok.mpr ⟨bytes, hbytes, rfl⟩⟩

theorem read32_error_iff {f : AccessFault} :
    m.read32 a = .error f ↔ ¬ Fits m.layout.regions a 4 ∧ f = .outOfBounds a 4 :=
  map_error.trans read_error_iff

-- ---------------------------------------------------------------------------
-- Writing
-- ---------------------------------------------------------------------------

theorem write_eq_ok_iff {bytes : List Byte} : m.write a bytes = .ok m' ↔
    ∃ c, Denotes m.layout.regions a c ∧ Fits m.layout.regions a bytes.length ∧
      m' = m.store c bytes := by
  simp only [write, map_ok, locate_eq_ok_iff]
  constructor
  · rintro ⟨c, ⟨hc, hfit⟩, rfl⟩
    exact ⟨c, hc, hfit, rfl⟩
  · rintro ⟨c, hc, hfit, rfl⟩
    exact ⟨c, ⟨hc, hfit⟩, rfl⟩

theorem write_ok_iff {bytes : List Byte} :
    (∃ m', m.write a bytes = .ok m') ↔ Fits m.layout.regions a bytes.length := by
  constructor
  · rintro ⟨m', h⟩
    obtain ⟨c, -, hfit, -⟩ := write_eq_ok_iff.mp h
    exact hfit
  · intro hfit
    obtain ⟨c, hc⟩ := hfit.denotes
    exact ⟨_, write_eq_ok_iff.mpr ⟨c, hc, hfit, rfl⟩⟩

theorem write_fault {bytes : List Byte} {f : AccessFault} (h : m.write a bytes = .error f) :
    f = .outOfBounds a bytes.length :=
  locate_fault (map_error.mp h)

theorem write_error_iff {bytes : List Byte} {f : AccessFault} : m.write a bytes = .error f ↔
    ¬ Fits m.layout.regions a bytes.length ∧ f = .outOfBounds a bytes.length :=
  error_iff_of_ok_iff write_ok_iff fun _ => write_fault

theorem layout_write {bytes : List Byte} (h : m.write a bytes = .ok m') :
    m'.layout = m.layout := by
  obtain ⟨c, -, -, rfl⟩ := write_eq_ok_iff.mp h
  exact layout_store m c bytes

theorem getElem?_read_write {bytes old new : List Byte} (hw : m.write a bytes = .ok m')
    (hold : m.read b n = .ok old) (hnew : m'.read b n = .ok new) {j : Nat} (hj : j < n) :
    (∀ k < bytes.length, SameCell m.layout.regions (b + BitVec.ofNat 32 j) (a + BitVec.ofNat 32 k) →
      new[j]? = bytes[k]?) ∧
    ((∀ k < bytes.length,
      ¬ SameCell m.layout.regions (b + BitVec.ofNat 32 j) (a + BitVec.ofNat 32 k)) →
      new[j]? = old[j]?) := by
  obtain ⟨d, hd, hfit, rfl⟩ := write_eq_ok_iff.mp hw
  obtain ⟨c, hc, hroom, rfl⟩ := read_eq_ok_iff.mp hold
  obtain ⟨c', hc', -, rfl⟩ := read_eq_ok_iff.mp hnew
  rw [layout_store] at hc'
  obtain rfl := m.layout.denotes_unique hc hc'
  have hread := m.layout.denotes_add hc hroom hj
  simp only [List.getElem?_map, List.getElem?_range hj, Option.map_some, byte_store]
  constructor
  · intro k hk hsame
    have hcell := (m.layout.sameCell_iff hread (m.layout.denotes_add hd hfit hk)).mp hsame
    simp only [Cell.advance, Cell.mk.injEq] at hcell
    rw [if_pos ⟨hcell.1, by simp only [Cell.advance]; omega, by simp only [Cell.advance]; omega⟩]
    have hk' : (c.advance j).offset - d.offset = k := by simp only [Cell.advance]; omega
    rw [hk', List.getD_eq_getElem?_getD, List.getElem?_eq_getElem hk, Option.getD_some]
  · intro hfree
    rw [if_neg]
    rintro ⟨hregion, hlow, hhigh⟩
    -- The cell is `k` bytes into the write, where `k` is the distance of the offsets.
    have hk : (c.advance j).offset - d.offset < bytes.length := by omega
    refine hfree _ hk ((m.layout.sameCell_iff hread (m.layout.denotes_add hd hfit hk)).mpr ?_)
    simp only [Cell.advance, Cell.mk.injEq] at hregion hlow ⊢
    exact ⟨hregion, by omega⟩

-- ---------------------------------------------------------------------------
-- Histories
-- ---------------------------------------------------------------------------

theorem layout_after (m : Memory) (c : Change) : (m.after c).layout = m.layout := by
  unfold after
  split
  · rename_i m' h
    rw [change_eq_write] at h
    exact layout_write h
  · rfl

theorem layout_afterAll (m : Memory) (cs : List Change) : (m.afterAll cs).layout = m.layout := by
  induction cs generalizing m with
  | nil => rfl
  | cons c cs ih => exact (ih (m.after c)).trans (layout_after m c)

theorem length_image (m : Memory) (r : Region) (i : Nat) :
    (m.image r i).toList.length = r.size.toNat := by
  simp [Image.toList, image]

theorem length_images (m : Memory) :
    (m.images.map fun (r, image) => (r, image.toList.length)) =
      m.layout.regions.map fun r => (r, r.size.toNat) := by
  have hfst := List.zipIdx_map_fst 0 m.layout.regions
  simp only [images, List.map_map, Function.comp_def, length_image]
  conv => rhs; rw [← hfst, List.map_map]
  rfl

theorem regions_ofRegions {regions : List Region} (h : ofRegions regions = .ok m) :
    m.layout.regions = regions := by
  obtain ⟨l, hl, rfl⟩ := map_ok.mp h
  exact Layout.regions_ofRegions hl

/-- Memory over these regions: bytes that have up to two addresses each, and no more than that. -/
structure FlatStore (regions : List Region) (m : Memory) : Prop where
  /-- Every region stands where it stood. -/
  regions_eq : m.layout.regions = regions
  /-- Every region has as many bytes as its size says. -/
  sizes_eq : (m.images.map fun (r, image) => (r, image.toList.length)) =
    regions.map fun r => (r, r.size.toNat)
  one_alias : ∀ {a n k r s v w}, LiesIn regions a n r v → LiesIn regions a k s w → n = k ∧ v = w
  one_cell : ∀ {a c d}, Denotes regions a c → Denotes regions a d → c = d
  read_ok_iff : ∀ a n, (∃ bytes, m.read a n = .ok bytes) ↔ Fits regions a n
  read_fault : ∀ a n f, m.read a n = .error f → f = .outOfBounds a n
  length_read : ∀ a n bytes, m.read a n = .ok bytes → bytes.length = n
  change_ok_iff : ∀ c, (∃ m', m.change c = .ok m') ↔ Fits regions c.address c.bytes.length
  change_fault : ∀ c f, m.change c = .error f →
    f = .outOfBounds c.address c.bytes.length ∧ m.after c = m
  /-- A change moves no bound: the same reads succeed after it. -/
  change_read_iff : ∀ c m', m.change c = .ok m' → ∀ b n,
    (∃ new, m'.read b n = .ok new) ↔ ∃ old, m.read b n = .ok old
  /-- A change is read back at every address of the cells it wrote, and nowhere else. -/
  change_read : ∀ c m', m.change c = .ok m' → ∀ b n old new,
    m.read b n = .ok old → m'.read b n = .ok new → ∀ j < n,
      (∀ k < c.bytes.length,
        SameCell regions (b + BitVec.ofNat 32 j) (c.address + BitVec.ofNat 32 k) →
          new[j]? = c.bytes[k]?) ∧
      ((∀ k < c.bytes.length,
        ¬ SameCell regions (b + BitVec.ofNat 32 j) (c.address + BitVec.ofNat 32 k)) →
          new[j]? = old[j]?)

theorem flatStore_layout (m : Memory) : FlatStore m.layout.regions m where
  regions_eq := rfl
  sizes_eq := length_images m
  one_alias := m.layout.alias_unique
  one_cell := m.layout.denotes_unique
  read_ok_iff _ _ := read_ok_iff
  read_fault _ _ _ := read_fault
  length_read _ _ _ := length_read
  change_ok_iff c := by
    rw [change_eq_write]
    exact write_ok_iff
  change_fault c f h := by
    refine ⟨write_fault (by rwa [← change_eq_write]), ?_⟩
    rw [after, h]
  change_read_iff c m' h b n := by
    rw [change_eq_write] at h
    rw [read_ok_iff, read_ok_iff, layout_write h]
  change_read c m' h b n old new hold hnew j hj := by
    rw [change_eq_write] at h
    exact getElem?_read_write h hold hnew hj

/-- Whatever is written to memory over a list of regions, it stays a flat store over that list. -/
theorem flatStore_afterAll {regions : List Region} (h : ofRegions regions = .ok m)
    (cs : List Change) : FlatStore regions (m.afterAll cs) := by
  have hregions : (m.afterAll cs).layout.regions = regions := by
    rw [layout_afterAll, regions_ofRegions h]
  exact hregions ▸ flatStore_layout (m.afterAll cs)

/-- Two regions that touch, one of them seen at the very end of the address space. -/
def touching : Layout :=
  ⟨[⟨0x80000000, 0xC0000000, 0x1000⟩, ⟨0x80001000, 0xFFFFF000, 0x1000⟩], by decide, by decide⟩

/-- The first two writes run past an end and fail, the others succeed. -/
theorem flatStore_touching :
    ofRegions touching.regions = .ok { layout := touching } ∧
    FlatStore touching.regions (afterAll { layout := touching }
      [.write 0x80000FFE [1, 2, 3], .write32 0xFFFFFFFD 7, .write16 0xC0000FFE 0x0102,
        .write32 0xFFFFFFFC 0x03040506]) :=
  ⟨rfl, flatStore_afterAll rfl _⟩

end Memory

end PowerPC
