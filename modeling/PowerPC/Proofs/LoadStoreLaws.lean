import PowerPC.Proofs.AccessLaws
import PowerPC.Proofs.TransferLaws

/-!
# Loads and stores as bytes

A store puts the low bytes of a register into memory, and a load makes a word of the bytes that
stand there. Both have their kind's byte order, so what was stored in the one order and is loaded in
the other comes back with its bytes swapped.
-/

namespace PowerPC

open BigEndian (encode decode)

variable {n k : Nat}

-- ---------------------------------------------------------------------------
-- Byte orders
-- ---------------------------------------------------------------------------

inductive ByteOrder where
  | bigEndian | littleEndian
deriving DecidableEq, Repr

def swapBytes (v : BitVec (8 * n)) : BitVec (8 * n) :=
  BitVec.ofNat (8 * n) (decode (encode n v.toNat).reverse)

theorem encode_swapBytes (v : BitVec (8 * n)) :
    encode n (swapBytes v).toNat = (encode n v.toNat).reverse :=
  BigEndian.encode_ofNat_decode (by simp [BigEndian.length_encode])

namespace ByteOrder

/-- How many bytes of a number of `n` bytes are less significant than the `k`-th. -/
def rank (o : ByteOrder) (n k : Nat) : Nat :=
  match o with
  | bigEndian => n - 1 - k
  | littleEndian => k

/-- Bring bytes into the order, the most significant coming first before. -/
def arrange (o : ByteOrder) (bytes : List Byte) : List Byte :=
  match o with
  | bigEndian => bytes
  | littleEndian => bytes.reverse

@[simp] theorem length_arrange (o : ByteOrder) (bytes : List Byte) :
    (o.arrange bytes).length = bytes.length := by
  cases o <;> simp [arrange]

@[simp] theorem arrange_arrange (o : ByteOrder) (bytes : List Byte) :
    o.arrange (o.arrange bytes) = bytes := by
  cases o <;> simp [arrange]

theorem getElem?_arrange (o : ByteOrder) {m : Nat} (v : BitVec m) (hk : k < n) :
    (o.arrange (encode n v.toNat))[k]? = some (v.extractLsb' (8 * o.rank n k) 8) := by
  cases o with
  | bigEndian => exact BigEndian.getElem?_encode v hk
  | littleEndian =>
    have hlen := BigEndian.length_encode n v.toNat
    have hplace : n - 1 - (n - 1 - k) = k := by omega
    rw [arrange, List.getElem?_reverse (by omega), hlen,
      BigEndian.getElem?_encode v (by omega), hplace]
    rfl

theorem exists_arrange (o : ByteOrder) {bytes : List Byte} (h : bytes.length = n) :
    ∃ v : BitVec (8 * n), o.arrange (encode n v.toNat) = bytes := by
  refine ⟨BitVec.ofNat (8 * n) (decode (o.arrange bytes)), ?_⟩
  rw [BigEndian.encode_ofNat_decode (by simpa using h), arrange_arrange]

theorem arrange_eq (o p : ByteOrder) (v : BitVec (8 * n)) :
    o.arrange (encode n v.toNat) =
      p.arrange (encode n (if o = p then v else swapBytes v).toNat) := by
  cases o <;> cases p <;> simp [arrange, encode_swapBytes]

end ByteOrder

namespace Memory

variable {m : Memory} {a : Word}

/-- The `n` bytes from the address on are the low bytes of a number, in this order. -/
def Holds (m : Memory) (a : Word) (o : ByteOrder) (n : Nat) (v : BitVec k) : Prop :=
  ∀ i < n, m.read8 (a + BitVec.ofNat 32 i) = .ok (v.extractLsb' (8 * o.rank n i) 8)

theorem holds_of_read {o : ByteOrder} {v : BitVec k}
    (h : m.read a n = .ok (o.arrange (encode n v.toNat))) : m.Holds a o n v :=
  fun _ hi => read8_of_read h (o.getElem?_arrange v hi)

end Memory

-- ---------------------------------------------------------------------------
-- Kinds of loads and stores
-- ---------------------------------------------------------------------------

namespace StoreKind

def order : StoreKind → ByteOrder
  | byte | halfword | word => .bigEndian
  | halfwordByteReversed | wordByteReversed => .littleEndian

theorem bytes_eq (kind : StoreKind) (w : Word) :
    kind.bytes w = kind.order.arrange (encode kind.width w.toNat) := by
  cases kind <;> rfl

theorem length_arrange_encode (kind : StoreKind) (w : Word) :
    (kind.order.arrange (encode kind.width w.toNat)).length = kind.width := by
  simp [BigEndian.length_encode]

end StoreKind

namespace LoadKind

def order : LoadKind → ByteOrder
  | byte | halfword | halfwordAlgebraic | word => .bigEndian
  | halfwordByteReversed | wordByteReversed => .littleEndian

def extend (kind : LoadKind) (v : BitVec (8 * kind.width)) : Word :=
  if kind = halfwordAlgebraic then v.signExtend 32 else v.setWidth 32

theorem value_arrange (kind : LoadKind) (v : BitVec (8 * kind.width)) :
    kind.value (kind.order.arrange (encode kind.width v.toNat)) = kind.extend v := by
  have hnumber : decode (encode kind.width v.toNat) = v.toNat := by
    rw [BigEndian.decode_encode, Nat.mod_eq_of_lt v.isLt]
  cases kind with
  | halfwordAlgebraic =>
    simp only [value, order, ByteOrder.arrange, hnumber, extend, if_pos, BitVec.ofNat_toNat]
    exact congrArg (·.signExtend 32) (BitVec.setWidth_eq v)
  | _ => simp [value, order, ByteOrder.arrange, hnumber, extend]

end LoadKind

-- ---------------------------------------------------------------------------
-- Transfers
-- ---------------------------------------------------------------------------

/-- What a load gets of a word after a store to the same cells: as many low bytes as are stored, and
swapped if one of the two kinds is byte-reversed and the other is not. -/
def StoreKind.reloaded (kind : StoreKind) (kind' : LoadKind) (w : Word) :
    BitVec (8 * kind'.width) :=
  if kind.order = kind'.order then w.setWidth (8 * kind'.width)
  else swapBytes (w.setWidth (8 * kind'.width))

namespace Exec

open Memory (Change)

variable {s t u : State} {r : Gpr} {ea : Addressing} {update : Bool}

theorem store_ok_iff {kind : StoreKind} : store kind r ea update s = (.ok (), t) ↔
    t.registers = s.registers.updated update ea (s.registers.effectiveAddress ea) ∧
      s.memory.write (s.registers.effectiveAddress ea)
        (kind.order.arrange (encode kind.width (s.registers.gpr r).toNat)) = .ok t.memory := by
  rw [store_run, StoreKind.bytes_eq]
  exact afterAccess_memory_ok_iff

theorem load_ok_iff {kind : LoadKind} : load kind r ea update s = (.ok (), t) ↔
    ∃ v : BitVec (8 * kind.width),
      s.memory.read (s.registers.effectiveAddress ea) kind.width =
        .ok (kind.order.arrange (encode kind.width v.toNat)) ∧
      t = { s with
        registers := (s.registers.setGpr r (kind.extend v)).updated update ea
          (s.registers.effectiveAddress ea) } := by
  rw [load_run, afterAccess_ok_iff]
  constructor
  · rintro ⟨bytes, hread, rfl⟩
    obtain ⟨v, rfl⟩ := kind.order.exists_arrange (Memory.length_read hread)
    exact ⟨v, hread, by rw [kind.value_arrange]⟩
  · rintro ⟨v, hread, rfl⟩
    exact ⟨_, hread, by rw [kind.value_arrange]⟩

/-- The loads and stores of a state at the address `a`. -/
structure TransfersBytes (s : State) (ea : Addressing) (a : Word) : Prop where
  store_ok_iff : ∀ kind rs update, (∃ t, store kind rs ea update s = (.ok (), t)) ↔
    Fits s.memory.layout.regions a kind.width
  load_ok_iff : ∀ kind rt update, (∃ t, load kind rt ea update s = (.ok (), t)) ↔
    Fits s.memory.layout.regions a kind.width
  store_fault : ∀ kind rs update f t, store kind rs ea update s = (.error f, t) →
    f = .memory (.outOfBounds a kind.width) ∧ t = s
  load_fault : ∀ kind rt update f t, load kind rt ea update s = (.error f, t) →
    f = .memory (.outOfBounds a kind.width) ∧ t = s
  /-- The low bytes of a register go to memory as it is before the base moves. -/
  stored : ∀ kind rs update t, store kind rs ea update s = (.ok (), t) →
    t.registers = s.registers.updated update ea a ∧ t.memory.layout = s.memory.layout ∧
    t.memory.Holds a kind.order kind.width (s.registers.gpr rs) ∧
    ∀ d, (∀ i < kind.width, ¬ Denotes s.memory.layout.regions (a + BitVec.ofNat 32 i) d) →
      t.memory.byte d = s.memory.byte d
  /-- The base moves after the target is written. -/
  loaded : ∀ kind rt update t, load kind rt ea update s = (.ok (), t) → t.memory = s.memory ∧
    ∃ v, s.memory.Holds a kind.order kind.width v ∧
      t.registers = (s.registers.setGpr rt (kind.extend v)).updated update ea a
  /-- A load of as many bytes as were stored, from the same cells and while nothing else is written
  to them. -/
  reload : ∀ kind rs update t, store kind rs ea update s = (.ok (), t) →
    ∀ (u : State) (cs : List Change), u.memory = t.memory.afterAll cs →
    (∀ c ∈ cs, c.Misses s.memory.layout.regions a kind.width) →
    ∀ (kind' : LoadKind) rt ea' update', kind'.width = kind.width →
    SameCell s.memory.layout.regions (u.registers.effectiveAddress ea') a →
    load kind' rt ea' update' u = (.ok (), { u with
      registers := (u.registers.setGpr rt (kind'.extend
        (kind.reloaded kind' (s.registers.gpr rs)))).updated update' ea'
          (u.registers.effectiveAddress ea') })

/-- Loads and stores transfer the bytes of numbers in the order of their kind. -/
theorem transfers_bytes (s : State) (ea : Addressing) :
    TransfersBytes s ea (s.registers.effectiveAddress ea) where
  store_ok_iff kind rs update := by
    rw [store_run, exists_afterAccess_ok_iff, Memory.write_ok_iff, StoreKind.length_bytes]
  load_ok_iff kind rt update := by
    rw [load_run, exists_afterAccess_ok_iff, Memory.read_ok_iff]
  store_fault _ _ _ _ _ h := (store_error_iff.mp h).2
  load_fault _ _ _ _ _ h := (load_error_iff.mp h).2
  stored kind rs update t h := by
    obtain ⟨hregisters, hwrite⟩ := store_ok_iff.mp h
    have hlen := kind.length_arrange_encode (s.registers.gpr rs)
    have hread := Memory.read_write hwrite
    rw [hlen] at hread
    refine ⟨hregisters, Memory.layout_write hwrite, Memory.holds_of_read hread, fun d hd => ?_⟩
    exact Memory.byte_write_of_not_denotes hwrite (by rwa [hlen])
  loaded kind rt update t h := by
    obtain ⟨v, hread, rfl⟩ := load_ok_iff.mp h
    exact ⟨rfl, v, Memory.holds_of_read hread, rfl⟩
  reload kind rs update t h u cs hu hmiss kind' rt ea' update' hwidth hsame := by
    obtain ⟨-, hwrite⟩ := store_ok_iff.mp h
    have hlen := kind.length_arrange_encode (s.registers.gpr rs)
    have hread := Memory.read_back hwrite (hlen.symm ▸ hmiss) hsame
    rw [← hu, hlen, ← hwidth, ← BigEndian.encode_setWidth, kind.order.arrange_eq kind'.order]
      at hread
    exact load_ok_iff.mpr ⟨_, hread, rfl⟩

/-- About to store r3, and to load from behind the same cells in the other alias. -/
def swapping : State where
  registers := ((({} : Registers).setGpr 1 0x80000FFE).setGpr 2 0xC0001000).setGpr 3 0x123480F1
  memory := { layout := Memory.touching }

/-- `sthbrx r3, 0, r1` and then `lhau r4, -2(r2)`. -/
theorem transfers_bytes_swapped : ∃ t u,
    store .halfwordByteReversed 3 (.indexed 0 1) false swapping = (.ok (), t) ∧
    load .halfwordAlgebraic 4 (.displaced 2 (-2)) true t = (.ok (), u) ∧
    u.registers.gpr 4 = 0xFFFFF180 ∧ u.registers.gpr 2 = 0xC0000FFE := by
  have hcell : Denotes Memory.touching.regions 0x80000FFE ⟨0, 0xFFE⟩ :=
    ⟨_, .cached, ⟨rfl, by decide⟩, rfl⟩
  have hother : Denotes Memory.touching.regions 0xC0000FFE ⟨0, 0xFFE⟩ :=
    ⟨_, .uncached, ⟨rfl, by decide⟩, rfl⟩
  have htransfers : TransfersBytes swapping (.indexed 0 1) 0x80000FFE := transfers_bytes _ _
  have hload := htransfers.reload .halfwordByteReversed 3 false _ rfl _ [] rfl nofun
    .halfwordAlgebraic 4 (.displaced 2 (-2)) true rfl ⟨_, hother, hcell⟩
  exact ⟨_, _, rfl, hload, rfl, rfl⟩

end Exec

end PowerPC
