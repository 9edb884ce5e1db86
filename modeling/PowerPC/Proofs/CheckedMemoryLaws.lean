import PowerPC.Memory.Dump
import PowerPC.Proofs.MemoryLaws
import PowerPC.Proofs.PanicLaws

/-!
# Memory with partial operations

An access looks up a region by its number and cuts a slice out of its bytes. What `locate` lets
through is a region there is and a slice that lies in it, so no access panics, whatever its address
and length. That the slice lies in the region is where the layout's validity comes in: the bounds
that are compared with the address do not wrap round.
-/

namespace PowerPC

-- ---------------------------------------------------------------------------
-- The region of an address
-- ---------------------------------------------------------------------------

namespace Layout

def find? (l : Layout) (a : Word) : Option (Region × Cell) :=
  l.regions.zipIdx.findSome? fun (r, i) => (r.offset? a).map fun offset => (r, ⟨i, offset⟩)

variable {l : Layout} {a : Word}

theorem locate?_eq :
    l.locate? a = (l.find? a).map fun (r, cell) => (cell, r.size.toNat - cell.offset) := by
  rw [locate?, find?, List.map_findSome?]
  simp [Function.comp_def]

theorem offset_lt_of_find? {r : Region} {cell : Cell} (h : l.find? a = some (r, cell)) :
    cell.offset < r.size.toNat := by
  obtain ⟨⟨s, i⟩, -, hsome⟩ := List.exists_of_findSome?_eq_some h
  obtain ⟨offset, hoffset, heq⟩ := Option.map_eq_some_iff.mp hsome
  cases heq
  obtain ⟨v, hin, hoff⟩ := Region.offset?_sound hoffset
  have hstop := r.stop_range v
  have hlt := hin.2
  simp only
  omega

end Layout

namespace Checked

-- ---------------------------------------------------------------------------
-- Addresses
-- ---------------------------------------------------------------------------

def offsetFrom (base size a : Word) : Checked (Option Nat) := do
  if base.toNat ≤ a.toNat ∧ a.toNat < (← plus 64 base.toNat size.toNat) then
    return some (← sub a base).toNat
  else return none

theorem offsetFrom_eq (base size a : Word) : offsetFrom base size a =
    pure (if (Range.mk base size.toNat).Contains a then some (a.toNat - base.toNat) else none) := by
  have hplus : base.toNat + size.toNat < 2 ^ 64 := by omega
  rw [offsetFrom, plus_of_lt hplus, pure_bind]
  split
  · rename_i hin
    rw [sub_of_le hin.1, pure_bind, BitVec.toNat_sub_of_le hin.1]
    exact congrArg pure (if_pos hin).symm
  · rename_i hout
    exact congrArg pure (if_neg hout).symm

def offset? (r : Region) (a : Word) : Checked (Option Nat) :=
  [r.cachedBase, r.uncachedBase].findSomeM? fun base => offsetFrom base r.size a

@[simp] theorem offset?_eq (r : Region) (a : Word) : offset? r a = pure (r.offset? a) := by
  rw [offset?, findSomeM?_of fun base _ => offsetFrom_eq base r.size a]
  refine congrArg pure ?_
  by_cases hcached : (Range.mk r.cachedBase r.size.toNat).Contains a
  · simp [Region.offset?, Region.ranges, Region.cached, hcached]
  · by_cases huncached : (Range.mk r.uncachedBase r.size.toNat).Contains a
    · simp [Region.offset?, Region.ranges, Region.cached, Region.uncached, hcached, huncached]
    · simp [Region.offset?, Region.ranges, Region.cached, Region.uncached, hcached, huncached]

def find? (l : Layout) (a : Word) : Checked (Option (Region × Cell)) :=
  l.regions.zipIdx.findSomeM? fun (r, i) =>
    return (← offset? r a).map fun offset => (r, ⟨i, offset⟩)

@[simp] theorem find?_eq (l : Layout) (a : Word) : find? l a = pure (l.find? a) :=
  findSomeM?_of fun (r, i) _ => by simp

/-- The cell at which an access of `length` bytes starts. The end of the access may be too great for
a number of the host: then it does not fit. -/
def locate (m : Memory) (a : Word) (length : Nat) : Checked (Except AccessFault Cell) := do
  match ← find? m.layout a with
  | some (r, cell) =>
    if (plus 64 cell.offset length).toOption.any (· ≤ r.size.toNat) then return .ok cell
    else return .error (.outOfBounds a length)
  | none => return .error (.outOfBounds a length)

theorem any_plus_le {x y bound : Nat} (h : bound < 2 ^ 64) :
    (plus 64 x y).toOption.any (· ≤ bound) = decide (x + y ≤ bound) := by
  by_cases hlt : x + y < 2 ^ 64
  · rw [plus_of_lt hlt]
    rfl
  · have hle : ¬ x + y ≤ bound := by omega
    rw [plus, if_neg hlt, decide_eq_false hle]
    rfl

@[simp] theorem locate_eq (m : Memory) (a : Word) (length : Nat) :
    locate m a length = pure (m.locate a length) := by
  rw [locate, find?_eq, pure_bind, Memory.locate, Layout.locate?_eq]
  cases h : m.layout.find? a with
  | none => rfl
  | some found =>
    obtain ⟨r, cell⟩ := found
    have hoffset := Layout.offset_lt_of_find? h
    have hfits : cell.offset + length ≤ r.size.toNat ↔ length ≤ r.size.toNat - cell.offset := by
      omega
    simp only [any_plus_le (show r.size.toNat < 2 ^ 64 by omega), hfits, decide_eq_true_eq,
      Option.map_some]
    split <;> rfl

-- ---------------------------------------------------------------------------
-- Accesses
-- ---------------------------------------------------------------------------

def window (m : Memory) (cell : Cell) (length : Nat) : Checked (List Byte) := do
  let r ← nth m.layout.regions cell.region
  slice (m.image r cell.region).toList cell.offset (← plus 64 cell.offset length)

def read (m : Memory) (a : Word) (length : Nat) : Checked (Except AccessFault (List Byte)) := do
  match ← locate m a length with
  | .ok cell => return .ok (← window m cell length)
  | .error f => return .error f

def write (m : Memory) (a : Word) (bytes : List Byte) : Checked (Except AccessFault Memory) := do
  match ← locate m a bytes.length with
  | .ok cell =>
    sameLength (← window m cell bytes.length) bytes
    return .ok (m.store cell bytes)
  | .error f => return .error f

theorem window_eq {m : Memory} {a : Word} {length : Nat} {cell : Cell}
    (h : m.locate a length = .ok cell) : window m cell length =
      pure ((List.range length).map fun i => m.byte (cell.advance i)) := by
  obtain ⟨hcell, hfit⟩ := Memory.locate_sound h
  obtain ⟨r, v, ⟨hr, hin⟩, -⟩ := id hcell
  have hroom := m.layout.room_of_fits hcell hfit hr
  obtain ⟨hlt, rfl⟩ := List.getElem?_eq_some_iff.mp hr
  have hlength : cell.offset + length ≤
      (m.image m.layout.regions[cell.region] cell.region).toList.length := by
    rwa [Memory.length_image]
  rw [window, nth_of_lt hlt, pure_bind, plus_of_lt (by omega), pure_bind,
    slice_of_le (Nat.le_add_right _ _) hlength]
  refine congrArg pure (List.ext_getElem ?_ fun i hi hi' => ?_)
  · simp [Memory.length_image]
    omega
  · simp [Image.toList, Memory.image, Cell.advance]

@[simp] theorem read_eq (m : Memory) (a : Word) (length : Nat) :
    read m a length = pure (m.read a length) := by
  rw [read, locate_eq, pure_bind, Memory.read]
  cases h : m.locate a length with
  | ok cell =>
    simp only [window_eq h, pure_bind]
    rfl
  | error f => rfl

@[simp] theorem write_eq (m : Memory) (a : Word) (bytes : List Byte) :
    write m a bytes = pure (m.write a bytes) := by
  rw [write, locate_eq, pure_bind, Memory.write]
  cases h : m.locate a bytes.length with
  | ok cell =>
    simp only [window_eq h, pure_bind]
    rw [sameLength, require_of (by simp), pure_bind]
    rfl
  | error f => rfl

-- ---------------------------------------------------------------------------
-- Numbers
-- ---------------------------------------------------------------------------

def firstBytes (n : Nat) (bytes : List Byte) : Checked (List Byte) :=
  (List.range n).mapM (nth bytes)

theorem firstBytes_eq {n : Nat} {bytes : List Byte} (h : n ≤ bytes.length) :
    firstBytes n bytes = pure (bytes.take n) := by
  have hnth : ∀ i ∈ List.range n, nth bytes i = pure (bytes.getD i 0) := by
    intro i hi
    have hlt : i < bytes.length := Nat.lt_of_lt_of_le (List.mem_range.mp hi) h
    rw [nth_of_lt hlt]
    simp [hlt]
  rw [firstBytes, mapM_of hnth]
  refine congrArg pure (List.ext_getElem (by simp [h]) fun i hi hi' => ?_)
  have hlt : i < bytes.length := Nat.lt_of_lt_of_le hi' (List.length_take_le' n bytes)
  simp [hlt]

def read32 (m : Memory) (a : Word) : Checked (Except AccessFault Word) := do
  match ← read m a 4 with
  | .ok bytes => return .ok (BitVec.ofNat 32 (BigEndian.decode (← firstBytes 4 bytes)))
  | .error f => return .error f

@[simp] theorem read32_eq (m : Memory) (a : Word) : read32 m a = pure (m.read32 a) := by
  rw [read32, read_eq, pure_bind, Memory.read32]
  cases h : m.read a 4 with
  | ok bytes =>
    have hlength := Memory.length_read h
    simp only [firstBytes_eq (Nat.le_of_eq hlength.symm), pure_bind]
    rw [List.take_of_length_le (Nat.le_of_eq hlength)]
    rfl
  | error f => rfl

end Checked

end PowerPC
