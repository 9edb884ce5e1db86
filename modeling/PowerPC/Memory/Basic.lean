import PowerPC.Memory.Layout
import PowerPC.Word.BigEndian
import Std.Data.ExtTreeMap

/-!
# Memory

A layout and the bytes written so far; a byte never written is zero. A range of bytes can be read
or written if it starts in an alias of a region and does not run past that region's end. Numbers
are stored most significant byte first.
-/

namespace PowerPC

namespace Cell

instance : Ord Cell := ⟨compareLex (compareOn Cell.region) (compareOn Cell.offset)⟩

instance : Std.TransOrd Cell :=
  inferInstanceAs (Std.TransCmp (compareLex (compareOn Cell.region) (compareOn Cell.offset)))

instance : Std.LawfulEqOrd Cell where
  eq_of_compare {a b} h := by
    have h : (compare a.region b.region).then (compare a.offset b.offset) = .eq := h
    rw [Ordering.then_eq_eq, Nat.compare_eq_eq, Nat.compare_eq_eq] at h
    cases a; cases b; simp_all

end Cell

inductive AccessFault where
  | outOfBounds (address : Word) (length : Nat)
  | misaligned (address : Word) (alignment : Nat)
deriving DecidableEq, Repr

def AccessFault.message : AccessFault → String
  | .outOfBounds address length =>
    "Out of bounds access at " ++ Numeral.address address ++
      " (length " ++ Numeral.decimal length ++ ")"
  | .misaligned address alignment =>
    "Alignment error: address " ++ Numeral.address address ++
      " not aligned to " ++ Numeral.decimal alignment

structure Memory where
  layout : Layout
  written : Std.ExtTreeMap Cell Byte := ∅

namespace Memory

def ofRegions (regions : List Region) : Except LayoutError Memory :=
  (Layout.ofRegions regions).map ({ layout := · })

def gamecube : Memory := { layout := .gamecube }

def byte (m : Memory) (c : Cell) : Byte := m.written[c]?.getD 0

def locate (m : Memory) (a : Word) (length : Nat) : Except AccessFault Cell :=
  match m.layout.locate? a with
  | some (cell, room) => if length ≤ room then .ok cell else .error (.outOfBounds a length)
  | none => .error (.outOfBounds a length)

def read (m : Memory) (a : Word) (length : Nat) : Except AccessFault (List Byte) :=
  (m.locate a length).map fun cell => (List.range length).map fun i => m.byte (cell.advance i)

def store (m : Memory) (c : Cell) : List Byte → Memory
  | [] => m
  | b :: bs => { m with written := m.written.insert c b }.store (c.advance 1) bs

def write (m : Memory) (a : Word) (bytes : List Byte) : Except AccessFault Memory :=
  (m.locate a bytes.length).map fun cell => m.store cell bytes

def read8 (m : Memory) (a : Word) : Except AccessFault Byte :=
  (m.read a 1).map fun bytes => BitVec.ofNat 8 (BigEndian.decode bytes)

def read16 (m : Memory) (a : Word) : Except AccessFault Halfword :=
  (m.read a 2).map fun bytes => BitVec.ofNat 16 (BigEndian.decode bytes)

def read32 (m : Memory) (a : Word) : Except AccessFault Word :=
  (m.read a 4).map fun bytes => BitVec.ofNat 32 (BigEndian.decode bytes)

def write8 (m : Memory) (a : Word) (value : Byte) : Except AccessFault Memory :=
  m.write a (BigEndian.encode 1 value.toNat)

def write16 (m : Memory) (a : Word) (value : Halfword) : Except AccessFault Memory :=
  m.write a (BigEndian.encode 2 value.toNat)

def write32 (m : Memory) (a : Word) (value : Word) : Except AccessFault Memory :=
  m.write a (BigEndian.encode 4 value.toNat)

/-- Write a program: its words one after the other, in a single access. -/
def writeWords (m : Memory) (a : Word) (words : List Word) : Except AccessFault Memory :=
  m.write a (words.flatMap fun w => BigEndian.encode 4 w.toNat)

theorem layout_store (m : Memory) (c : Cell) (bytes : List Byte) :
    (m.store c bytes).layout = m.layout := by
  induction bytes generalizing m c with
  | nil => rfl
  | cons b bs ih => rw [store, ih]

theorem byte_store (m : Memory) (c d : Cell) (bytes : List Byte) :
    (m.store c bytes).byte d =
      if d.region = c.region ∧ c.offset ≤ d.offset ∧ d.offset < c.offset + bytes.length then
        bytes.getD (d.offset - c.offset) 0
      else m.byte d := by
  induction bytes generalizing m c with
  | nil =>
    rw [if_neg (by simp only [List.length_nil]; omega)]
    rfl
  | cons b bs ih =>
    rw [store, ih]
    simp only [byte, Cell.advance, List.length_cons, Std.ExtTreeMap.getElem?_insert,
      Std.LawfulEqCmp.compare_eq_iff_eq]
    by_cases hregion : d.region = c.region
    · by_cases hoffset : d.offset = c.offset
      · obtain rfl : c = d := by cases c; cases d; simp_all
        have hpast : ¬ c.offset + 1 ≤ c.offset := by omega
        simp [hpast]
      · have hne : c ≠ d := fun h => hoffset (h ▸ rfl)
        simp only [hregion, true_and, hne, if_false]
        by_cases hin : c.offset + 1 ≤ d.offset ∧ d.offset < c.offset + 1 + bs.length
        · have hsub : d.offset - c.offset = d.offset - (c.offset + 1) + 1 := by omega
          rw [if_pos hin, if_pos (by omega), hsub, List.getD_cons_succ]
        · rw [if_neg hin, if_neg (by omega)]
    · have hne : c ≠ d := fun h => hregion (h ▸ rfl)
      simp [hregion, hne]

end Memory

end PowerPC
