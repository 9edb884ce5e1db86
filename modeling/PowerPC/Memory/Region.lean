import PowerPC.Word.Basic

/-!
# Regions

A region is a run of bytes seen at two places of the address space, through a cached and an
uncached alias. It is valid if it is not empty and neither alias runs past the end of the space.
-/

namespace PowerPC

structure Range where
  base : Word
  size : Nat
deriving DecidableEq, Repr

namespace Range

def stop (r : Range) : Nat := r.base.toNat + r.size

def Contains (r : Range) (a : Word) : Prop := r.base.toNat ≤ a.toNat ∧ a.toNat < r.stop

instance (r : Range) (a : Word) : Decidable (r.Contains a) :=
  inferInstanceAs (Decidable (_ ∧ _))

def Overlaps (r s : Range) : Prop := r.base.toNat < s.stop ∧ s.base.toNat < r.stop

instance (r s : Range) : Decidable (r.Overlaps s) := inferInstanceAs (Decidable (_ ∧ _))

end Range

structure Region where
  cachedBase : Word
  uncachedBase : Word
  size : Word
deriving DecidableEq, Repr

namespace Region

/-- Main memory of the GameCube: 24 MiB. -/
def gamecube : Region := ⟨0x80000000, 0xC0000000, 0x01800000⟩

def cached (r : Region) : Range := ⟨r.cachedBase, r.size.toNat⟩

def uncached (r : Region) : Range := ⟨r.uncachedBase, r.size.toNat⟩

def ranges (r : Region) : List Range := [r.cached, r.uncached]

def Valid (r : Region) : Prop :=
  0 < r.size.toNat ∧ r.cached.stop ≤ 0x100000000 ∧ r.uncached.stop ≤ 0x100000000

instance (r : Region) : Decidable r.Valid := inferInstanceAs (Decidable (_ ∧ _ ∧ _))

/-- Where an address lies in the region, through either alias. -/
def offset? (r : Region) (a : Word) : Option Nat :=
  (r.ranges.find? fun s => s.Contains a).map fun s => a.toNat - s.base.toNat

end Region

end PowerPC
