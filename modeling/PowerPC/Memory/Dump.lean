import PowerPC.Memory.Basic
import PowerPC.Storage

/-!
# Dumps

A dump writes one file per region, in layout order, named by the region's cached base.
-/

namespace PowerPC

/-- The contents of a file: a size, and the byte at each offset below it. -/
structure Image where
  size : Nat
  byte : Nat → Byte

def Image.toList (i : Image) : List Byte := (List.range i.size).map i.byte

namespace Memory

def image (m : Memory) (r : Region) (i : Nat) : Image :=
  ⟨r.size.toNat, fun offset => m.byte ⟨i, offset⟩⟩

def images (m : Memory) : List (Region × Image) :=
  m.layout.regions.zipIdx.map fun (r, i) => (r, m.image r i)

end Memory

def Region.fileName (r : Region) : String :=
  Numeral.padded 16 8 r.cachedBase.toNat ++ ".bin"

def Memory.dump (m : Memory) : List (String × Image) :=
  m.images.map fun (r, image) => (r.fileName, image)

def Memory.dumpInto (m : Memory) (place : Occupant) :
    Except FileError (List (String × Image)) := do
  place.makeDirectory
  return m.dump

end PowerPC
