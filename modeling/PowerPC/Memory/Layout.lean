import PowerPC.Memory.Region
import PowerPC.Text.Numeral

/-!
# Layouts

A layout is a list of valid regions no two of whose ranges overlap, the two of one region
included. So an address belongs to one range at most, and through it denotes one cell.
-/

namespace PowerPC

/-- One byte of storage: a region by its place in the layout and an offset in it. -/
structure Cell where
  region : Nat
  offset : Nat
deriving DecidableEq, Repr

def Cell.advance (c : Cell) (n : Nat) : Cell := { c with offset := c.offset + n }

inductive LayoutError where
  | invalidRegion (base size : Word)
  | overlap (first second : Word)
deriving DecidableEq, Repr

def LayoutError.message : LayoutError → String
  | .invalidRegion base size =>
    "Invalid section: base " ++ Numeral.address base ++ ", size " ++ Numeral.hex size.toNat
  | .overlap first second =>
    "Section at " ++ Numeral.address first ++ " overlaps section at " ++ Numeral.address second

/-- The first range that overlaps a later one, with the first such later one. -/
def firstOverlap? : List Range → Option (Range × Range)
  | [] => none
  | r :: rest =>
    match rest.find? fun s => r.Overlaps s with
    | some s => some (r, s)
    | none => firstOverlap? rest

theorem firstOverlap?_eq_none_iff {rs : List Range} :
    firstOverlap? rs = none ↔ rs.Pairwise fun r s => ¬ r.Overlaps s := by
  induction rs with
  | nil => simp [firstOverlap?]
  | cons r rest ih =>
    rw [firstOverlap?, List.pairwise_cons]
    split
    · rename_i s hs
      have hmem := List.mem_of_find?_eq_some hs
      have hover := List.find?_some hs
      simp only [reduceCtorEq, false_iff, not_and]
      exact fun h => absurd (of_decide_eq_true hover) (h s hmem)
    · rename_i hs
      have hall := List.find?_eq_none.mp hs
      simp only [decide_eq_true_eq] at hall
      simp only [ih, iff_and_self]
      exact fun _ => hall

structure Layout where
  regions : List Region
  valid : ∀ r ∈ regions, r.Valid
  disjoint : (regions.flatMap Region.ranges).Pairwise fun r s => ¬ r.Overlaps s

namespace Layout

/-- The first invalid region is reported before any overlap. -/
def ofRegions (regions : List Region) : Except LayoutError Layout :=
  match hvalid : regions.find? fun r => ¬ r.Valid with
  | some r => .error (.invalidRegion r.cachedBase r.size)
  | none =>
    match hdisjoint : firstOverlap? (regions.flatMap Region.ranges) with
    | some (r, s) => .error (.overlap r.base s.base)
    | none => .ok
        { regions
          valid := fun r hr => by simpa using List.find?_eq_none.mp hvalid r hr
          disjoint := firstOverlap?_eq_none_iff.mp hdisjoint }

def gamecube : Layout := ⟨[.gamecube], by decide, by decide⟩

/-- The cell of an address, and how many bytes its region has from there on. -/
def locate? (l : Layout) (a : Word) : Option (Cell × Nat) :=
  l.regions.zipIdx.findSome? fun (r, i) =>
    (r.offset? a).map fun offset => (⟨i, offset⟩, r.size.toNat - offset)

end Layout

end PowerPC
