import PowerPC.Memory.Basic

/-!
# Addresses and cells

An address lies in one alias of one region at most, and so denotes one cell at most. The search
of a layout finds that cell if there is one, and a run of bytes is located if it ends where the
alias of its first byte ends, or before.
-/

namespace PowerPC

inductive Alias where
  | cached | uncached
deriving DecidableEq, Repr

def Region.range (r : Region) : Alias → Range
  | .cached => r.cached
  | .uncached => r.uncached

/-- The address lies in the alias `v` of the region `r`, which is the `n`-th. -/
def LiesIn (regions : List Region) (a : Word) (n : Nat) (r : Region) (v : Alias) : Prop :=
  regions[n]? = some r ∧ (r.range v).Contains a

/-- The address stands for the cell, through one alias or the other. -/
def Denotes (regions : List Region) (a : Word) (c : Cell) : Prop :=
  ∃ r v, LiesIn regions a c.region r v ∧ a.toNat = (r.range v).base.toNat + c.offset

/-- The alias in which the address lies has `length` bytes from there on. -/
def Fits (regions : List Region) (a : Word) (length : Nat) : Prop :=
  ∃ n r v, LiesIn regions a n r v ∧ a.toNat + length ≤ (r.range v).stop

def SameCell (regions : List Region) (a b : Word) : Prop :=
  ∃ c, Denotes regions a c ∧ Denotes regions b c

variable {a b : Word} {c d : Cell} {length : Nat}

-- ---------------------------------------------------------------------------
-- Ranges
-- ---------------------------------------------------------------------------

theorem Range.overlaps_of_contains {r s : Range} (hr : r.Contains a) (hs : s.Contains a) :
    r.Overlaps s :=
  ⟨Nat.lt_of_le_of_lt hr.1 hs.2, Nat.lt_of_le_of_lt hs.1 hr.2⟩

namespace Region

theorem mem_ranges {r : Region} {s : Range} : s ∈ r.ranges ↔ ∃ v, s = r.range v := by
  constructor
  · intro h
    simp only [ranges, List.mem_cons, List.not_mem_nil, or_false] at h
    rcases h with rfl | rfl
    · exact ⟨.cached, rfl⟩
    · exact ⟨.uncached, rfl⟩
  · rintro ⟨v, rfl⟩
    cases v <;> simp [range, ranges]

theorem range_mem_ranges (r : Region) (v : Alias) : r.range v ∈ r.ranges := mem_ranges.mpr ⟨v, rfl⟩

theorem stop_range (r : Region) (v : Alias) :
    (r.range v).stop = (r.range v).base.toNat + r.size.toNat := by
  cases v <;> rfl

theorem Valid.stop_le {r : Region} (h : r.Valid) (v : Alias) : (r.range v).stop ≤ 0x100000000 := by
  cases v
  · exact h.2.1
  · exact h.2.2

theorem offset?_sound {r : Region} {offset : Nat} (h : r.offset? a = some offset) :
    ∃ v, (r.range v).Contains a ∧ a.toNat = (r.range v).base.toNat + offset := by
  obtain ⟨s, hs, rfl⟩ := Option.map_eq_some_iff.mp h
  have hin : s.Contains a := by simpa using List.find?_some hs
  obtain ⟨v, rfl⟩ := mem_ranges.mp (List.mem_of_find?_eq_some hs)
  have hle := hin.1
  exact ⟨v, hin, by omega⟩

theorem offset?_isSome {r : Region} {v : Alias} (h : (r.range v).Contains a) :
    (r.offset? a).isSome := by
  rw [offset?, Option.isSome_map, List.find?_isSome]
  exact ⟨r.range v, r.range_mem_ranges v, by simpa using h⟩

end Region

-- ---------------------------------------------------------------------------
-- One alias for an address
-- ---------------------------------------------------------------------------

namespace Layout

variable (l : Layout)

theorem alias_unique {n m : Nat} {r s : Region} {v w : Alias} (hr : LiesIn l.regions a n r v)
    (hs : LiesIn l.regions a m s w) : n = m ∧ v = w := by
  obtain ⟨hr, hra⟩ := hr
  obtain ⟨hs, hsa⟩ := hs
  have hover := Range.overlaps_of_contains hra hsa
  obtain ⟨hinner, houter⟩ := List.pairwise_flatMap.mp l.disjoint
  obtain ⟨hn, rfl⟩ := List.getElem?_eq_some_iff.mp hr
  obtain ⟨hm, rfl⟩ := List.getElem?_eq_some_iff.mp hs
  rw [List.pairwise_iff_getElem] at houter
  rcases Nat.lt_trichotomy n m with hlt | rfl | hlt
  · exact absurd hover
      (houter n m hn hm hlt _ (Region.range_mem_ranges _ v) _ (Region.range_mem_ranges _ w))
  · have hpair : ¬ l.regions[n].cached.Overlaps l.regions[n].uncached := by
      simpa [Region.ranges] using hinner _ (List.getElem_mem hn)
    cases v <;> cases w
    · exact ⟨rfl, rfl⟩
    · exact absurd hover hpair
    · exact absurd hover.symm hpair
    · exact ⟨rfl, rfl⟩
  · exact absurd hover.symm
      (houter m n hm hn hlt _ (Region.range_mem_ranges _ w) _ (Region.range_mem_ranges _ v))

theorem liesIn_unique {n m : Nat} {r s : Region} {v w : Alias} (hr : LiesIn l.regions a n r v)
    (hs : LiesIn l.regions a m s w) : n = m ∧ r = s ∧ v = w := by
  obtain ⟨rfl, rfl⟩ := l.alias_unique hr hs
  have heq := hr.1.symm.trans hs.1
  exact ⟨rfl, Option.some.inj heq, rfl⟩

theorem denotes_unique (hc : Denotes l.regions a c) (hd : Denotes l.regions a d) : c = d := by
  obtain ⟨r, v, hr, hoff⟩ := hc
  obtain ⟨s, w, hs, hoff'⟩ := hd
  obtain ⟨hregion, rfl, rfl⟩ := l.liesIn_unique hr hs
  cases c
  cases d
  simp only [Cell.mk.injEq] at hregion hoff hoff' ⊢
  exact ⟨hregion, by omega⟩

theorem sameCell_iff (hc : Denotes l.regions a c) (hd : Denotes l.regions b d) :
    SameCell l.regions a b ↔ c = d := by
  constructor
  · rintro ⟨e, he, he'⟩
    rw [l.denotes_unique hc he, l.denotes_unique hd he']
  · rintro rfl
    exact ⟨c, hc, hd⟩

/-- An alias runs through its region byte by byte, and never past the end of the address space. -/
theorem denotes_add (hc : Denotes l.regions a c) (hfit : Fits l.regions a length) {j : Nat}
    (hj : j < length) : Denotes l.regions (a + BitVec.ofNat 32 j) (c.advance j) := by
  obtain ⟨r, v, hr, hoff⟩ := hc
  obtain ⟨n, s, w, hs, hstop⟩ := hfit
  obtain ⟨-, rfl, rfl⟩ := l.liesIn_unique hr hs
  have hend := (l.valid r (List.mem_of_getElem? hr.1)).stop_le v
  have hlow := hr.2.1
  have hadd : (a + BitVec.ofNat 32 j).toNat = a.toNat + j := by bv_omega
  refine ⟨r, v, ⟨hr.1, ?_⟩, ?_⟩
  · exact ⟨by omega, by omega⟩
  · simp only [hadd, Cell.advance]
    omega

theorem room_of_fits {r : Region} (hc : Denotes l.regions a c) (hfit : Fits l.regions a length)
    (hr : l.regions[c.region]? = some r) : c.offset + length ≤ r.size.toNat := by
  obtain ⟨s, v, hs, hoff⟩ := hc
  obtain ⟨i, r', w, hin, hend⟩ := hfit
  obtain ⟨rfl, rfl, rfl⟩ := l.liesIn_unique hs hin
  obtain rfl : r = s := Option.some.inj (hr.symm.trans hs.1)
  have hstop := r.stop_range v
  omega

theorem fits_of_sameCell (h : SameCell l.regions b a) (hfit : Fits l.regions a length) :
    Fits l.regions b length := by
  obtain ⟨c, ⟨r, v, hb, hoff⟩, hc⟩ := h
  have hroom := l.room_of_fits hc hfit hb.1
  have hstop := r.stop_range v
  exact ⟨c.region, r, v, hb, by omega⟩

theorem fits_part (h : Fits l.regions a length) {k n : Nat} (hk : k < length)
    (hn : k + n ≤ length) : Fits l.regions (a + BitVec.ofNat 32 k) n := by
  obtain ⟨i, r, v, hin, hend⟩ := h
  have hstop := (l.valid r (List.mem_of_getElem? hin.1)).stop_le v
  have hlow := hin.2.1
  have hadd : (a + BitVec.ofNat 32 k).toNat = a.toNat + k := by bv_omega
  exact ⟨i, r, v, ⟨hin.1, by omega, by omega⟩, by omega⟩

-- ---------------------------------------------------------------------------
-- The search
-- ---------------------------------------------------------------------------

theorem locate?_sound {room : Nat} (h : l.locate? a = some (c, room)) :
    ∃ r v, LiesIn l.regions a c.region r v ∧ a.toNat = (r.range v).base.toNat + c.offset ∧
      room = r.size.toNat - c.offset := by
  obtain ⟨⟨r, n⟩, hmem, hsome⟩ := List.exists_of_findSome?_eq_some h
  obtain ⟨offset, hoffset, heq⟩ := Option.map_eq_some_iff.mp hsome
  cases heq
  obtain ⟨v, hin, hoff⟩ := Region.offset?_sound hoffset
  exact ⟨r, v, ⟨List.mk_mem_zipIdx_iff_getElem?.mp hmem, hin⟩, hoff, rfl⟩

theorem locate?_isSome {n : Nat} {r : Region} {v : Alias} (h : LiesIn l.regions a n r v) :
    (l.locate? a).isSome := by
  rw [locate?, List.findSome?_isSome_iff]
  refine ⟨(r, n), List.mk_mem_zipIdx_iff_getElem?.mpr h.1, ?_⟩
  rw [Option.isSome_map]
  exact Region.offset?_isSome h.2

end Layout

namespace Memory

variable {m : Memory}

theorem locate_sound (h : m.locate a length = .ok c) :
    Denotes m.layout.regions a c ∧ Fits m.layout.regions a length := by
  unfold locate at h
  split at h
  · rename_i cell room hfound
    split at h
    · rename_i hroom
      cases h
      obtain ⟨r, v, hin, hoff, rfl⟩ := m.layout.locate?_sound hfound
      have hstop := r.stop_range v
      have hlow := hin.2.2
      exact ⟨⟨r, v, hin, hoff⟩, c.region, r, v, hin, by omega⟩
    · cases h
  · cases h

theorem locate_complete (hc : Denotes m.layout.regions a c)
    (hfit : Fits m.layout.regions a length) : m.locate a length = .ok c := by
  obtain ⟨n, r, v, hin, hend⟩ := hfit
  obtain ⟨⟨d, room⟩, hfound⟩ := Option.isSome_iff_exists.mp (m.layout.locate?_isSome hin)
  obtain ⟨s, w, hs, hoff, rfl⟩ := m.layout.locate?_sound hfound
  obtain rfl := m.layout.denotes_unique hc ⟨s, w, hs, hoff⟩
  obtain ⟨rfl, rfl, rfl⟩ := m.layout.liesIn_unique hin hs
  have hstop := r.stop_range v
  simp only [locate, hfound]
  rw [if_pos (by omega)]

theorem locate_eq_ok_iff : m.locate a length = .ok c ↔
    Denotes m.layout.regions a c ∧ Fits m.layout.regions a length :=
  ⟨locate_sound, fun h => locate_complete h.1 h.2⟩

theorem locate_fault {f : AccessFault} (h : m.locate a length = .error f) :
    f = .outOfBounds a length := by
  unfold locate at h
  split at h
  · split at h
    · cases h
    · cases h
      rfl
  · cases h
    rfl

end Memory

theorem Fits.denotes {regions : List Region} (h : Fits regions a length) :
    ∃ c, Denotes regions a c := by
  obtain ⟨n, r, v, hin, -⟩ := h
  have hlow := hin.2.1
  exact ⟨⟨n, a.toNat - (r.range v).base.toNat⟩, r, v, hin, by simp only; omega⟩

theorem Fits.mono {regions : List Region} {n : Nat} (h : Fits regions a length) (hn : n ≤ length) :
    Fits regions a n := by
  obtain ⟨i, r, v, hin, hend⟩ := h
  exact ⟨i, r, v, hin, by omega⟩

end PowerPC
