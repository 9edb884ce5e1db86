import Mathlib.Algebra.Group.Nat.Defs
import Mathlib.Order.CompletePartialOrder
import Mathlib.Order.Interval.Set.Disjoint
import PowerPC.Proofs.RearrangementLaws

/-!
# Accepted region lists

A region list makes a memory exactly if no region is empty or runs past the end of the address
space and no address lies in two ranges. The memory holds the regions in order, all zero. A list
that is refused is refused for its first invalid region, and if there is none for the first pair of
ranges that meet, in lexicographic order.
-/

namespace PowerPC

variable {regions : List Region} {rs : List Range} {r s : Range} {i j : Nat}

-- ---------------------------------------------------------------------------
-- Ranges as sets of addresses
-- ---------------------------------------------------------------------------

/-- The addresses of a range, half open: the end may be the end of the address space. -/
def Range.addresses (r : Range) : Set Nat := Set.Ico r.base.toNat r.stop

def Range.Meets (r s : Range) : Prop := ¬ Disjoint r.addresses s.addresses

theorem Range.overlaps_iff_meets (hr : 0 < r.size) (hs : 0 < s.size) :
    r.Overlaps s ↔ r.Meets s := by
  rw [Meets, addresses, addresses, Set.Ico_disjoint_Ico, Overlaps]
  simp only [stop]
  omega

theorem Region.Valid.size_pos {m : Region} (h : m.Valid) (hr : r ∈ m.ranges) : 0 < r.size := by
  obtain ⟨v, rfl⟩ := Region.mem_ranges.mp hr
  cases v <;> exact h.1

theorem overlaps_iff_meets_of_valid (hvalid : ∀ m ∈ regions, m.Valid)
    (hr : r ∈ regions.flatMap Region.ranges) (hs : s ∈ regions.flatMap Region.ranges) :
    r.Overlaps s ↔ r.Meets s := by
  obtain ⟨m, hm, hr⟩ := List.mem_flatMap.mp hr
  obtain ⟨n, hn, hs⟩ := List.mem_flatMap.mp hs
  exact Range.overlaps_iff_meets ((hvalid m hm).size_pos hr) ((hvalid n hn).size_pos hs)

/-- Every region has a byte and ends inside the address space, and no two ranges meet, those of
one region included. -/
structure SoundMap (regions : List Region) : Prop where
  sized : ∀ r ∈ regions, 1 ≤ r.size.toNat
  cached_fits : ∀ r ∈ regions, r.cachedBase.toNat + r.size.toNat ≤ 2 ^ 32
  uncached_fits : ∀ r ∈ regions, r.uncachedBase.toNat + r.size.toNat ≤ 2 ^ 32
  apart : (regions.flatMap Region.ranges).Pairwise fun r s => Disjoint r.addresses s.addresses

theorem pairwise_not_overlaps_iff (hvalid : ∀ m ∈ regions, m.Valid) :
    ((regions.flatMap Region.ranges).Pairwise fun r s => ¬ r.Overlaps s) ↔
      (regions.flatMap Region.ranges).Pairwise fun r s => Disjoint r.addresses s.addresses := by
  refine List.Pairwise.iff_of_mem fun hr hs => ?_
  rw [overlaps_iff_meets_of_valid hvalid hr hs, Range.Meets, not_not]

theorem soundMap_iff : SoundMap regions ↔ (∀ r ∈ regions, r.Valid) ∧
    (regions.flatMap Region.ranges).Pairwise fun r s => ¬ r.Overlaps s := by
  constructor
  · intro h
    have hvalid : ∀ r ∈ regions, r.Valid := fun r hr =>
      ⟨h.sized r hr, h.cached_fits r hr, h.uncached_fits r hr⟩
    exact ⟨hvalid, (pairwise_not_overlaps_iff hvalid).mpr h.apart⟩
  · rintro ⟨hvalid, hapart⟩
    exact ⟨fun r hr => (hvalid r hr).1, fun r hr => (hvalid r hr).2.1,
      fun r hr => (hvalid r hr).2.2, (pairwise_not_overlaps_iff hvalid).mp hapart⟩

-- ---------------------------------------------------------------------------
-- First offenders
-- ---------------------------------------------------------------------------

/-- The `n`-th region is invalid, and none before it is. -/
structure FirstInvalid (regions : List Region) (n : Nat) (r : Region) : Prop where
  here : regions[n]? = some r
  invalid : ¬ r.Valid
  before : ∀ k < n, ∀ m, regions[k]? = some m → m.Valid

/-- The `i`-th range has the relation to the later `j`-th, and no pair that comes before in
lexicographic order has it. -/
structure FirstPair (P : Range → Range → Prop) (rs : List Range) (i j : Nat) (r s : Range) :
    Prop where
  left : rs[i]? = some r
  right : rs[j]? = some s
  lt : i < j
  holds : P r s
  first : ∀ k l r' s', rs[k]? = some r' → rs[l]? = some s' → k < l → P r' s' →
    i < k ∨ i = k ∧ j ≤ l

theorem find?_invalid_iff {r : Region} :
    regions.find? (fun m => ¬ m.Valid) = some r ↔ ∃ n, FirstInvalid regions n r := by
  rw [List.find?_eq_some_iff_getElem]
  simp only [decide_not, Bool.not_eq_true', decide_eq_false_iff_not, Bool.not_not,
    decide_eq_true_eq]
  constructor
  · rintro ⟨hinvalid, n, hn, rfl, hbefore⟩
    refine ⟨n, List.getElem?_eq_getElem hn, hinvalid, fun k hk m hm => ?_⟩
    obtain ⟨_, rfl⟩ := List.getElem?_eq_some_iff.mp hm
    exact hbefore k hk
  · rintro ⟨n, hhere, hinvalid, hbefore⟩
    obtain ⟨hn, rfl⟩ := List.getElem?_eq_some_iff.mp hhere
    exact ⟨hinvalid, n, hn, rfl, fun k hk => hbefore k hk _ (List.getElem?_eq_getElem _)⟩

namespace FirstPair

variable {P : Range → Range → Prop}

theorem unique {i' j' : Nat} {r' s' : Range} (h : FirstPair P rs i j r s)
    (h' : FirstPair P rs i' j' r' s') : r = r' ∧ s = s' := by
  have hle := h.first _ _ _ _ h'.left h'.right h'.lt h'.holds
  have hge := h'.first _ _ _ _ h.left h.right h.lt h.holds
  obtain rfl : i = i' := by omega
  obtain rfl : j = j' := by omega
  exact ⟨Option.some.inj (h.left.symm.trans h'.left), Option.some.inj (h.right.symm.trans h'.right)⟩

theorem cons {a : Range} (h : FirstPair P rs i j r s) (ha : ∀ b ∈ rs, ¬ P a b) :
    FirstPair P (a :: rs) (i + 1) (j + 1) r s where
  left := h.left
  right := h.right
  lt := Nat.succ_lt_succ h.lt
  holds := h.holds
  first k l r' s' hk hl hlt hP := by
    obtain ⟨l, rfl⟩ := Nat.exists_eq_succ_of_ne_zero (Nat.ne_of_gt (Nat.zero_lt_of_lt hlt))
    cases k with
    | zero =>
      cases hk
      exact absurd hP (ha s' (List.mem_of_getElem? hl))
    | succ k =>
      have hle := h.first k l r' s' hk hl (Nat.lt_of_succ_lt_succ hlt) hP
      omega

theorem congr {Q : Range → Range → Prop} (hPQ : ∀ a ∈ rs, ∀ b ∈ rs, P a b ↔ Q a b) :
    FirstPair P rs i j r s ↔ FirstPair Q rs i j r s := by
  have himp {P Q : Range → Range → Prop} (hPQ : ∀ a ∈ rs, ∀ b ∈ rs, P a b ↔ Q a b)
      (h : FirstPair P rs i j r s) : FirstPair Q rs i j r s :=
    { left := h.left
      right := h.right
      lt := h.lt
      holds := (hPQ _ (List.mem_of_getElem? h.left) _ (List.mem_of_getElem? h.right)).mp h.holds
      first := fun k l r' s' hk hl hlt hQ => h.first k l r' s' hk hl hlt
        ((hPQ _ (List.mem_of_getElem? hk) _ (List.mem_of_getElem? hl)).mpr hQ) }
  exact ⟨himp hPQ, himp fun a ha b hb => (hPQ a ha b hb).symm⟩

end FirstPair

theorem firstOverlap?_sound (h : firstOverlap? rs = some (r, s)) :
    ∃ i j, FirstPair Range.Overlaps rs i j r s := by
  induction rs with
  | nil => cases h
  | cons a rest ih =>
    rw [firstOverlap?] at h
    split at h
    · rename_i b hb
      cases h
      obtain ⟨hover, n, hn, rfl, hbefore⟩ := List.find?_eq_some_iff_getElem.mp hb
      refine ⟨0, n + 1, rfl, List.getElem?_eq_getElem hn, Nat.succ_pos n,
        of_decide_eq_true hover, fun k l r' s' hk hl hlt hP => ?_⟩
      -- The search of the rest stops at the first range that overlaps the head.
      cases k with
      | succ k => exact .inl (Nat.succ_pos k)
      | zero =>
        obtain ⟨l, rfl⟩ := Nat.exists_eq_succ_of_ne_zero (Nat.ne_of_gt hlt)
        obtain ⟨hl, rfl⟩ := List.getElem?_eq_some_iff.mp (show rest[l]? = some s' from hl)
        cases hk
        refine .inr ⟨rfl, Nat.succ_le_succ (Nat.le_of_not_lt fun hlt => ?_)⟩
        simpa [hP] using hbefore l hlt
    · rename_i hnone
      obtain ⟨i, j, hfirst⟩ := ih h
      refine ⟨i + 1, j + 1, hfirst.cons fun b hb => ?_⟩
      simpa using List.find?_eq_none.mp hnone b hb

theorem firstOverlap?_eq_some_iff :
    firstOverlap? rs = some (r, s) ↔ ∃ i j, FirstPair Range.Overlaps rs i j r s := by
  refine ⟨firstOverlap?_sound, fun ⟨i, j, h⟩ => ?_⟩
  cases hfound : firstOverlap? rs with
  | none =>
    have hapart := List.pairwise_iff_getElem.mp (firstOverlap?_eq_none_iff.mp hfound)
    obtain ⟨hi, rfl⟩ := List.getElem?_eq_some_iff.mp h.left
    obtain ⟨hj, rfl⟩ := List.getElem?_eq_some_iff.mp h.right
    exact absurd h.holds (hapart i j hi hj h.lt)
  | some pair =>
    obtain ⟨i', j', h'⟩ := firstOverlap?_sound hfound
    obtain ⟨rfl, rfl⟩ := h.unique h'
    rfl

-- ---------------------------------------------------------------------------
-- Accepted and refused lists
-- ---------------------------------------------------------------------------

theorem Layout.ofRegions_error_iff {e : LayoutError} : ofRegions regions = .error e ↔
    (∃ r, regions.find? (fun m => ¬ m.Valid) = some r ∧ e = .invalidRegion r.cachedBase r.size) ∨
    ((∀ m ∈ regions, m.Valid) ∧ ∃ r s, firstOverlap? (regions.flatMap Region.ranges) = some (r, s) ∧
      e = .overlap r.base s.base) := by
  unfold ofRegions
  split
  · rename_i r hr
    have hinvalid : ¬ r.Valid := by simpa using List.find?_some hr
    constructor
    · intro h
      cases h
      exact .inl ⟨r, hr, rfl⟩
    · rintro (⟨r', hr', rfl⟩ | ⟨hvalid, -⟩)
      · cases hr.symm.trans hr'
        rfl
      · exact absurd (hvalid r (List.mem_of_find?_eq_some hr)) hinvalid
  · rename_i hnone
    have hvalid : ∀ m ∈ regions, m.Valid := fun m hm => by
      simpa using List.find?_eq_none.mp hnone m hm
    split
    · rename_i r s hrs
      constructor
      · intro h
        cases h
        exact .inr ⟨hvalid, r, s, hrs, rfl⟩
      · rintro (⟨r', hr', -⟩ | ⟨-, r', s', hrs', rfl⟩)
        · cases hnone.symm.trans hr'
        · cases hrs.symm.trans hrs'
          rfl
    · rename_i hrs
      constructor
      · nofun
      · rintro (⟨r', hr', -⟩ | ⟨-, r', s', hrs', -⟩)
        · cases hnone.symm.trans hr'
        · cases hrs.symm.trans hrs'

namespace Memory

theorem ofRegions_eq_ok_iff {m : Memory} :
    ofRegions regions = .ok m ↔ ∃ l, Layout.ofRegions regions = .ok l ∧ { layout := l } = m :=
  map_ok

theorem ofRegions_eq_error_iff {e : LayoutError} :
    ofRegions regions = .error e ↔ Layout.ofRegions regions = .error e := map_error

theorem toList_image_fresh (l : Layout) (r : Region) (i : Nat) :
    (image { layout := l } r i).toList = List.replicate r.size.toNat 0 := by
  have hbyte (c : Cell) : byte { layout := l } c = 0 := by
    simp [byte]
  simp only [Image.toList, image, hbyte, List.map_const', List.length_range]

theorem images_fresh (l : Layout) :
    (images { layout := l }).map (fun (r, image) => (r, image.toList)) =
      l.regions.map fun r => (r, List.replicate r.size.toNat 0) := by
  have hfst := List.zipIdx_map_fst 0 l.regions
  conv => rhs; rw [← hfst]
  rw [images, List.map_map, List.map_map]
  simp only [Function.comp_def, toList_image_fresh]

/-- A list of regions is accepted exactly if it is sound, and otherwise refused for what comes
first. -/
theorem ofRegions_accepts_sound (regions : List Region) :
    ((∃ m, ofRegions regions = .ok m) ↔ SoundMap regions) ∧
    (∀ m, ofRegions regions = .ok m →
      m.images.map (fun (r, image) => (r, image.toList)) =
        regions.map fun r => (r, List.replicate r.size.toNat 0)) ∧
    (∀ e, ofRegions regions = .error e ↔
      (∃ n r, FirstInvalid regions n r ∧ e = .invalidRegion r.cachedBase r.size) ∨
      ((∀ r ∈ regions, r.Valid) ∧
        ∃ i j r s, FirstPair Range.Meets (regions.flatMap Region.ranges) i j r s ∧
          e = .overlap r.base s.base)) := by
  refine ⟨?_, fun m hm => ?_, fun e => ?_⟩
  · rw [soundMap_iff, ofRegions_ok_iff, Layout.ofRegions_ok_iff]
  · obtain ⟨l, hl, rfl⟩ := ofRegions_eq_ok_iff.mp hm
    rw [images_fresh, Layout.regions_ofRegions hl]
  · rw [ofRegions_eq_error_iff, Layout.ofRegions_error_iff]
    refine or_congr ?_ (and_congr_right fun hvalid => ?_)
    · simp only [find?_invalid_iff]
      exact ⟨fun ⟨r, ⟨n, h⟩, he⟩ => ⟨n, r, h, he⟩, fun ⟨n, r, h, he⟩ => ⟨r, ⟨n, h⟩, he⟩⟩
    · have hmeets {i j : Nat} {r s : Range} :=
        FirstPair.congr (i := i) (j := j) (r := r) (s := s) fun a ha b hb =>
          overlaps_iff_meets_of_valid hvalid ha hb
      simp only [firstOverlap?_eq_some_iff, hmeets]
      exact ⟨fun ⟨r, s, ⟨i, j, h⟩, he⟩ => ⟨i, j, r, s, h, he⟩,
        fun ⟨i, j, r, s, h, he⟩ => ⟨r, s, ⟨i, j, h⟩, he⟩⟩

/-- The cached alias of the second region begins with the last byte of the first one's. -/
def crossing : List Region := [⟨0x1000, 0x2000, 0x1000⟩, ⟨0x1FFF, 0x3000, 0x1000⟩]

/-- Touching ranges are apart, also at the end of the address space. -/
theorem ofRegions_accepts_sound_touching :
    ofRegions touching.regions = .ok { layout := touching } ∧ SoundMap touching.regions ∧
    (images { layout := touching }).map (fun (r, image) => (r, image.toList)) =
      touching.regions.map (fun r => (r, List.replicate r.size.toNat 0)) ∧
    ofRegions crossing = .error (.overlap 0x1000 0x1FFF) ∧ ¬ SoundMap crossing := by
  obtain ⟨hsound, hzero, -⟩ := ofRegions_accepts_sound touching.regions
  refine ⟨rfl, hsound.mp ⟨_, rfl⟩, hzero _ rfl, rfl, fun h => ?_⟩
  obtain ⟨m, hm⟩ := (ofRegions_accepts_sound crossing).1.mpr h
  cases hm

end Memory

end PowerPC
