import Mathlib.Data.List.Perm.Basic
import PowerPC.Proofs.MemoryLaws

/-!
# Rearranged layouts

Neither the order of a region list nor which alias of a region is the cached one matters to
accesses: a rearranged list is accepted like the first, and an address stands for the same byte of
the same region. Further regions change nothing for the addresses that there were before.
-/

namespace PowerPC

-- ---------------------------------------------------------------------------
-- Regions
-- ---------------------------------------------------------------------------

namespace Region

def exchange (r : Region) : Region := ⟨r.uncachedBase, r.cachedBase, r.size⟩

def SamePlaces (r s : Region) : Prop := s = r ∨ s = r.exchange

namespace SamePlaces

variable {r s : Region}

theorem symm (h : r.SamePlaces s) : s.SamePlaces r := by
  rcases h with rfl | rfl
  · exact .inl rfl
  · exact .inr rfl

theorem size_eq (h : r.SamePlaces s) : s.size = r.size := by
  rcases h with rfl | rfl <;> rfl

theorem perm_ranges (h : r.SamePlaces s) : r.ranges.Perm s.ranges := by
  rcases h with rfl | rfl
  · exact .refl _
  · exact .swap ..

theorem valid (h : r.SamePlaces s) (hr : r.Valid) : s.Valid := by
  rcases h with rfl | rfl
  · exact hr
  · exact ⟨hr.1, hr.2.2, hr.2.1⟩

theorem exists_range_eq (h : r.SamePlaces s) (v : Alias) : ∃ w, s.range w = r.range v :=
  (mem_ranges.mp (h.perm_ranges.mem_iff.mp (r.range_mem_ranges v))).imp fun _ => Eq.symm

end SamePlaces

end Region

-- ---------------------------------------------------------------------------
-- Region lists
-- ---------------------------------------------------------------------------

/-- The second list is the first one in another order, with the aliases of any regions exchanged. -/
def Rearranges (R R' : List Region) : Prop :=
  ∃ S, R.Perm S ∧ List.Forall₂ Region.SamePlaces S R'

variable {R R' : List Region}

namespace Rearranges

theorem symm (h : Rearranges R R') : Rearranges R' R := by
  obtain ⟨S, hperm, hplaces⟩ := h
  obtain ⟨T, hT, hperm⟩ := List.perm_comp_forall₂ hperm hplaces
  exact ⟨T, hperm.symm, List.Forall₂.flip (hT.imp fun _ _ => Region.SamePlaces.symm)⟩

theorem exists_mem (h : Rearranges R R') {r : Region} (hr : r ∈ R) : ∃ s ∈ R', r.SamePlaces s := by
  obtain ⟨S, hperm, hplaces⟩ := h
  replace hr := hperm.mem_iff.mp hr
  clear hperm
  induction hplaces with
  | nil => cases hr
  | cons hrs _ ih =>
    cases hr with
    | head => exact ⟨_, List.mem_cons_self, hrs⟩
    | tail _ hr =>
      obtain ⟨s, hs, hrs⟩ := ih hr
      exact ⟨s, List.mem_cons_of_mem _ hs, hrs⟩

theorem perm_ranges (h : Rearranges R R') :
    (R.flatMap Region.ranges).Perm (R'.flatMap Region.ranges) := by
  obtain ⟨S, hperm, hplaces⟩ := h
  refine (hperm.flatMap_right _).trans ?_
  clear hperm
  induction hplaces with
  | nil => exact .refl _
  | cons hrs _ ih => exact hrs.perm_ranges.append ih

end Rearranges

theorem Layout.ofRegions_ok_iff : (∃ l, ofRegions R = .ok l) ↔
    (∀ r ∈ R, r.Valid) ∧ (R.flatMap Region.ranges).Pairwise fun r s => ¬ r.Overlaps s := by
  constructor
  · rintro ⟨l, hl⟩
    exact regions_ofRegions hl ▸ ⟨l.valid, l.disjoint⟩
  · rintro ⟨hvalid, hdisjoint⟩
    unfold ofRegions
    split
    · rename_i r hr
      have hinvalid := List.find?_some hr
      exact absurd (hvalid r (List.mem_of_find?_eq_some hr)) (by simpa using hinvalid)
    · split
      · rename_i heq
        rw [firstOverlap?_eq_none_iff.mpr hdisjoint] at heq
        cases heq
      · exact ⟨_, rfl⟩

theorem Memory.ofRegions_ok_iff :
    (∃ m, ofRegions R = .ok m) ↔ ∃ l, Layout.ofRegions R = .ok l := by
  constructor
  · rintro ⟨m, hm⟩
    obtain ⟨l, hl, -⟩ := map_ok.mp hm
    exact ⟨l, hl⟩
  · rintro ⟨l, hl⟩
    exact ⟨_, map_ok.mpr ⟨l, hl, rfl⟩⟩

theorem Rearranges.accepted (h : Rearranges R R') (hR : ∃ m, Memory.ofRegions R = .ok m) :
    ∃ m, Memory.ofRegions R' = .ok m := by
  rw [Memory.ofRegions_ok_iff, Layout.ofRegions_ok_iff] at hR ⊢
  obtain ⟨hvalid, hdisjoint⟩ := hR
  refine ⟨fun s hs => ?_, h.perm_ranges.pairwise hdisjoint fun hover hback => hover hback.symm⟩
  obtain ⟨r, hr, hsr⟩ := h.symm.exists_mem hs
  exact hsr.symm.valid (hvalid r hr)

-- ---------------------------------------------------------------------------
-- Corresponding regions
-- ---------------------------------------------------------------------------

def Corresponds (R R' : List Region) (i j : Nat) : Prop :=
  ∃ r s, R[i]? = some r ∧ R'[j]? = some s ∧ r.SamePlaces s

def Embeds (R R' : List Region) : Prop := ∀ i r, R[i]? = some r → ∃ j, Corresponds R R' i j

theorem Corresponds.symm {i j : Nat} (h : Corresponds R R' i j) : Corresponds R' R j i := by
  obtain ⟨r, s, hr, hs, hrs⟩ := h
  exact ⟨s, r, hs, hr, hrs.symm⟩

theorem Rearranges.embeds (h : Rearranges R R') : Embeds R R' := by
  intro i r hr
  obtain ⟨s, hs, hrs⟩ := h.exists_mem (List.mem_of_getElem? hr)
  obtain ⟨j, hj⟩ := List.getElem?_of_mem hs
  exact ⟨j, r, s, hr, hj, hrs⟩

theorem Embeds.of_append {extra : List Region} (h : Embeds (R ++ extra) R') : Embeds R R' := by
  intro i r hr
  have hi : i < R.length := (List.getElem?_eq_some_iff.mp hr).1
  obtain ⟨j, r', s, hr', hs, hrs⟩ := h i r (by rw [List.getElem?_append_left hi, hr])
  rw [List.getElem?_append_left hi] at hr'
  exact ⟨j, r', s, hr', hs, hrs⟩

variable {a : Word} {c : Cell} {i j k n : Nat}

theorem LiesIn.mirror {r s : Region} {v : Alias} (h : LiesIn R a i r v) (hs : R'[j]? = some s)
    (hrs : r.SamePlaces s) : ∃ w, LiesIn R' a j s w ∧ s.range w = r.range v := by
  obtain ⟨w, hw⟩ := hrs.exists_range_eq v
  exact ⟨w, ⟨hs, hw ▸ h.2⟩, hw⟩

/-- A region that is not empty has one counterpart, since some address lies in it. -/
theorem Layout.corresponds_unique (l : Layout) (hj : Corresponds R l.regions i j)
    (hk : Corresponds R l.regions i k) : j = k := by
  obtain ⟨r, s, hr, hs, hrs⟩ := hj
  obtain ⟨r', t, hr', ht, hrt⟩ := hk
  obtain rfl : r = r' := Option.some.inj (hr.symm.trans hr')
  have hvalid := l.valid s (List.mem_of_getElem? hs)
  have hlies : LiesIn R r.cachedBase i r .cached := by
    have hpos : 0 < r.size.toNat := hrs.size_eq ▸ hvalid.1
    exact ⟨hr, Nat.le_refl _, Nat.lt_add_of_pos_right hpos⟩
  obtain ⟨v, hv, -⟩ := hlies.mirror hs hrs
  obtain ⟨w, hw, -⟩ := hlies.mirror ht hrt
  exact (l.alias_unique hv hw).1

theorem not_corresponds_of_extra {extra : List Region} {s : Region}
    (h : Rearranges (R ++ extra) R') (hR' : ∃ m, Memory.ofRegions R' = .ok m) (hs : R'[j]? = some s)
    (hextra : ∃ e ∈ extra, e.SamePlaces s) : ¬ Corresponds R R' i j := by
  rintro ⟨r, s', hr, hs', hrs⟩
  obtain rfl : s = s' := Option.some.inj (hs.symm.trans hs')
  obtain ⟨l, hl⟩ := Memory.ofRegions_ok_iff.mp (h.symm.accepted hR')
  have hregions := Layout.regions_ofRegions hl
  obtain ⟨e, he, hes⟩ := hextra
  obtain ⟨k, hk⟩ := List.getElem?_of_mem he
  have hi : i < R.length := (List.getElem?_eq_some_iff.mp hr).1
  have hfirst : Corresponds R' l.regions j i :=
    ⟨s, r, hs, by rw [hregions, List.getElem?_append_left hi, hr], hrs.symm⟩
  have hsecond : Corresponds R' l.regions j (R.length + k) :=
    ⟨s, e, hs, by rw [hregions, List.getElem?_append_right (Nat.le_add_right ..),
      Nat.add_sub_cancel_left, hk], hes.symm⟩
  have heq := l.corresponds_unique hfirst hsecond
  omega

theorem Denotes.mirror (h : Denotes R a c) (hc : Corresponds R R' c.region j) :
    Denotes R' a ⟨j, c.offset⟩ := by
  obtain ⟨r, v, hin, hoff⟩ := h
  obtain ⟨r', s, hr', hs, hrs⟩ := hc
  obtain rfl : r = r' := Option.some.inj (hin.1.symm.trans hr')
  obtain ⟨w, hw, hrange⟩ := hin.mirror hs hrs
  exact ⟨s, w, hw, by rwa [hrange]⟩

theorem Fits.mirror (h : Fits R a n) (hembeds : Embeds R R') : Fits R' a n := by
  obtain ⟨i, r, v, hin, hend⟩ := h
  obtain ⟨j, r', s, hr', hs, hrs⟩ := hembeds i r hin.1
  obtain rfl : r = r' := Option.some.inj (hin.1.symm.trans hr')
  obtain ⟨w, hw, hrange⟩ := hin.mirror hs hrs
  exact ⟨j, s, w, hw, by rwa [hrange]⟩

-- ---------------------------------------------------------------------------
-- Memories over corresponding regions
-- ---------------------------------------------------------------------------

namespace Memory

structure SameContents (R R' : List Region) (m m' : Memory) : Prop where
  regions : m.layout.regions = R
  regions' : m'.layout.regions = R'
  contents : ∀ i j r, R[i]? = some r → Corresponds R R' i j → ∀ offset < r.size.toNat,
    m'.byte ⟨j, offset⟩ = m.byte ⟨i, offset⟩

/-- Besides, the regions without counterpart hold the bytes `rest`. -/
structure Mirrors (R R' : List Region) (rest : Cell → Byte) (m m' : Memory) : Prop
    extends SameContents R R' m m' where
  rest : ∀ j, (∀ i, ¬ Corresponds R R' i j) → ∀ offset, m'.byte ⟨j, offset⟩ = rest ⟨j, offset⟩

variable {rest : Cell → Byte} {m m' t : Memory} {bytes : List Byte} {r : Region}
  {f : AccessFault}

theorem Mirrors.read_ok (h : Mirrors R R' rest m m') (hembeds : Embeds R R')
    (hread : m.read a n = .ok bytes) : m'.read a n = .ok bytes := by
  obtain ⟨⟨rfl, rfl, hcontents⟩, -⟩ := h
  obtain ⟨c, hc, hfit, rfl⟩ := read_eq_ok_iff.mp hread
  obtain ⟨r, v, hin, -⟩ := id hc
  obtain ⟨j, hj⟩ := hembeds c.region r hin.1
  refine read_eq_ok_iff.mpr ⟨⟨j, c.offset⟩, hc.mirror hj, hfit.mirror hembeds, ?_⟩
  have hroom := m.layout.room_of_fits hc hfit hin.1
  refine List.map_congr_left fun k hk => ?_
  have hk := List.mem_range.mp hk
  exact (hcontents _ _ r hin.1 hj _ (by omega)).symm

theorem Mirrors.write_ok (h : Mirrors R R' rest m m') (hembeds : Embeds R R')
    (hwrite : m.write a bytes = .ok t) :
    ∃ t', m'.write a bytes = .ok t' ∧ Mirrors R R' rest t t' := by
  obtain ⟨⟨rfl, rfl, hcontents⟩, hrest⟩ := h
  obtain ⟨c, hc, hfit, rfl⟩ := write_eq_ok_iff.mp hwrite
  obtain ⟨r, v, hin, -⟩ := id hc
  obtain ⟨j, hj⟩ := hembeds c.region r hin.1
  refine ⟨m'.store ⟨j, c.offset⟩ bytes,
    write_eq_ok_iff.mpr ⟨_, hc.mirror hj, hfit.mirror hembeds, rfl⟩, ⟨?_, ?_, ?_⟩, ?_⟩
  · rw [layout_store]
  · rw [layout_store]
  · intro i k s hs hik offset hoffset
    -- One of the two regions is written exactly if the other is.
    have hwritten : k = j ↔ i = c.region := by
      constructor
      · rintro rfl
        exact m.layout.corresponds_unique hik.symm hj.symm
      · rintro rfl
        exact m'.layout.corresponds_unique hik hj
    simp only [byte_store, hwritten, hcontents i k s hs hik offset hoffset]
  · intro k hk offset
    rw [byte_store, if_neg, hrest k hk]
    rintro ⟨rfl, -⟩
    exact hk _ hj

theorem Mirrors.read_error (h : Mirrors R R' rest m m') (hback : Embeds R' R)
    (hread : m.read a n = .error f) : m'.read a n = .error f := by
  obtain ⟨⟨rfl, rfl, -⟩, -⟩ := h
  cases hread' : m'.read a n with
  | ok bytes =>
    -- What can be read there could be read here.
    obtain ⟨bytes', hok⟩ := read_ok_iff.mpr ((read_ok_iff.mp ⟨_, hread'⟩).mirror hback)
    rw [hread] at hok
    cases hok
  | error g => rw [read_fault hread, read_fault hread']

theorem Mirrors.write_error (h : Mirrors R R' rest m m') (hback : Embeds R' R)
    (hwrite : m.write a bytes = .error f) : m'.write a bytes = .error f := by
  obtain ⟨⟨rfl, rfl, -⟩, -⟩ := h
  cases hwrite' : m'.write a bytes with
  | ok t' =>
    obtain ⟨t, hok⟩ := write_ok_iff.mpr ((write_ok_iff.mp ⟨_, hwrite'⟩).mirror hback)
    rw [hwrite] at hok
    cases hok
  | error g => rw [write_fault hwrite, write_fault hwrite']

end Memory

end PowerPC
