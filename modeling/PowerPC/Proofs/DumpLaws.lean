import Mathlib.Algebra.Group.Nat.Defs
import Mathlib.Logic.Function.Basic
import PowerPC.Proofs.MemoryLaws
import PowerPC.Proofs.NumeralLaws

/-!
# Dumps lose nothing

No two regions share a cached base, and a file is named by the digits of that, so no file of a dump
replaces another. What a directory has under the name of a region is then the region's contents, as
they are read through either alias.
-/

namespace PowerPC

variable {n k : Nat} {r : Region}

-- ---------------------------------------------------------------------------
-- File names
-- ---------------------------------------------------------------------------

namespace Numeral

def hexDigits : List Char :=
  ['0', '1', '2', '3', '4', '5', '6', '7', '8', '9', 'a', 'b', 'c', 'd', 'e', 'f']

theorem digitChar_mem_hexDigits (h : n < 16) : n.digitChar ∈ hexDigits := by
  have hall : ∀ d < 16, Nat.digitChar d ∈ hexDigits := by decide
  exact hall n h

theorem toDigits_mem_hexDigits : ∀ c ∈ Nat.toDigits 16 n, c ∈ hexDigits := by
  refine toDigits_induction (P := fun _ digits => ∀ c ∈ digits, c ∈ hexDigits) (by decide) ?_ ?_
  · intro n h
    simpa using digitChar_mem_hexDigits h
  · intro n digits _ ih c hc
    rcases List.mem_append.mp hc with hc | hc
    · exact ih c hc
    · rw [List.mem_singleton.mp hc]
      exact digitChar_mem_hexDigits (Nat.mod_lt _ (by decide))

theorem padded_mem_hexDigits : ∀ c ∈ (padded 16 k n).toList, c ∈ hexDigits := by
  intro c hc
  rw [toList_padded, List.mem_append, List.mem_replicate] at hc
  rcases hc with ⟨-, rfl⟩ | hc
  · decide
  · exact toDigits_mem_hexDigits c hc

theorem length_padded {base : Nat} (hbase : 1 < base) (hk : 0 < k) (h : n < base ^ k) :
    (padded base k n).toList.length = k := by
  have hdigits : (Nat.toDigits base n).length ≤ k := (Nat.length_toDigits_le_iff hbase hk).mpr h
  rw [toList_padded, List.length_append, List.length_replicate]
  omega

end Numeral

/-- Eight lowercase digits that stand for the address, and the ending of a dump. -/
def NamesAddress (name : String) (a : Word) : Prop :=
  ∃ digits : List Char, name = String.ofList digits ++ ".bin" ∧ digits.length = 8 ∧
    (∀ c ∈ digits, c ∈ Numeral.hexDigits) ∧ Numeral.value 16 digits = a.toNat

theorem Region.fileName_namesAddress (r : Region) : NamesAddress r.fileName r.cachedBase := by
  refine ⟨(Numeral.padded 16 8 r.cachedBase.toNat).toList, ?_, ?_, Numeral.padded_mem_hexDigits, ?_⟩
  · rw [String.ofList_toList]
    rfl
  · exact Numeral.length_padded (by decide) (by decide) r.cachedBase.isLt
  · exact Numeral.value_padded (by decide) (by decide)

theorem Region.fileName_inj {s : Region} :
    r.fileName = s.fileName ↔ r.cachedBase = s.cachedBase := by
  rw [fileName, fileName, String.append_left_inj, Numeral.padded_inj (by decide) (by decide),
    BitVec.toNat_inj]

theorem Layout.liesIn_base (l : Layout) (h : l.regions[n]? = some r) (v : Alias) :
    LiesIn l.regions (r.range v).base n r v := by
  have hpos := (l.valid r (List.mem_of_getElem? h)).1
  have hstop := r.stop_range v
  exact ⟨h, Nat.le_refl _, by omega⟩

theorem Layout.nodup_fileNames (l : Layout) : (l.regions.map Region.fileName).Nodup := by
  rw [List.Nodup, List.pairwise_map, List.pairwise_iff_getElem]
  intro i j hi hj hlt hsame
  have hbase : l.regions[j].cachedBase = l.regions[i].cachedBase :=
    (Region.fileName_inj.mp hsame).symm
  have hfirst := l.liesIn_base (List.getElem?_eq_getElem hi) .cached
  have hsecond : LiesIn l.regions l.regions[j].cachedBase j l.regions[j] .cached :=
    l.liesIn_base (List.getElem?_eq_getElem hj) .cached
  rw [hbase] at hsecond
  exact absurd (l.alias_unique hfirst hsecond).1 (by omega)

-- ---------------------------------------------------------------------------
-- Directories
-- ---------------------------------------------------------------------------

abbrev Directory := String → Option (List Byte)

namespace Directory

/-- Write the files one after the other; one that is there already is replaced. -/
def writeAll (d : Directory) (files : List (String × Image)) : Directory :=
  files.foldl (fun d f => Function.update d f.1 (some f.2.toList)) d

variable {d : Directory} {files : List (String × Image)} {name : String} {image : Image}

theorem writeAll_of_notMem (h : name ∉ files.map Prod.fst) : d.writeAll files name = d name := by
  induction files generalizing d with
  | nil => rfl
  | cons f files ih =>
    rw [List.map_cons, List.mem_cons, not_or] at h
    rw [writeAll, List.foldl_cons]
    exact (ih h.2).trans (Function.update_of_ne h.1 _ _)

theorem writeAll_of_mem (hnodup : (files.map Prod.fst).Nodup) (h : (name, image) ∈ files) :
    d.writeAll files name = some image.toList := by
  induction files generalizing d with
  | nil => cases h
  | cons f files ih =>
    rw [List.map_cons, List.nodup_cons] at hnodup
    rw [writeAll, List.foldl_cons]
    rcases List.mem_cons.mp h with rfl | h
    -- No file behind it has the name of the first.
    · exact (writeAll_of_notMem hnodup.1).trans (Function.update_self _ _ _)
    · exact ih hnodup.2 h

end Directory

-- ---------------------------------------------------------------------------
-- Contents
-- ---------------------------------------------------------------------------

namespace Memory

variable {m : Memory} {regions : List Region}

theorem map_fst_dump (m : Memory) : m.dump.map Prod.fst = m.layout.regions.map Region.fileName := by
  have hfst := List.zipIdx_map_fst 0 m.layout.regions
  simp only [dump, images, List.map_map, Function.comp_def]
  conv => rhs; rw [← hfst, List.map_map]
  rfl

theorem mem_dump (h : m.layout.regions[n]? = some r) : (r.fileName, m.image r n) ∈ m.dump := by
  refine List.mem_map.mpr ⟨(r, m.image r n), List.mem_map.mpr ⟨(r, n), ?_, rfl⟩, rfl⟩
  exact List.mk_mem_zipIdx_iff_getElem?.mpr h

theorem read_region (h : m.layout.regions[n]? = some r) (v : Alias) :
    m.read (r.range v).base r.size.toNat = .ok (m.image r n).toList := by
  have hin := m.layout.liesIn_base h v
  have hfit : Fits m.layout.regions (r.range v).base r.size.toNat :=
    ⟨n, r, v, hin, Nat.le_of_eq (r.stop_range v).symm⟩
  refine read_eq_ok_iff.mpr ⟨⟨n, 0⟩, ⟨r, v, hin, rfl⟩, hfit, ?_⟩
  simp [Image.toList, image, Cell.advance]

/-- A dump of memory over a list of regions, whatever was written to it, puts one file for each
region into a directory, and all that can be read of the region is in its file. -/
theorem dump_loses_nothing (h : ofRegions regions = .ok m) (cs : List Change) (d : Directory) :
    let u := m.afterAll cs
    (∀ place, place ≠ .file → u.dumpInto place = .ok u.dump) ∧
    u.dump.map Prod.fst = regions.map Region.fileName ∧
    (regions.map Region.fileName).Nodup ∧
    (∀ r ∈ regions, NamesAddress r.fileName r.cachedBase) ∧
    (∀ r ∈ regions, ∃ bytes, d.writeAll u.dump r.fileName = some bytes ∧
      bytes.length = r.size.toNat ∧ u.read r.cachedBase r.size.toNat = .ok bytes ∧
      u.read r.uncachedBase r.size.toNat = .ok bytes) ∧
    ∀ name, name ∉ regions.map Region.fileName → d.writeAll u.dump name = d name := by
  intro u
  have hregions : u.layout.regions = regions := by rw [layout_afterAll, regions_ofRegions h]
  have hnames : u.dump.map Prod.fst = regions.map Region.fileName := hregions ▸ u.map_fst_dump
  have hnodup : (regions.map Region.fileName).Nodup := hregions ▸ u.layout.nodup_fileNames
  refine ⟨fun place hplace => ?_, hnames, hnodup, fun r _ => r.fileName_namesAddress,
    fun r hr => ?_, fun name hname => Directory.writeAll_of_notMem (hnames ▸ hname)⟩
  · cases place with
    | file => exact absurd rfl hplace
    | free | directory => rfl
  · obtain ⟨n, hn⟩ := List.mem_iff_getElem?.mp hr
    rw [← hregions] at hn
    have hcached := read_region hn .cached
    exact ⟨_, Directory.writeAll_of_mem (hnames ▸ hnodup) (mem_dump hn), length_read hcached,
      hcached, read_region hn .uncached⟩

/-- Two regions that touch, with a word at the end of the second, go into two files. -/
theorem dump_loses_nothing_touching :
    let u := afterAll { layout := touching } [.write32 0xFFFFFFFC 0x03040506]
    ofRegions touching.regions = .ok { layout := touching } ∧
    u.dumpInto .free = .ok u.dump ∧ u.dump.map Prod.fst = ["80000000.bin", "80001000.bin"] ∧
    (∃ bytes, Directory.writeAll (fun _ => none) u.dump "80001000.bin" = some bytes ∧
      bytes.length = 0x1000 ∧ u.read 0x80001000 0x1000 = .ok bytes ∧
      u.read 0xFFFFF000 0x1000 = .ok bytes) ∧
    Directory.writeAll (fun _ => none) u.dump "80000000" = none := by
  intro u
  have hmemory : ofRegions touching.regions = .ok { layout := touching } := rfl
  have hnames : touching.regions.map Region.fileName = ["80000000.bin", "80001000.bin"] := by
    decide
  obtain ⟨hplace, hdump, -, -, hfiles, hothers⟩ :=
    dump_loses_nothing hmemory [.write32 0xFFFFFFFC 0x03040506] fun _ => none
  refine ⟨hmemory, hplace .free (by decide), hdump.trans hnames, ?_, hothers "80000000" ?_⟩
  · exact hfiles ⟨0x80001000, 0xFFFFF000, 0x1000⟩ (by decide)
  · rw [hnames]
    decide

end Memory

end PowerPC
