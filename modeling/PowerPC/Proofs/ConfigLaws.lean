import PowerPC.Config.File
import PowerPC.Proofs.LibraryLaws
import PowerPC.Proofs.SettingLaws

/-!
# Configurations read back

With a library that keeps to the standard, a saved configuration is read back as it was. If the
lines of some settings are deleted from the file, those settings have their defaults and the others
are as saved; an empty memory map that was saved is no missing one.
-/

namespace PowerPC

open Toml

-- ---------------------------------------------------------------------------
-- Values read back
-- ---------------------------------------------------------------------------

theorem withDefault_ite {α : Type} {read : Value → Option α} {v : Value} {a fallback : α}
    (h : read v = some a) (p : Prop) [Decidable p] :
    withDefault fallback read (if p then none else some v) = some (if p then fallback else a) := by
  split
  · rfl
  · exact h

theorem word?_toNat (w : Word) : Value.word? (.integer w.toNat) = some w := by
  have hlt : (w.toNat : Int) < 0x100000000 := by have h := w.isLt; omega
  rw [Value.word?, if_pos ⟨Int.natCast_nonneg _, hlt⟩]
  simp

theorem LogLevel.ofName?_name (l : LogLevel) : LogLevel.ofName? l.name = some l := by
  cases l <;> decide

theorem LogLevel.simple_name (l : LogLevel) : Quoted.Simple l.name.toList := by
  have hprintable : l.name.toList.all fun c => ' ' ≤ c ∧ c ≠ '\x7f' := by cases l <;> rfl
  refine ⟨fun c hc => of_decide_eq_true (List.all_eq_true.mp hprintable c hc), ?_⟩
  cases l <;> decide

theorem Region.ofValue?_of_fields? {v cached uncached size : Value} {r : Region}
    (hfields : v.fields? ["cached_base", "uncached_base", "size"] =
      some [some cached, some uncached, some size])
    (hcached : cached.word? = some r.cachedBase) (huncached : uncached.word? = some r.uncachedBase)
    (hsize : size.word? = some r.size) : Region.ofValue? v = some r := by
  simp only [Region.ofValue?, hfields, Option.bind_eq_bind, Option.bind_some, hcached, huncached,
    hsize]
  rfl

-- ---------------------------------------------------------------------------
-- The tables of a configuration
-- ---------------------------------------------------------------------------

namespace Config

variable {c c₀ : Config} {gone : List Setting} {origin : Origin}

/-- An empty memory map is a key with an empty array, which is not the same as no key. -/
def noRegionsEntries : Table := [("sections", .array [])]

theorem cpuEntries_belong : BelongTo "cpu" c.cpuEntries where
  settings := List.forall_mem_cons.mpr ⟨⟨.sentinel, rfl, rfl⟩,
    List.forall_mem_singleton.mpr ⟨.traceInstructions, rfl, rfl⟩⟩
  nodup := (by decide : ["return_sentinel", "trace_instructions"].Nodup)

theorem debugEntries_belong : BelongTo "debug" c.debugEntries where
  settings := List.forall_mem_cons.mpr ⟨⟨.logLevel, rfl, rfl⟩,
    List.forall_mem_singleton.mpr ⟨.dumpDir, rfl, rfl⟩⟩
  nodup := (by decide : ["log_level", "dump_dir"].Nodup)

theorem regionEntries_belong (r : Region) : BelongTo "memory" (regionEntries r) where
  settings := List.forall_mem_cons.mpr ⟨⟨.regions, rfl, rfl⟩,
    List.forall_mem_cons.mpr ⟨⟨.regions, rfl, rfl⟩,
      List.forall_mem_singleton.mpr ⟨.regions, rfl, rfl⟩⟩⟩
  nodup := (by decide : ["cached_base", "uncached_base", "size"].Nodup)

theorem noRegionsEntries_belong : BelongTo "memory" noRegionsEntries where
  settings := List.forall_mem_singleton.mpr ⟨.regions, rfl, rfl⟩
  nodup := by decide

theorem readCpu_staying :
    c₀.readCpu (.table origin (staying gone c.cpuEntries)) = some { c₀ with
      sentinel := if .sentinel ∈ gone then c₀.sentinel else c.sentinel
      traceInstructions :=
        if .traceInstructions ∈ gone then c₀.traceInstructions else c.traceInstructions } := by
  have hsentinel : (staying gone c.cpuEntries).lookup "return_sentinel" =
      if .sentinel ∈ gone then none else some (.integer c.sentinel.toNat) := lookup_staying rfl
  have htrace : (staying gone c.cpuEntries).lookup "trace_instructions" =
      if .traceInstructions ∈ gone then none else some (.boolean c.traceInstructions) :=
    lookup_staying rfl
  have hboolean : Value.boolean? (.boolean c.traceInstructions) = some c.traceInstructions := rfl
  simp only [readCpu, Value.fields?, List.map_cons, List.map_nil, hsentinel, htrace,
    Option.bind_eq_bind, Option.bind_some, withDefault_ite (word?_toNat _),
    withDefault_ite hboolean]
  rfl

theorem readDebug_staying :
    c₀.readDebug (.table origin (staying gone c.debugEntries)) = some { c₀ with
      logLevel := if .logLevel ∈ gone then c₀.logLevel else c.logLevel
      dumpDir := if .dumpDir ∈ gone then c₀.dumpDir else c.dumpDir } := by
  have hlevel : (staying gone c.debugEntries).lookup "log_level" =
      if .logLevel ∈ gone then none else some (.string c.logLevel.name) := lookup_staying rfl
  have hdir : (staying gone c.debugEntries).lookup "dump_dir" =
      if .dumpDir ∈ gone then none else some (.string c.dumpDir) := lookup_staying rfl
  have hname : LogLevel.ofValue? (.string c.logLevel.name) = some c.logLevel :=
    LogLevel.ofName?_name c.logLevel
  have hstring : Value.string? (.string c.dumpDir) = some c.dumpDir := rfl
  simp only [readDebug, Value.fields?, List.map_cons, List.map_nil, hlevel, hdir,
    Option.bind_eq_bind, Option.bind_some, withDefault_ite hname, withDefault_ite hstring]
  rfl

theorem readMemory_staying :
    c₀.readMemory (.table origin (staying gone noRegionsEntries)) =
      some { c₀ with regions := if .regions ∈ gone then c₀.regions else [] } := by
  have hsections : (staying gone noRegionsEntries).lookup "sections" =
      if .regions ∈ gone then none else some (.array []) := lookup_staying rfl
  have hempty : (do (← Value.elements? (.array [])).mapM Region.ofValue?) = some [] := rfl
  simp only [readMemory, Value.fields?, List.map_cons, List.map_nil, hsections,
    Option.bind_eq_bind, Option.bind_some]
  rw [withDefault_ite hempty]
  rfl

theorem ofValue?_regionEntries (r : Region) :
    Region.ofValue? (.table origin (regionEntries r)) = some r :=
  Region.ofValue?_of_fields? rfl (word?_toNat _) (word?_toNat _) (word?_toNat _)

theorem readMemory_regions (rs : List Region) :
    c₀.readMemory (.table origin [("sections", .tables (rs.map regionEntries))]) =
      some { c₀ with regions := rs } := by
  have hregions : ((rs.map regionEntries).map (Value.table .header)).mapM Region.ofValue? =
      some rs := by
    induction rs with
    | nil => rfl
    | cons r rs ih =>
      rw [List.map_cons, List.map_cons, List.mapM_cons, ofValue?_regionEntries, ih]
      rfl
  have hsections : (Value.elements? (.tables (rs.map regionEntries))).bind
      (fun vs => vs.mapM Region.ofValue?) = some rs := hregions
  have hlookup : List.lookup "sections" [("sections", Value.tables (rs.map regionEntries))] =
      some (.tables (rs.map regionEntries)) := rfl
  simp only [readMemory, Value.fields?, List.map_cons, List.map_nil, hlookup, Option.bind_eq_bind,
    Option.bind_some, withDefault]
  rw [hsections]
  rfl

-- ---------------------------------------------------------------------------
-- The whole file
-- ---------------------------------------------------------------------------

def lines (c : Config) : List Line := c.table.lines

example :
    linesText Line.text ((lines { regions := [] }).filter fun line => line.MayStay [.regions]) =
    "[cpu]\nreturn_sentinel = 3735928544\ntrace_instructions = false\n\n[memory]\n\n[debug]\n" ++
      "log_level = \"Info\"\ndump_dir = \"dumps\"\n" := by
  rfl

def reset (c : Config) (gone : List Setting) : Config where
  sentinel := if .sentinel ∈ gone then ({} : Config).sentinel else c.sentinel
  traceInstructions :=
    if .traceInstructions ∈ gone then ({} : Config).traceInstructions else c.traceInstructions
  regions := if .regions ∈ gone then ({} : Config).regions else c.regions
  logLevel := if .logLevel ∈ gone then ({} : Config).logLevel else c.logLevel
  dumpDir := if .dumpDir ∈ gone then ({} : Config).dumpDir else c.dumpDir

theorem reset_nil : c.reset [] = c := rfl

def memoryStatements (c : Config) : List Statement :=
  if c.regions = [] then tableStatements "memory" noRegionsEntries
  else (c.regions.map regionEntries).flatMap (elementStatements "memory" "sections")

theorem elementsBlocks_regions (rs : List Region) :
    elementsBlocks ⟨["memory"], "sections"⟩ (rs.map regionEntries) =
      (rs.map regionEntries).map (elementStatements "memory" "sections") := by
  induction rs with
  | nil => rfl
  | cons r rs ih =>
    rw [List.map_cons, elementsBlocks, ih]
    rfl

theorem blocks_memory :
    (Value.blocks ⟨[], "memory"⟩ (.table .header c.memoryEntries)).flatten =
      c.memoryStatements := by
  rw [memoryStatements, memoryEntries]
  cases hregions : c.regions with
  | nil => rfl
  | cons r rs =>
    have hblocks : Value.blocks ⟨[], "memory"⟩
        (.table .header [("sections", .ofTables ((r :: rs).map regionEntries))]) =
          elementsBlocks ⟨["memory"], "sections"⟩ ((r :: rs).map regionEntries) :=
      List.append_nil _
    rw [if_neg (List.cons_ne_nil r rs), hblocks, elementsBlocks_regions, List.flatMap_def]

theorem filterMap_lines : c.lines.filterMap Line.statement? =
    tableStatements "cpu" c.cpuEntries ++ c.memoryStatements ++
      tableStatements "debug" c.debugEntries := by
  have hblocks : c.table.blocks = tableStatements "cpu" c.cpuEntries ::
      (Value.blocks ⟨[], "memory"⟩ (.table .header c.memoryEntries) ++
        [tableStatements "debug" c.debugEntries]) := rfl
  rw [lines, Table.lines, filterMap_blockLines, hblocks, List.flatten_cons, List.flatten_append,
    blocks_memory, List.flatten_singleton, List.append_assoc]

theorem setting?_regionStatements {r : Region} :
    ∀ s ∈ elementStatements "memory" "sections" (regionEntries r),
      (Line.statement s).setting? = some .regions :=
  List.forall_mem_cons.mpr ⟨rfl, List.forall_mem_cons.mpr ⟨rfl, List.forall_mem_cons.mpr ⟨rfl,
    List.forall_mem_singleton.mpr rfl⟩⟩⟩

theorem contributes_memory {kept : List Line}
    (h : Remains gone (c.memoryStatements.map .statement) kept) :
    ∃ v, Contributes (kept.filterMap Line.statement?) "memory" v ∧ ∀ c₀ : Config,
      withDefault c₀ c₀.readMemory v =
        some { c₀ with regions := if .regions ∈ gone then c₀.regions else c.regions } := by
  rw [memoryStatements] at h
  split at h
  · rename_i hempty
    rw [hempty]
    exact h.contributes_table noRegionsEntries_belong (fun _ => readMemory_staying) fun _ => rfl
  · rename_i hne
    have hlines : ∀ line ∈ ((c.regions.map regionEntries).flatMap
        (elementStatements "memory" "sections")).map Line.statement,
        line.setting? = some .regions := by
      rintro line hmem
      obtain ⟨s, hs, rfl⟩ := List.mem_map.mp hmem
      obtain ⟨entries, hentries, hs⟩ := List.mem_flatMap.mp hs
      obtain ⟨r, -, rfl⟩ := List.mem_map.mp hentries
      exact setting?_regionStatements s hs
    rw [h.eq_ite hlines]
    split
    · refine ⟨none, fun t hname => ?_, fun c₀ => rfl⟩
      simpa [optional] using Adds.refl
    · have hkeys : ∀ entries ∈ c.regions.map regionEntries, (entries.map Prod.fst).Nodup :=
        List.forall_mem_map.mpr fun r _ => (regionEntries_belong r).nodup
      refine ⟨some (.table .implied [("sections", .tables (c.regions.map regionEntries))]),
        fun t hname => ?_, fun c₀ => readMemory_regions c.regions⟩
      have harray : arrayEntries "memory" "sections" (c.regions.map regionEntries) =
          optional "memory"
            (some (.table .implied [("sections", .tables (c.regions.map regionEntries))])) := by
        obtain ⟨r, rs, hregions⟩ := List.exists_cons_of_ne_nil hne
        rw [hregions]
        rfl
      have hadds : Adds _ (t ++ arrayEntries "memory" "sections" [])
          (t ++ arrayEntries "memory" "sections" ([] ++ c.regions.map regionEntries)) :=
        adds_elements hname hkeys []
      rw [filterMap_statement, ← harray]
      simpa [arrayEntries] using hadds

theorem plain_integer (w : Word) : Value.Plain (.integer w.toNat) :=
  .integer (Nat.lt_trans w.isLt (by decide))

theorem plain_key {name : String} (h : IsBare name) : Path.Plain ⟨[], name⟩ :=
  ⟨List.forall_mem_singleton.mpr h, (by decide : 0 + 1 < maxDepth)⟩

theorem plain_assignAll {name : String} {entries : Table} (h : BelongTo name entries)
    (hvalues : ∀ v ∈ entries.map Prod.snd, v.Plain) : ∀ s ∈ assignAll entries, s.Plain :=
  List.forall_mem_map.mpr fun e he => by
    obtain ⟨s, hs, -⟩ := h.settings e he
    exact .assign (plain_key (Setting.isBare_of_ofKey? hs)) (hvalues e.2 (List.mem_map_of_mem he))

theorem plain_table {name : String} {entries : Table} (hname : IsBare name)
    (h : BelongTo name entries) (hvalues : ∀ v ∈ entries.map Prod.snd, v.Plain) :
    ∀ s ∈ tableStatements name entries, s.Plain :=
  List.forall_mem_cons.mpr ⟨.table (plain_key hname), plain_assignAll h hvalues⟩

theorem plain_region {r : Region} :
    ∀ s ∈ elementStatements "memory" "sections" (regionEntries r), s.Plain := by
  have hpath : Path.Plain ⟨["memory"], "sections"⟩ := ⟨by decide, by decide⟩
  have hvalues : ∀ v ∈ (regionEntries r).map Prod.snd, v.Plain :=
    List.forall_mem_cons.mpr ⟨plain_integer _, List.forall_mem_cons.mpr ⟨plain_integer _,
      List.forall_mem_singleton.mpr (plain_integer _)⟩⟩
  exact List.forall_mem_cons.mpr ⟨.element hpath, plain_assignAll (regionEntries_belong r) hvalues⟩

theorem plain_memory : ∀ s ∈ c.memoryStatements, s.Plain := by
  rw [memoryStatements]
  split
  · exact plain_table (by decide) noRegionsEntries_belong (List.forall_mem_singleton.mpr .empty)
  · intro s hs
    obtain ⟨entries, hentries, hs⟩ := List.mem_flatMap.mp hs
    obtain ⟨r, -, rfl⟩ := List.mem_map.mp hentries
    exact plain_region s hs

/-- Only the directory could need an escape. -/
theorem plain_lines (hdir : Quoted.Simple c.dumpDir.toList) : ∀ line ∈ c.lines, line.Plain := by
  refine plain_of_filterMap ?_
  rw [filterMap_lines, List.forall_mem_append, List.forall_mem_append]
  refine ⟨⟨plain_table (by decide) cpuEntries_belong ?_, plain_memory⟩,
    plain_table (by decide) debugEntries_belong ?_⟩
  · exact List.forall_mem_cons.mpr ⟨plain_integer _, List.forall_mem_singleton.mpr .boolean⟩
  · exact List.forall_mem_cons.mpr ⟨.string c.logLevel.simple_name,
      List.forall_mem_singleton.mpr (.string hdir)⟩

theorem ofTable?_optional {cpu memory debug : Option Value} :
    ofTable? (optional "cpu" cpu ++ optional "memory" memory ++ optional "debug" debug) =
      (do
        let c : Config := {}
        let c ← withDefault c c.readCpu cpu
        let c ← withDefault c c.readMemory memory
        withDefault c c.readDebug debug) := by
  simp [ofTable?, List.lookup_append, lookup_optional]

theorem adds_remaining {kept : List Line} (h : Remains gone c.lines kept) :
    ∃ cpu memory debug, Adds (kept.filterMap Line.statement?) []
        (optional "cpu" cpu ++ optional "memory" memory ++ optional "debug" debug) ∧
      ofTable? (optional "cpu" cpu ++ optional "memory" memory ++ optional "debug" debug) =
        some (c.reset gone) := by
  have hstatements := h.dropBlanks
  rw [filterMap_lines, List.map_append, List.map_append] at hstatements
  obtain ⟨kept₁, keptDebug, hkept, h, hdebug⟩ := hstatements.of_append
  obtain ⟨keptCpu, keptMemory, rfl, hcpu, hmemory⟩ := h.of_append
  obtain ⟨cpu, haddCpu, hreadCpu⟩ :=
    hcpu.contributes_table cpuEntries_belong (fun _ => readCpu_staying) fun _ => rfl
  obtain ⟨memory, haddMemory, hreadMemory⟩ := contributes_memory hmemory
  obtain ⟨debug, haddDebug, hreadDebug⟩ :=
    hdebug.contributes_table debugEntries_belong (fun _ => readDebug_staying) fun _ => rfl
  have hsplit := congrArg (List.filterMap Line.statement?) hkept
  rw [filterMap_statement, List.filterMap_append, List.filterMap_append] at hsplit
  refine ⟨cpu, memory, debug, ?_, ?_⟩
  · rw [hsplit]
    refine ((haddCpu [] rfl).trans (haddMemory _ ?_)).trans (haddDebug _ ?_)
    · simp [lookup_optional]
    · simp [lookup_optional, List.lookup_append]
  · simp only [ofTable?_optional, hreadCpu, hreadMemory, hreadDebug, Option.bind_eq_bind,
      Option.bind_some]
    rfl

theorem plain_table_of_simple (hdir : Quoted.Simple c.dumpDir.toList) : c.table.Plain where
  lines := plain_lines hdir
  builds := by
    obtain ⟨cpu, memory, debug, hadds, -⟩ := adds_remaining (.refl : Remains [] c.lines c.lines)
    exact Option.isSome_of_eq_some hadds.ofStatements?

/-- Printable ASCII in which a single quote does not meet a double quote or a backslash. -/
structure PlainDirectory (dir : String) : Prop where
  printable : ∀ c ∈ dir.toList, ' ' ≤ c ∧ c ≤ '~'
  unmixed : '\'' ∈ dir.toList → '"' ∉ dir.toList ∧ '\\' ∉ dir.toList

theorem PlainDirectory.simple {dir : String} (h : PlainDirectory dir) :
    Quoted.Simple dir.toList where
  printable c hc := by
    obtain ⟨hlow, hhigh⟩ := h.printable c hc
    refine ⟨hlow, ?_⟩
    rintro rfl
    exact absurd hhigh (by decide)
  unmixed := h.unmixed

section
variable {lib : Toml.Library} {lineText : Line → String}

theorem saveWith_ok {parent target : Occupant} (hparent : parent ≠ .file)
    (htarget : target ≠ .directory) : c.saveWith lib parent target = .ok (c.textWith lib) := by
  have hmake : parent.makeDirectory = .ok () := by
    cases parent with
    | file => exact absurd rfl hparent
    | _ => rfl
  have hwrite : target.writeFile = .ok () := by
    cases target with
    | directory => exact absurd rfl htarget
    | _ => rfl
  rw [saveWith, hmake, hwrite]
  rfl

theorem readWith_toUTF8 {text : String} (h : parseWith? lib text = some c) :
    readWith lib (some text.toUTF8) = .ok c := by
  have htext : String.fromUTF8? text.toUTF8 = some text := by
    simp [String.fromUTF8?, String.fromUTF8, String.toUTF8, text.isValidUTF8]
  simp only [readWith, Option.bind_some, htext, h]

theorem parseWith?_remaining {kept : List Line} (hlib : lib.Standard lineText)
    (hdir : Quoted.Simple c.dumpDir.toList) (h : Remains gone c.lines kept) :
    parseWith? lib (linesText lineText kept) = some (c.reset gone) := by
  obtain ⟨cpu, memory, debug, hadds, hread⟩ := adds_remaining h
  have htable := hlib.reads_of_subset (plain_table_of_simple hdir) h.subset hadds.ofStatements?
  rw [parseWith?, htable, Option.bind_eq_bind, Option.bind_some, hread]

end

/-- With a library that keeps to the standard, a saved configuration is read back as it was. With
the lines of some settings deleted from the file, it is read with the defaults of these settings. -/
theorem read_remaining (lib : Toml.Library) (lineText : Line → String)
    (hlib : lib.Standard lineText) (c : Config) (hdir : PlainDirectory c.dumpDir) :
    (∀ parent target : Occupant, parent ≠ .file → target ≠ .directory →
      ∃ text, c.saveWith lib parent target = .ok text ∧
        readWith lib (some text.toUTF8) = .ok c) ∧
    c.textWith lib = linesText lineText c.lines ∧
    ∀ (gone : List Setting) (kept : List Line), Remains gone c.lines kept →
      readWith lib (some (linesText lineText kept).toUTF8) = .ok (c.reset gone) := by
  have htext : c.textWith lib = linesText lineText c.lines :=
    hlib.writes c.table (plain_table_of_simple hdir.simple)
  refine ⟨fun parent target hparent htarget => ⟨c.textWith lib, saveWith_ok hparent htarget, ?_⟩,
    htext, fun gone kept hkept => readWith_toUTF8 (parseWith?_remaining hlib hdir.simple hkept)⟩
  have hread := parseWith?_remaining hlib hdir.simple (.refl : Remains [] c.lines c.lines)
  rw [reset_nil, ← htext] at hread
  exact readWith_toUTF8 hread

/-- With the library here, an empty memory map and a double quote in the directory; without its
line, the memory map is the usual one. -/
theorem read_remaining_noRegions :
    let c : Config := { regions := [], logLevel := .trace, dumpDir := "\\dumps\"1\"" }
    let kept := c.lines.filter fun line => line.MayStay [.regions]
    Toml.library.Standard Line.text ∧ PlainDirectory c.dumpDir ∧
      Remains [.regions] c.lines kept ∧
      (∃ text, c.save .free .file = .ok text ∧ read (some text.toUTF8) = .ok c) ∧
      read (some (linesText Line.text kept).toUTF8) = .ok { c with regions := [.gamecube] } := by
  intro c kept
  have hprintable : c.dumpDir.toList.all fun ch => ' ' ≤ ch ∧ ch ≤ '~' := by decide
  have hdir : PlainDirectory c.dumpDir :=
    ⟨fun ch hch => of_decide_eq_true (List.all_eq_true.mp hprintable ch hch), by decide⟩
  have hkept : Remains [.regions] c.lines kept := .filter
  obtain ⟨hsave, -, hread⟩ := read_remaining Toml.library Line.text Toml.library_standard c hdir
  exact ⟨Toml.library_standard, hdir, hkept, hsave .free .file (by decide) (by decide),
    hread [.regions] kept hkept⟩

end Config

end PowerPC
