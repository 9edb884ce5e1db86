import PowerPC.Config.Document
import PowerPC.Proofs.DocumentLaws

/-!
# Settings deleted from a file

Which lines of a configuration file give which setting, what may be left of a file after some
settings were deleted from it, and what is left of a table then.
-/

namespace PowerPC

open Toml

-- ---------------------------------------------------------------------------
-- Settings and their lines
-- ---------------------------------------------------------------------------

inductive Setting where
  | sentinel | traceInstructions | regions | logLevel | dumpDir
deriving DecidableEq, Repr

namespace Setting

def all : List Setting := [sentinel, traceInstructions, regions, logLevel, dumpDir]

def table : Setting → String
  | sentinel | traceInstructions => "cpu"
  | regions => "memory"
  | logLevel | dumpDir => "debug"

def keys : Setting → List String
  | sentinel => ["return_sentinel"]
  | traceInstructions => ["trace_instructions"]
  | regions => ["sections", "cached_base", "uncached_base", "size"]
  | logLevel => ["log_level"]
  | dumpDir => ["dump_dir"]

def ofKey? (key : String) : Option Setting := all.find? (key ∈ ·.keys)

theorem isBare_of_ofKey? {key : String} {s : Setting} (h : ofKey? key = some s) : IsBare key := by
  have hkeys : ∀ s : Setting, ∀ key ∈ s.keys, IsBare key := by
    intro s
    cases s <;> decide
  have hmem : key ∈ s.keys := by simpa using List.find?_some h
  exact hkeys s key hmem

end Setting

/-- The setting that a line gives. Headers of tables and blank lines give none, the header of a
region belongs to the memory map. -/
def Toml.Line.setting? : Line → Option Setting
  | .statement (.assign p _) => Setting.ofKey? p.key
  | .statement (.element p) => Setting.ofKey? p.key
  | .statement (.table _) => none
  | .blank => none

example (v : Value) : (Line.statement (.assign ⟨[], "size"⟩ v)).setting? = some .regions := rfl

/-- A line may be deleted together with the settings `gone`: it gives one of them, or it is the
header of a table that has no other settings, or it is blank. -/
def Toml.Line.MayGo (gone : List Setting) : Line → Prop
  | .statement (.table p) => ∀ s : Setting, s.table = p.key → s ∈ gone
  | .blank => True
  | line => ∃ s ∈ gone, line.setting? = some s

def Toml.Line.MayStay (gone : List Setting) (line : Line) : Prop :=
  ∀ s ∈ gone, line.setting? ≠ some s

instance (gone : List Setting) (line : Line) : Decidable (line.MayStay gone) :=
  inferInstanceAs (Decidable (∀ s ∈ gone, _))

theorem Toml.Line.MayGo.mem {gone : List Setting} {line : Line} {s : Setting}
    (h : line.MayGo gone) (hs : line.setting? = some s) : s ∈ gone := by
  cases line with
  | blank => cases hs
  | statement st =>
    cases st with
    | table p => cases hs
    | _ =>
      obtain ⟨s', hmem, hs'⟩ := h
      cases hs.symm.trans hs'
      exact hmem

theorem Toml.Line.mayGo_of_not_mayStay {gone : List Setting} {line : Line}
    (h : ¬ line.MayStay gone) : line.MayGo gone := by
  simp only [MayStay, ne_eq, Classical.not_forall, Decidable.not_not] at h
  obtain ⟨s, hmem, hs⟩ := h
  cases line with
  | blank => trivial
  | statement st =>
    cases st with
    | table p => cases hs
    | _ => exact ⟨s, hmem, hs⟩

/-- What may be left of a file after some settings were deleted from it. -/
inductive Remains (gone : List Setting) : List Line → List Line → Prop
  | nil : Remains gone [] []
  | stays {line : Line} {lines kept : List Line} (stay : line.MayStay gone)
      (rest : Remains gone lines kept) : Remains gone (line :: lines) (line :: kept)
  | goes {line : Line} {lines kept : List Line} (go : line.MayGo gone)
      (rest : Remains gone lines kept) : Remains gone (line :: lines) kept

namespace Remains

variable {gone : List Setting} {lines lines' kept : List Line}

theorem refl : Remains [] lines lines := by
  induction lines with
  | nil => exact nil
  | cons line lines ih => exact stays nofun ih

theorem subset (h : Remains gone lines kept) : kept ⊆ lines := by
  induction h with
  | nil => exact List.Subset.refl []
  | stays stay rest ih => exact List.cons_subset_cons _ ih
  | goes go rest ih => exact List.subset_cons_of_subset _ ih

theorem filter : Remains gone lines (lines.filter fun line => line.MayStay gone) := by
  induction lines with
  | nil => exact nil
  | cons line lines ih =>
    by_cases hstay : line.MayStay gone
    · rw [List.filter_cons_of_pos (by simpa using hstay)]
      exact stays hstay ih
    · rw [List.filter_cons_of_neg (by simpa using hstay)]
      exact goes (Line.mayGo_of_not_mayStay hstay) ih

theorem of_append (h : Remains gone (lines ++ lines') kept) :
    ∃ kept₁ kept₂, kept = kept₁ ++ kept₂ ∧
      Remains gone lines kept₁ ∧ Remains gone lines' kept₂ := by
  induction lines generalizing kept with
  | nil => exact ⟨[], kept, rfl, nil, h⟩
  | cons line lines ih =>
    cases h with
    | stays stay rest =>
      obtain ⟨kept₁, kept₂, rfl, h₁, h₂⟩ := ih rest
      exact ⟨line :: kept₁, kept₂, rfl, stays stay h₁, h₂⟩
    | goes go rest =>
      obtain ⟨kept₁, kept₂, rfl, h₁, h₂⟩ := ih rest
      exact ⟨kept₁, kept₂, rfl, goes go h₁, h₂⟩

theorem dropBlanks (h : Remains gone lines kept) :
    Remains gone ((lines.filterMap Line.statement?).map .statement)
      ((kept.filterMap Line.statement?).map .statement) := by
  induction h with
  | nil => exact nil
  | @stays line _ _ stay rest ih =>
    cases line with
    | blank => exact ih
    | statement s => exact stays stay ih
  | @goes line _ _ go rest ih =>
    cases line with
    | blank => exact ih
    | statement s => exact goes go ih

theorem eq_filter (h : Remains gone lines kept)
    (hlines : ∀ line ∈ lines, line.setting?.isSome) :
    kept = lines.filter fun line => line.MayStay gone := by
  induction h with
  | nil => rfl
  | stays stay rest ih =>
    obtain ⟨-, hrest⟩ := List.forall_mem_cons.mp hlines
    rw [List.filter_cons_of_pos (by simpa using stay), ← ih hrest]
  | goes go rest ih =>
    obtain ⟨hline, hrest⟩ := List.forall_mem_cons.mp hlines
    obtain ⟨s, hs⟩ := Option.isSome_iff_exists.mp hline
    have hgoes : ¬ Line.MayStay gone _ := fun hstay => hstay s (go.mem hs) hs
    rw [List.filter_cons_of_neg (by simpa using hgoes), ← ih hrest]

theorem eq_ite {s : Setting} (h : Remains gone lines kept)
    (hlines : ∀ line ∈ lines, line.setting? = some s) :
    kept = if s ∈ gone then [] else lines := by
  rw [h.eq_filter fun line hmem => Option.isSome_iff_exists.mpr ⟨s, hlines line hmem⟩]
  split
  · rename_i hs
    refine List.filter_eq_nil_iff.mpr fun line hmem hstay => ?_
    exact of_decide_eq_true hstay s hs (hlines line hmem)
  · rename_i hs
    refine List.filter_eq_self.mpr fun line hmem => decide_eq_true fun s' hs' heq => hs ?_
    cases (hlines line hmem).symm.trans heq
    exact hs'

end Remains

/-- The keys are those of settings of one table, and no key is given twice. -/
structure BelongTo (name : String) (entries : Table) : Prop where
  settings : ∀ e ∈ entries, ∃ s, Setting.ofKey? e.1 = some s ∧ s.table = name
  nodup : (entries.map Prod.fst).Nodup

def staying (gone : List Setting) (entries : Table) : Table :=
  entries.filter fun e => ∀ s ∈ gone, Setting.ofKey? e.1 ≠ some s

section
variable {gone : List Setting} {kept : List Line} {entries : Table} {name : String}

theorem Remains.assignAll (h : Remains gone ((assignAll entries).map .statement) kept)
    (hentries : BelongTo name entries) :
    kept = (Toml.assignAll (staying gone entries)).map .statement := by
  rw [h.eq_filter]
  · rw [Toml.assignAll, List.map_map, List.filter_map, staying, Toml.assignAll, List.map_map]
    rfl
  · simp only [Toml.assignAll, List.map_map, List.forall_mem_map, Function.comp_apply]
    intro e he
    obtain ⟨s, hs, -⟩ := hentries.settings e he
    exact Option.isSome_iff_exists.mpr ⟨s, hs⟩

/-- Of a table stay the header and the entries whose settings stay; or nothing, where no entry
does. -/
theorem Remains.table (h : Remains gone ((tableStatements name entries).map .statement) kept)
    (hentries : BelongTo name entries) :
    kept = (tableStatements name (staying gone entries)).map .statement ∨
      kept = [] ∧ staying gone entries = [] := by
  cases h with
  | stays stay rest => exact .inl (congrArg _ (rest.assignAll hentries))
  | goes go rest =>
    have hnone : staying gone entries = [] := by
      refine List.filter_eq_nil_iff.mpr fun e he hstay => ?_
      obtain ⟨s, hs, htable⟩ := hentries.settings e he
      exact of_decide_eq_true hstay s (go s htable) hs
    refine .inr ⟨?_, hnone⟩
    rw [rest.assignAll hentries, hnone]
    rfl

theorem lookup_staying {key : String} {s : Setting} (hkey : Setting.ofKey? key = some s) :
    (staying gone entries).lookup key = if s ∈ gone then none else entries.lookup key := by
  induction entries with
  | nil => simp [staying]
  | cons e entries ih =>
    obtain ⟨k, v⟩ := e
    have hcons : staying gone ((k, v) :: entries) =
        if ∀ s ∈ gone, Setting.ofKey? k ≠ some s then (k, v) :: staying gone entries
        else staying gone entries := by
      simp [staying, List.filter_cons]
    by_cases hk : k = key
    · subst hk
      by_cases hs : s ∈ gone
      · rw [hcons, if_neg fun h => h s hs hkey, ih, if_pos hs, if_pos hs]
      · have hstay : ∀ s ∈ gone, Setting.ofKey? k ≠ some s := by
          rintro s' hs' heq
          cases hkey.symm.trans heq
          exact hs hs'
        rw [hcons, if_pos hstay, if_neg hs, List.lookup_cons_self, List.lookup_cons_self]
    · have hbeq : (key == k) = false := by simpa using Ne.symm hk
      rw [List.lookup_cons, hbeq, ← ih, hcons]
      split
      · rw [List.lookup_cons, hbeq]
      · rfl

end

-- ---------------------------------------------------------------------------
-- The tables that are left
-- ---------------------------------------------------------------------------

def optional (name : String) (v : Option Value) : Table := v.toList.map (name, ·)

theorem lookup_optional {key name : String} {v : Option Value} :
    (optional name v).lookup key = if key = name then v else none := by
  cases v with
  | none => simp [optional]
  | some v =>
    by_cases h : key = name
    · simp [optional, h]
    · have hbeq : (key == name) = false := by simpa using h
      simp [optional, List.lookup_cons, hbeq, h]

def Contributes (ss : List Statement) (name : String) (v : Option Value) : Prop :=
  ∀ t : Table, t.lookup name = none → Adds ss t (t ++ optional name v)

/-- A table of which no entry stays may be missing, and a missing table reads as an empty one. -/
theorem Remains.contributes_table {gone : List Setting} {kept : List Line} {entries : Table}
    {name : String} {read : Config → Value → Option Config} {f : Config → Config}
    (h : Remains gone ((tableStatements name entries).map .statement) kept)
    (hentries : BelongTo name entries)
    (hread : ∀ c, read c (.table .header (staying gone entries)) = some (f c))
    (hempty : ∀ c, read c (.table .header []) = some c) :
    ∃ v, Contributes (kept.filterMap Line.statement?) name v ∧
      ∀ c, withDefault c (read c) v = some (f c) := by
  rcases h.table hentries with rfl | ⟨rfl, hnone⟩
  · refine ⟨some (.table .header (staying gone entries)), fun t hname => ?_, hread⟩
    have hkeys : ((staying gone entries).map Prod.fst).Nodup :=
      hentries.nodup.sublist (List.filter_sublist.map Prod.fst)
    rw [filterMap_statement]
    exact adds_table hname hkeys
  · refine ⟨none, fun t hname => ?_, fun c => ?_⟩
    · simpa [optional] using Adds.refl
    · rw [hnone] at hread
      exact (hempty c).symm.trans (hread c)

end PowerPC
