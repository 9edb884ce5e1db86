import PowerPC.Proofs.StatementLaws
import PowerPC.Toml.Library

/-!
# What a library is expected to do

A library that keeps to the standard writes a plain table line by line, with its tables and keys in
the order in which they were added, and reads a plain document, in whichever way its lines are
written, as the table that its statements build. What follows about configurations holds with any
such library, of which the one here is one.
-/

namespace PowerPC.Toml

variable {α β : Type} {v : Value} {p : Path} {ls : List Line}

-- ---------------------------------------------------------------------------
-- Plain tables
-- ---------------------------------------------------------------------------

def Value.Plain (v : Value) : Prop := ∃ text, v.WrittenAs text

def Statement.Plain (s : Statement) : Prop := ∃ text, s.WrittenAs text

def Line.Plain (line : Line) : Prop := ∃ text, line.WrittenAs text

theorem Value.Plain.string {s : String} (simple : Quoted.Simple s.toList) : Plain (.string s) := by
  by_cases hsingle : '\'' ∈ s.toList
  · obtain ⟨hdouble, hback⟩ := simple.unmixed hsingle
    exact ⟨_, .basic simple hdouble hback⟩
  · exact ⟨_, .literal simple hsingle⟩

theorem Value.Plain.integer {n : Nat} (fits : n < 0x8000000000000000) : Plain (.integer n) :=
  ⟨_, .integer fits⟩

theorem Value.Plain.boolean {b : Bool} : Plain (.boolean b) := ⟨_, .boolean⟩

theorem Value.Plain.empty : Plain (.array []) := ⟨_, .empty⟩

theorem Statement.Plain.table (path : p.Plain) : Plain (.table p) := ⟨_, .table path⟩

theorem Statement.Plain.element (path : p.Plain) : Plain (.element p) := ⟨_, .element path⟩

theorem Statement.Plain.assign (path : p.Plain) (value : v.Plain) : Plain (.assign p v) := by
  obtain ⟨text, hvalue⟩ := value
  exact ⟨_, .assign path hvalue⟩

theorem plain_of_filterMap (h : ∀ s ∈ ls.filterMap Line.statement?, s.Plain) :
    ∀ line ∈ ls, line.Plain := by
  intro line hmem
  cases line with
  | blank => exact ⟨_, .blank⟩
  | statement s =>
    obtain ⟨text, hs⟩ := h s (List.mem_filterMap.mpr ⟨_, hmem, rfl⟩)
    exact ⟨text, .statement hs⟩

def Table.lines (t : Table) : List Line := blockLines t.blocks

/-- A table of plain lines in which no key is given twice. -/
structure Table.Plain (t : Table) : Prop where
  lines : ∀ line ∈ t.lines, line.Plain
  builds : (Table.ofStatements? (t.lines.filterMap Line.statement?)).isSome

-- ---------------------------------------------------------------------------
-- The standard
-- ---------------------------------------------------------------------------

/-- The library keeps to the standard, and writes lines in this way. -/
structure Library.Standard (lib : Library) (lineText : Line → String) : Prop where
  /-- The library chooses among the ways there are to write a line. -/
  lines : ∀ line : Line, line.Plain → line.WrittenAs (lineText line)
  /-- Tables are written line by line, in order. -/
  writes : ∀ t : Table, t.Plain → lib.write t = linesText lineText t.lines
  /-- However its lines are written, a document is read as the table that its statements build. -/
  reads : ∀ (text : Line → String) (lines : List Line) (t : Table),
    (∀ line ∈ lines, line.WrittenAs (text line)) →
    Table.ofStatements? (lines.filterMap Line.statement?) = some t →
    lib.read? (linesText text lines) = some t

theorem Library.Standard.reads_of_subset {lib : Library} {lineText : Line → String}
    (hlib : lib.Standard lineText) {t t' : Table} (ht : t.Plain) (hsubset : ls ⊆ t.lines)
    (hbuild : Table.ofStatements? (ls.filterMap Line.statement?) = some t') :
    lib.read? (linesText lineText ls) = some t' :=
  hlib.reads lineText ls t' (fun line hmem => hlib.lines line (ht.lines line (hsubset hmem))) hbuild

-- ---------------------------------------------------------------------------
-- A library that keeps to it
-- ---------------------------------------------------------------------------

def Line.text : Line → String
  | .blank => "\n"
  | .statement s => s.text

theorem flatMap_intercalate {f : α → List β} {sep : List α} {xss : List (List α)} :
    (sep.intercalate xss).flatMap f = (sep.flatMap f).intercalate (xss.map (·.flatMap f)) := by
  induction xss with
  | nil => rfl
  | cons xs xss ih =>
    cases xss with
    | nil => simp
    | cons ys yss =>
      rw [List.map_cons] at ih
      simp only [List.intercalate_cons_cons, List.flatMap_append, ih, List.map_cons]

theorem linesText_blockLines {blocks : List (List Statement)} :
    linesText Line.text (blockLines blocks) = blocksText blocks := by
  apply String.toList_inj.mp
  rw [toList_linesText, blockLines, flatMap_intercalate, blocksText, String.toList_intercalate]
  simp [Line.text, List.flatMap_map, String.toList_join, Function.comp_def]

theorem Quoted.Simple.writtenAs_encode {s : String} (h : Simple s.toList) :
    Value.WrittenAs (.string s) (String.ofList (encode s.toList)) := by
  rcases h.encode_eq with ⟨hdouble, hback, hencode⟩ | ⟨hsingle, hencode⟩
  · have htext : String.ofList (encode s.toList) = "\"" ++ s ++ "\"" := by
      rw [hencode]
      exact String.toList_inj.mp (by simp)
    exact htext ▸ .basic h hdouble hback
  · have htext : String.ofList (encode s.toList) = "'" ++ s ++ "'" := by
      rw [hencode]
      exact String.toList_inj.mp (by simp)
    exact htext ▸ .literal h hsingle

theorem Value.WrittenAs.of_text {text : String} (h : v.WrittenAs text) : v.WrittenAs v.text := by
  cases h with
  | basic simple double backslash => exact simple.writtenAs_encode
  | literal simple single => exact simple.writtenAs_encode
  | @integer n fits =>
    have htext : Value.text (.integer n) = Numeral.decimal n := by
      rw [Value.text, Numeral.signed, if_neg (by omega), Int.natAbs_natCast]
    exact htext ▸ .integer fits
  | boolean => exact .boolean
  | empty => exact .empty

theorem Line.WrittenAs.of_text {line : Line} {text : String} (h : line.WrittenAs text) :
    line.WrittenAs line.text := by
  cases h with
  | blank => exact .blank
  | statement written =>
    cases written with
    | table path =>
      rw [Line.text, Statement.text, path.text_eq]
      exact .statement (.table path)
    | element path =>
      rw [Line.text, Statement.text, path.text_eq]
      exact .statement (.element path)
    | assign path value =>
      rw [Line.text, Statement.text, path.text_eq]
      exact .statement (.assign path value.of_text)

theorem library_standard : library.Standard Line.text where
  lines := fun _ ⟨_, hline⟩ => hline.of_text
  writes _ _ := linesText_blockLines.symm
  reads text lines t hlines hbuild := by
    have hparse : parse? (linesText text lines) =
        Table.ofStatements? (lines.filterMap Line.statement?) := by
      rw [parse?, statements?_linesText hlines]
      rfl
    exact hparse.trans hbuild

end PowerPC.Toml
