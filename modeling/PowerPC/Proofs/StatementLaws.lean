import PowerPC.Proofs.ReaderLaws
import PowerPC.Toml.Document

/-!
# Documents read line by line

How a statement may stand on a line of its own, if its keys are bare and its value needs no escape.
A document whose lines are blank or hold one such statement each is read as those statements,
whichever quotes it uses.
-/

namespace PowerPC.Toml

variable {α : Type} {cs rest blank : List Char} {c : Char} {key : String} {p : Path} {v : Value}
variable {s : Statement} {text : String} {fuel depth : Nat}

open Reader (StopsAt isBlank ne_of_class)

-- ---------------------------------------------------------------------------
-- Keys
-- ---------------------------------------------------------------------------

def IsBare (key : String) : Prop := key ≠ "" ∧ key.toList.all isBareKeyChar

instance : Decidable (IsBare key) := inferInstanceAs (Decidable (_ ∧ _))

theorem IsBare.keyText_eq (h : IsBare key) : keyText key = key := if_pos h

theorem IsBare.exists_cons (h : IsBare key) :
    ∃ c cs, key.toList = c :: cs ∧ isBareKeyChar c = true := by
  cases hlist : key.toList with
  | nil => exact absurd (String.toList_eq_nil_iff.mp hlist) h.1
  | cons c cs => exact ⟨c, cs, rfl, List.all_eq_true.mp (hlist ▸ h.2) c List.mem_cons_self⟩

/-- A path of bare keys, with no more parts than a reader takes. -/
structure Path.Plain (p : Path) : Prop where
  bare : ∀ key ∈ p.parents ++ [p.key], IsBare key
  short : p.parents.length + 1 < maxDepth

def Path.dotted (p : Path) : String := ".".intercalate (p.parents ++ [p.key])

theorem Path.Plain.text_eq (h : p.Plain) : p.text = p.dotted := by
  have hkeys : (p.parents ++ [p.key]).map keyText = p.parents ++ [p.key] :=
    (List.map_congr_left fun key hkey => (h.bare key hkey).keyText_eq).trans (List.map_id _)
  rw [Path.text, hkeys, Path.dotted]

def EndsKey (cs : List Char) : Prop := StopsAt (fun c => isBareKeyChar c || isBlank c || c = '.') cs

theorem EndsKey.stopsAt_bare (h : EndsKey rest) : StopsAt isBareKeyChar rest := fun c hc => by
  have hstop := h c hc
  simp only [Bool.or_eq_false_iff] at hstop
  exact hstop.1.1

theorem EndsKey.stopsAt_blank (h : EndsKey rest) : StopsAt isBlank rest := fun c hc => by
  have hstop := h c hc
  simp only [Bool.or_eq_false_iff] at hstop
  exact hstop.1.2

theorem EndsKey.head?_ne (h : EndsKey rest) : rest.head? ≠ some '.' := fun hc => by
  simpa using h '.' hc

theorem isBlank_iff : isBlank c = true ↔ c = ' ' ∨ c = '\t' := by simp [isBlank]

theorem isBlank_of_class {p : Char → Bool} (h : p c = true) (hspace : p ' ' = false)
    (htab : p '\t' = false) : isBlank c = false := by
  rw [Bool.eq_false_iff, Ne, isBlank_iff]
  exact not_or.mpr ⟨ne_of_class h hspace, ne_of_class h htab⟩

theorem EndsKey.stopsAt_blanks (hblank : ∀ c ∈ blank, isBlank c = true) (h : EndsKey rest) :
    StopsAt isBareKeyChar (blank ++ rest) := by
  cases blank with
  | nil => exact h.stopsAt_bare
  | cons c cs =>
    rcases isBlank_iff.mp (hblank c List.mem_cons_self) with rfl | rfl
    · exact StopsAt.cons rfl
    · exact StopsAt.cons rfl

theorem keyPart_append (h : IsBare key) (hrest : StopsAt isBareKeyChar rest) :
    keyPart (key.toList ++ rest) = some (key, rest) := by
  obtain ⟨c, cs, hkey, hc⟩ := h.exists_cons
  have hspan := Reader.takeWhile_append (List.all_eq_true.mp h.2) hrest
  have hquote : ¬ (c = '"' ∨ c = '\'') := not_or.mpr ⟨ne_of_class hc rfl, ne_of_class hc rfl⟩
  rw [hkey, List.cons_append] at hspan ⊢
  simp only [keyPart, if_neg hquote, hspan]
  rw [← hkey, String.ofList_toList]

theorem stopsAt_blank_key (h : IsBare key) : StopsAt isBlank (key.toList ++ rest) := by
  obtain ⟨c, cs, hkey, hc⟩ := h.exists_cons
  rw [hkey]
  exact StopsAt.cons (isBlank_of_class hc rfl rfl)

theorem keyParts_succ (h : IsBare key) (hblank : ∀ c ∈ blank, isBlank c = true)
    (hstop : StopsAt isBareKeyChar (blank ++ rest)) (hrest : StopsAt isBlank rest) :
    keyParts (fuel + 1) (key.toList ++ (blank ++ rest)) =
      (do if ← Reader.char? '.' then return key :: (← keyParts fuel) else return [key] :
        Reader (List String)) rest := by
  refine (Reader.bind_run (Reader.blanks_of_stopsAt (stopsAt_blank_key h))).trans ?_
  refine (Reader.bind_run (keyPart_append h hstop)).trans ?_
  exact Reader.bind_run (Reader.blanks_append hblank hrest)

theorem keyParts_append {parts : List String} (hne : parts ≠ [])
    (hbare : ∀ key ∈ parts, IsBare key) (hfuel : parts.length ≤ fuel)
    (hblank : ∀ c ∈ blank, isBlank c = true) (hrest : EndsKey rest) :
    keyParts fuel ((".".intercalate parts).toList ++ (blank ++ rest)) =
      some (parts, rest) := by
  rw [String.toList_intercalate]
  induction parts generalizing fuel with
  | nil => exact absurd rfl hne
  | cons key parts ih =>
    obtain ⟨hkey, hparts⟩ := List.forall_mem_cons.mp hbare
    obtain ⟨fuel, rfl⟩ : ∃ n, fuel = n + 1 := Nat.exists_eq_add_one.mpr (Nat.zero_lt_of_lt hfuel)
    cases parts with
    | nil =>
      rw [List.map_singleton, List.intercalate_singleton,
        keyParts_succ hkey hblank (hrest.stopsAt_blanks hblank) hrest.stopsAt_blank,
        Reader.bind_run (Reader.char?_of_head?_ne hrest.head?_ne)]
      rfl
    | cons next parts =>
      have hnext := ih (List.cons_ne_nil next parts) hparts (Nat.le_of_lt_succ hfuel)
      have hdot : ".".toList = ['.'] := rfl
      rw [List.map_cons, List.map_cons, List.intercalate_cons_cons, List.append_assoc,
        List.append_assoc, hdot]
      refine (keyParts_succ hkey (List.forall_mem_nil _) (StopsAt.cons (by decide))
        (StopsAt.cons (by decide))).trans ?_
      exact (Reader.bind_run Reader.char?_cons).trans (Reader.bind_run hnext)

theorem path_append (h : p.Plain) (hblank : ∀ c ∈ blank, isBlank c = true) (hrest : EndsKey rest) :
    path (p.dotted.toList ++ (blank ++ rest)) = some (p, rest) := by
  have hfuel : (p.parents ++ [p.key]).length ≤ maxDepth - 1 := by
    have hshort := h.short
    simp only [List.length_append, List.length_singleton]
    omega
  refine (Reader.bind_run (keyParts_append (by simp) h.bare hfuel hblank hrest)).trans ?_
  simp only [List.getLast?_concat, List.dropLast_concat]
  rfl

theorem exists_intercalate_cons (sep x : List α) (xs : List (List α)) :
    ∃ tail, sep.intercalate (x :: xs) = x ++ tail := by
  cases xs with
  | nil => exact ⟨[], by simp⟩
  | cons y ys => exact ⟨_, by rw [List.intercalate_cons_cons, List.append_assoc]⟩

theorem Path.Plain.exists_cons (h : p.Plain) :
    ∃ c cs, p.dotted.toList = c :: cs ∧ isBareKeyChar c = true := by
  obtain ⟨key, keys, hparts⟩ : ∃ key keys, p.parents ++ [p.key] = key :: keys :=
    List.exists_cons_of_ne_nil (by simp)
  have hkey : IsBare key := h.bare key (by simp [hparts])
  obtain ⟨c, cs, hlist, hc⟩ := hkey.exists_cons
  obtain ⟨tail, htail⟩ := exists_intercalate_cons ".".toList key.toList (keys.map String.toList)
  refine ⟨c, cs ++ tail, ?_, hc⟩
  rw [Path.dotted, String.toList_intercalate, hparts, List.map_cons, htail, hlist,
    List.cons_append]

-- ---------------------------------------------------------------------------
-- Values
-- ---------------------------------------------------------------------------

/-- The ways to write a value on one line without an escape. -/
inductive Value.WrittenAs : Value → String → Prop
  | basic {s : String} (simple : Quoted.Simple s.toList) (double : '"' ∉ s.toList)
      (backslash : '\\' ∉ s.toList) : WrittenAs (.string s) ("\"" ++ s ++ "\"")
  | literal {s : String} (simple : Quoted.Simple s.toList) (single : '\'' ∉ s.toList) :
      WrittenAs (.string s) ("'" ++ s ++ "'")
  | integer {n : Nat} (fits : n < 0x8000000000000000) : WrittenAs (.integer n) (Numeral.decimal n)
  | boolean {b : Bool} : WrittenAs (.boolean b) (if b then "true" else "false")
  | empty : WrittenAs (.array []) "[]"

theorem value_scalar (hne : cs ≠ []) (hcs : ∀ c ∈ cs, isScalarChar c = true) :
    value depth (cs ++ rest) = scalar (cs ++ rest) := by
  obtain ⟨c, cs, rfl⟩ := List.exists_cons_of_ne_nil hne
  have hc : isScalarChar c = true := hcs c List.mem_cons_self
  have hquote : ¬ (c = '"' ∨ c = '\'') := not_or.mpr ⟨ne_of_class hc rfl, ne_of_class hc rfl⟩
  have hbracket : c ≠ '[' := ne_of_class hc rfl
  have hbrace : c ≠ '\x7b' := ne_of_class hc rfl
  cases depth with
  | zero => simp only [List.cons_append, value, if_neg hquote]
  | succ depth =>
    simp only [List.cons_append, value, if_neg hquote, if_neg hbracket, if_neg hbrace]

theorem value_of_quote {quote : Char} (hquote : quote = '"' ∨ quote = '\'')
    (htext : Quoted.text (quote :: cs) = some (text, rest)) :
    value (depth + 1) (quote :: cs) = some (.string text, rest) := by
  simp only [value, if_pos hquote]
  exact Reader.map_run htext

theorem value_append (h : v.WrittenAs text) :
    value (depth + 1) (text.toList ++ '\n' :: rest) = some (v, '\n' :: rest) := by
  have hstop : StopsAt isScalarChar ('\n' :: rest) := StopsAt.cons rfl
  cases h with
  | basic simple double backslash =>
    have hend : ('\n' :: rest).head? ≠ some '"' := by simp
    have htext := Quoted.text_basic simple double backslash hend
    rw [String.ofList_toList] at htext
    simpa using value_of_quote (.inl rfl) htext
  | literal simple single =>
    have hend : ('\n' :: rest).head? ≠ some '\'' := by simp
    have htext := Quoted.text_literal simple single hend
    rw [String.ofList_toList] at htext
    simpa using value_of_quote (.inr rfl) htext
  | integer fits =>
    rw [toList_decimal, value_scalar Nat.toDigits_ne_nil fun _ => isScalarChar_toDigits,
      scalar_toDigits fits hstop]
  | @boolean b =>
    rw [value_scalar ?_ (isScalarChar_boolean b), scalar_boolean b hstop]
    cases b <;> decide
  | empty => rfl

theorem Value.WrittenAs.stopsAt_blank (h : v.WrittenAs text) :
    StopsAt isBlank (text.toList ++ rest) := by
  cases h with
  | basic simple double backslash =>
    rw [String.append_assoc, String.toList_append]
    exact StopsAt.cons rfl
  | literal simple single =>
    rw [String.append_assoc, String.toList_append]
    exact StopsAt.cons rfl
  | @integer n fits =>
    obtain ⟨c, cs, hdigits⟩ := List.exists_cons_of_ne_nil (Nat.toDigits_ne_nil (b := 10) (n := n))
    have hc : isScalarChar c = true := isScalarChar_toDigits (hdigits ▸ List.mem_cons_self)
    rw [toList_decimal, hdigits]
    exact StopsAt.cons (isBlank_of_class hc rfl rfl)
  | @boolean b =>
    cases b with
    | false => exact StopsAt.cons (by decide)
    | true => exact StopsAt.cons (by decide)
  | empty => exact StopsAt.cons (by decide)

-- ---------------------------------------------------------------------------
-- Statements
-- ---------------------------------------------------------------------------

/-- The way to write a statement with bare keys on a line of its own. -/
inductive Statement.WrittenAs : Statement → String → Prop
  | table {p : Path} (path : p.Plain) : WrittenAs (.table p) ("[" ++ p.dotted ++ "]\n")
  | element {p : Path} (path : p.Plain) : WrittenAs (.element p) ("[[" ++ p.dotted ++ "]]\n")
  | assign {p : Path} {v : Value} {text : String} (path : p.Plain) (value : v.WrittenAs text) :
      WrittenAs (.assign p v) (p.dotted ++ " = " ++ text ++ "\n")

theorem assignment_append (hp : p.Plain) (hv : v.WrittenAs text) :
    assignment (value (depth + 1)) (p.dotted.toList ++ ([' '] ++ '=' :: ([' '] ++
      (text.toList ++ '\n' :: rest)))) = some ((p, v), '\n' :: rest) := by
  have hblank : ∀ c ∈ [' '], isBlank c = true := List.forall_mem_singleton.mpr rfl
  refine (Reader.bind_run (path_append hp hblank (StopsAt.cons (by decide)))).trans ?_
  refine (Reader.bind_run Reader.char_cons).trans ?_
  refine (Reader.bind_run (Reader.blanks_append hblank hv.stopsAt_blank)).trans ?_
  exact Reader.bind_run (value_append hv)

theorem header_table (h : p.Plain) :
    header ('[' :: (p.dotted.toList ++ ']' :: '\n' :: rest)) = some (.table p, rest) := by
  refine (Reader.bind_run Reader.char_cons).trans ?_
  refine (Reader.bind_run (Reader.char?_of_head?_ne ?_)).trans ?_
  · obtain ⟨c, cs, hlist, hc⟩ := h.exists_cons
    rw [hlist]
    exact fun heq => ne_of_class hc rfl (Option.some.inj heq)
  have hend : EndsKey (']' :: '\n' :: rest) := StopsAt.cons (by decide)
  refine (Reader.bind_run (path_append h (List.forall_mem_nil _) hend)).trans ?_
  refine (Reader.bind_run Reader.char_cons).trans ?_
  exact Reader.bind_run Reader.endOfLine_newline

theorem header_element (h : p.Plain) :
    header ('[' :: '[' :: (p.dotted.toList ++ ']' :: ']' :: '\n' :: rest)) =
      some (.element p, rest) := by
  refine (Reader.bind_run Reader.char_cons).trans ?_
  refine (Reader.bind_run Reader.char?_cons).trans ?_
  have hend : EndsKey (']' :: ']' :: '\n' :: rest) := StopsAt.cons (by decide)
  refine (Reader.bind_run (path_append h (List.forall_mem_nil _) hend)).trans ?_
  refine (Reader.bind_run Reader.char_cons).trans ?_
  refine (Reader.bind_run Reader.char_cons).trans ?_
  exact Reader.bind_run Reader.endOfLine_newline

theorem statementsFrom_newline :
    statementsFrom (fuel + 1) ('\n' :: rest) = statementsFrom fuel rest := rfl

section
variable {ss : List Statement} (hrest : statementsFrom fuel rest = some (ss, []))
include hrest

theorem statementsFrom_header (h : header ('[' :: cs) = some (s, rest)) :
    statementsFrom (fuel + 1) ('[' :: cs) = some (s :: ss, []) := by
  refine (Reader.bind_run (Reader.blanks_of_stopsAt (StopsAt.cons rfl))).trans ?_
  refine (Reader.bind_run Reader.get_run).trans ?_
  dsimp only [List.head?_cons]
  rw [if_neg (by decide), if_pos rfl]
  exact (Reader.bind_run h).trans (Reader.bind_run hrest)

theorem statementsFrom_assign (hp : p.Plain) (hv : v.WrittenAs text) :
    statementsFrom (fuel + 1) ((p.dotted ++ " = " ++ text ++ "\n").toList ++ rest) =
      some (.assign p v :: ss, []) := by
  have htext : (p.dotted ++ " = " ++ text ++ "\n").toList ++ rest =
      p.dotted.toList ++ ([' '] ++ '=' :: ([' '] ++ (text.toList ++ '\n' :: rest))) := by
    simp
  have hassign := @assignment_append rest p v text (maxDepth - 2) hp hv
  obtain ⟨c, cs, hlist, hc⟩ := hp.exists_cons
  have hlayout : ¬ (c = '#' ∨ c = '\n' ∨ c = '\r') :=
    not_or.mpr ⟨ne_of_class hc rfl, not_or.mpr ⟨ne_of_class hc rfl, ne_of_class hc rfl⟩⟩
  have hbracket : c ≠ '[' := ne_of_class hc rfl
  rw [htext]
  rw [hlist] at hassign ⊢
  have hblank : isBlank c = false := isBlank_of_class hc rfl rfl
  refine (Reader.bind_run (Reader.blanks_of_stopsAt (StopsAt.cons hblank))).trans ?_
  refine (Reader.bind_run Reader.get_run).trans ?_
  dsimp only [List.cons_append, List.head?_cons]
  rw [if_neg hlayout, if_neg hbracket]
  refine (Reader.bind_run hassign).trans ?_
  exact (Reader.bind_run Reader.endOfLine_newline).trans (Reader.bind_run hrest)

theorem statementsFrom_cons (hs : s.WrittenAs text) :
    statementsFrom (fuel + 1) (text.toList ++ rest) = some (s :: ss, []) := by
  cases hs with
  | @table p path => simpa using statementsFrom_header hrest (header_table path)
  | @element p path => simpa using statementsFrom_header hrest (header_element path)
  | assign path value => exact statementsFrom_assign hrest path value

end

-- ---------------------------------------------------------------------------
-- Lines
-- ---------------------------------------------------------------------------

inductive Line where
  | blank
  | statement (s : Statement)

namespace Line

def statement? : Line → Option Statement
  | .blank => none
  | .statement s => some s

inductive WrittenAs : Line → String → Prop
  | blank : WrittenAs .blank "\n"
  | statement {s : Statement} {text : String} (written : s.WrittenAs text) :
      WrittenAs (.statement s) text

end Line

theorem filterMap_statement {ss : List Statement} :
    (ss.map Line.statement).filterMap Line.statement? = ss :=
  List.filterMap_map.trans List.filterMap_some

/-- The text of a document, each line of which is written in a way of its own. -/
def linesText (text : Line → String) (lines : List Line) : String := String.join (lines.map text)

def blockLines (blocks : List (List Statement)) : List Line :=
  [Line.blank].intercalate (blocks.map fun b => b.map Line.statement)

variable {line : Line} {lines : List Line} {lineText : Line → String}

theorem toList_linesText :
    (linesText lineText lines).toList = lines.flatMap fun line => (lineText line).toList := by
  simp [linesText, String.toList_join, List.flatMap_map]

theorem toList_linesText_cons :
    (linesText lineText (line :: lines)).toList =
      (lineText line).toList ++ (linesText lineText lines).toList := by
  simp [toList_linesText]

theorem filterMap_blockLines {blocks : List (List Statement)} :
    (blockLines blocks).filterMap Line.statement? = blocks.flatten := by
  induction blocks with
  | nil => rfl
  | cons b blocks ih =>
    cases blocks with
    | nil => simpa [blockLines] using filterMap_statement
    | cons b' blocks =>
      have hcons : blockLines (b :: b' :: blocks) =
          b.map .statement ++ [.blank] ++ blockLines (b' :: blocks) := by
        simp only [blockLines, List.map_cons, List.intercalate_cons_cons]
      rw [hcons, List.filterMap_append, List.filterMap_append, filterMap_statement, ih]
      simp [Line.statement?]

theorem Line.WrittenAs.exists_cons (h : line.WrittenAs text) :
    ∃ c cs, text.toList = c :: cs ∧ c ≠ '\ufeff' := by
  cases h with
  | blank => exact ⟨'\n', [], rfl, by decide⟩
  | statement written =>
    cases written with
    | @table p path => exact ⟨'[', p.dotted.toList ++ [']', '\n'], by simp, by decide⟩
    | @element p path =>
      exact ⟨'[', '[' :: (p.dotted.toList ++ [']', ']', '\n']), by simp, by decide⟩
    | @assign p v text path value =>
      obtain ⟨c, cs, hlist, hc⟩ := path.exists_cons
      exact ⟨c, cs ++ (" = " ++ text ++ "\n").toList, by simp [hlist], ne_of_class hc rfl⟩

section
variable (h : ∀ line ∈ lines, line.WrittenAs (lineText line))
include h

theorem statementsFrom_linesText (hfuel : lines.length < fuel) :
    statementsFrom fuel (linesText lineText lines).toList =
      some (lines.filterMap Line.statement?, []) := by
  -- A line takes one unit of fuel, whether it holds a statement or not.
  induction lines generalizing fuel with
  | nil =>
    obtain ⟨fuel, rfl⟩ := Nat.exists_eq_add_one.mpr hfuel
    rfl
  | cons line lines ih =>
    obtain ⟨hline, hlines⟩ := List.forall_mem_cons.mp h
    obtain ⟨fuel, rfl⟩ := Nat.exists_eq_add_one.mpr (Nat.zero_lt_of_lt hfuel)
    have hrest := ih hlines (Nat.lt_of_succ_lt_succ hfuel)
    rw [toList_linesText_cons]
    generalize lineText line = text at hline ⊢
    cases hline with
    | blank => exact statementsFrom_newline.trans hrest
    | statement written => exact statementsFrom_cons hrest written

theorem length_le_linesText : lines.length ≤ (linesText lineText lines).toList.length := by
  induction lines with
  | nil => exact Nat.zero_le _
  | cons line lines ih =>
    obtain ⟨hline, hlines⟩ := List.forall_mem_cons.mp h
    obtain ⟨c, cs, hlist, -⟩ := hline.exists_cons
    have hle := ih hlines
    simp only [toList_linesText_cons, hlist, List.length_append, List.length_cons]
    omega

theorem dropMark_linesText :
    dropMark (linesText lineText lines).toList = (linesText lineText lines).toList := by
  cases lines with
  | nil => rfl
  | cons line lines =>
    obtain ⟨c, cs, hlist, hc⟩ := (h line List.mem_cons_self).exists_cons
    rw [toList_linesText_cons, hlist, List.cons_append, dropMark]
    exact fun _ heq => hc (List.cons.inj heq).1

theorem statements?_linesText :
    statements? (linesText lineText lines) = some (lines.filterMap Line.statement?) := by
  have hfuel := Nat.lt_succ_of_le (length_le_linesText h)
  rw [statements?, dropMark_linesText h, statementsFrom_linesText h hfuel, Option.map_some]

end

end PowerPC.Toml
