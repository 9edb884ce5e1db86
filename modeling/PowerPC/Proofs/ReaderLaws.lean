import PowerPC.Proofs.NumeralLaws
import PowerPC.Toml.Statement

/-!
# Values read back

What the readers take off a text that was written in front of some rest. A run of characters is
taken up to the first one outside its class, so the rest has to begin with such a one. Read back are
decimal numbers, truth values and quoted texts that one line can hold without an escape.
-/

namespace PowerPC.Toml

variable {α β : Type} {cs xs rest : List Char} {c : Char} {n : Nat}

-- ---------------------------------------------------------------------------
-- Readers
-- ---------------------------------------------------------------------------

namespace Reader

/-- The text does not begin with a character of the class. -/
def StopsAt (p : Char → Bool) (cs : List Char) : Prop := ∀ c ∈ cs.head?, p c = false

theorem StopsAt.cons {p : Char → Bool} (h : p c = false) : StopsAt p (c :: rest) := by
  intro d hd
  cases hd
  exact h

theorem ne_of_class {p : Char → Bool} {d : Char} (hc : p c = true) (hd : p d = false) : c ≠ d := by
  rintro rfl
  exact Bool.false_ne_true (hd.symm.trans hc)

theorem takeWhile_append {p : Char → Bool} (hxs : ∀ c ∈ xs, p c = true) (hrest : StopsAt p rest) :
    (xs ++ rest).takeWhile p = xs ∧ (xs ++ rest).dropWhile p = rest := by
  have hstop : rest.takeWhile p = [] ∧ rest.dropWhile p = rest := by
    cases rest with
    | nil => exact ⟨rfl, rfl⟩
    | cons c rest => simp [hrest c rfl]
  rw [List.takeWhile_append_of_pos hxs, List.dropWhile_append_of_pos hxs, hstop.1, hstop.2,
    List.append_nil]
  exact ⟨rfl, rfl⟩

theorem bind_run {x : Reader α} {f : α → Reader β} {a : α} (h : x cs = some (a, rest)) :
    (x >>= f) cs = f a rest := by
  have hbind : (x >>= f) cs = (x cs).bind fun p => f p.1 p.2 := rfl
  rw [hbind, h]
  rfl

theorem bind_none {x : Reader α} {f : α → Reader β} (h : x cs = none) : (x >>= f) cs = none := by
  have hbind : (x >>= f) cs = (x cs).bind fun p => f p.1 p.2 := rfl
  rw [hbind, h]
  rfl

theorem map_run {x : Reader α} {f : α → β} {a : α} (h : x cs = some (a, rest)) :
    (f <$> x) cs = some (f a, rest) := by
  have hmap : (f <$> x) cs = (x cs).bind fun p => some (f p.1, p.2) := rfl
  rw [hmap, h]
  rfl

theorem get_run : (get : Reader (List Char)) cs = some (cs, cs) := rfl

theorem span_append {p : Char → Bool} (hxs : ∀ c ∈ xs, p c = true) (hrest : StopsAt p rest) :
    span p (xs ++ rest) = some (xs, rest) := by
  obtain ⟨htake, hdrop⟩ := takeWhile_append hxs hrest
  rw [span, htake, hdrop]

theorem char_cons : char c (c :: rest) = some ((), rest) := if_pos rfl

theorem char?_cons : char? c (c :: rest) = some (true, rest) := if_pos (decide_eq_true rfl)

theorem char?_of_head?_ne (h : cs.head? ≠ some c) : char? c cs = some (false, cs) := by
  cases cs with
  | nil => rfl
  | cons d cs =>
    have hne : d ≠ c := fun hdc => h (congrArg some hdc)
    exact if_neg (by simpa using hne)

theorem blanks_append (hxs : ∀ c ∈ xs, isBlank c = true) (hrest : StopsAt isBlank rest) :
    blanks (xs ++ rest) = some ((), rest) :=
  bind_run (span_append hxs hrest)

theorem blanks_of_stopsAt (h : StopsAt isBlank cs) : blanks cs = some ((), cs) :=
  blanks_append (List.forall_mem_nil _) h

theorem endOfLine_newline : endOfLine ('\n' :: rest) = some ((), rest) := rfl

end Reader

-- ---------------------------------------------------------------------------
-- Numbers
-- ---------------------------------------------------------------------------

open Reader (StopsAt)

def AreDigits (cs : List Char) : Prop := ∀ c ∈ cs, (Numeral.digit? 10 c).isSome

theorem AreDigits.notMem (h : AreDigits cs) (hc : Numeral.digit? 10 c = none) : c ∉ cs := by
  intro hmem
  simpa [hc] using h c hmem

theorem toList_decimal : (Numeral.decimal n).toList = Nat.toDigits 10 n := by
  have hlength : 1 - (Nat.toDigits 10 n).length = 0 := by
    have hpos : 0 < (Nat.toDigits 10 n).length := Nat.length_toDigits_pos
    omega
  rw [Numeral.decimal, Numeral.toList_padded, hlength]
  rfl

theorem areDigits_toDigits : AreDigits (Nat.toDigits 10 n) := fun _ hc =>
  Numeral.isSome_digit?_of_mem_toDigits (by decide) (by decide) hc

/-- Only zero is written with a zero in front. -/
theorem toDigits_eq_cons (hpos : 0 < n) :
    ∃ c cs, Nat.toDigits 10 n = c :: cs ∧ c ≠ '0' := by
  refine Numeral.toDigits_induction
    (P := fun n digits => 0 < n → ∃ c cs, digits = c :: cs ∧ c ≠ '0') (by decide) ?_ ?_ hpos
  · intro n hn hpos
    have hdigit : ∀ n < 10, 0 < n → Nat.digitChar n ≠ '0' := by decide
    exact ⟨_, [], rfl, hdigit n hn hpos⟩
  · intro n digits hle ih _
    obtain ⟨c, cs, rfl, hc⟩ := ih (Nat.div_pos hle (by decide))
    exact ⟨c, _, rfl, hc⟩

theorem digitsFrom?_eq {base value : Nat} {afterDigit : Bool}
    (hdigits : ∀ c ∈ cs, (Numeral.digit? base c).isSome) (hne : afterDigit = true ∨ cs ≠ []) :
    digitsFrom? base afterDigit value cs =
      some (cs.foldl (fun n c => n * base + (Numeral.digit? base c).getD 0) value) := by
  induction cs generalizing afterDigit value with
  | nil =>
    have hafter : afterDigit = true := hne.resolve_right fun h => h rfl
    rw [digitsFrom?, hafter]
    rfl
  | cons c cs ih =>
    obtain ⟨d, hd⟩ := Option.isSome_iff_exists.mp (hdigits c List.mem_cons_self)
    have hc : c ≠ '_' := by
      rintro rfl
      have hnone : Numeral.digit? base '_' = none := rfl
      rw [hnone] at hd
      cases hd
    rw [digitsFrom?, if_neg hc, hd]
    simp only
    rw [ih (fun e he => hdigits e (List.mem_cons_of_mem c he)) (.inl rfl), List.foldl_cons, hd,
      Option.getD_some]

theorem digits?_toDigits : digits? 10 (Nat.toDigits 10 n) = some n := by
  rw [digits?, digitsFrom?_eq areDigits_toDigits (.inr Nat.toDigits_ne_nil)]
  exact congrArg some (Numeral.value_toDigits (by decide) (by decide))

theorem decimal?_toDigits : decimal? (Nat.toDigits 10 n) = some n := by
  rw [← digits?_toDigits (n := n)]
  unfold decimal?
  split
  · rename_i c cs h
    -- Two digits of which the first is zero are no number's.
    cases n with
    | zero => cases h
    | succ n =>
      obtain ⟨d, ds, hds, hd⟩ := toDigits_eq_cons (Nat.succ_pos n)
      rw [hds] at h
      cases h
      exact absurd rfl hd
  · rfl

theorem splitSign_of_areDigits (h : AreDigits cs) : splitSign cs = (false, cs) := by
  unfold splitSign
  split
  · exact absurd List.mem_cons_self (h.notMem (by decide))
  · exact absurd List.mem_cons_self (h.notMem (by decide))
  · rfl

theorem integer?_of_areDigits (h : AreDigits cs) :
    integer? cs = (decimal? cs).bind fun n => integerInRange? n := by
  have hletter {d : Char} {ds : List Char} (hd : Numeral.digit? 10 d = none) :
      cs ≠ '0' :: d :: ds := fun heq =>
    h.notMem hd (heq ▸ List.mem_cons_of_mem _ List.mem_cons_self)
  rw [integer?]
  · rw [splitSign_of_areDigits h]
    simp
  · exact fun _ => hletter (by decide)
  · exact fun _ => hletter (by decide)
  · exact fun _ => hletter (by decide)

theorem integer?_toDigits (hn : n < 0x8000000000000000) :
    integer? (Nat.toDigits 10 n) = some (n : Int) := by
  have hrange : integerInRange? n = some (n : Int) := if_pos (by omega)
  rw [integer?_of_areDigits areDigits_toDigits, decimal?_toDigits, Option.bind_some, hrange]

-- ---------------------------------------------------------------------------
-- Unquoted values
-- ---------------------------------------------------------------------------

theorem Clock.subset_of_digits {value y : Nat} (h : Clock.digits n value cs = some (y, rest)) :
    rest ⊆ cs := by
  induction n generalizing value cs with
  | zero =>
    cases h
    exact List.Subset.refl _
  | succ n ih =>
    cases cs with
    | nil => cases h
    | cons c cs =>
      simp only [Clock.digits] at h
      split at h
      · exact List.Subset.trans (ih h) (List.subset_cons_self c cs)
      · cases h

/-- A date has a hyphen. -/
theorem Clock.not_accepts_date (h : '-' ∉ cs) : Clock.date.accepts cs = false := by
  have hnone : Clock.date cs = none := by
    cases hyear : Clock.digits 4 0 cs with
    | none => exact Reader.bind_none hyear
    | some p =>
      refine (Reader.bind_run hyear).trans (Reader.bind_none ?_)
      have hsub : p.2 ⊆ cs := Clock.subset_of_digits hyear
      cases hrest : p.2 with
      | nil => rfl
      | cons d ds =>
        have hd : d ≠ '-' := by
          rintro rfl
          exact h (hsub (hrest ▸ List.mem_cons_self))
        exact if_neg hd
  rw [Reader.accepts, Reader.bind_none hnone]
  rfl

theorem scalar_append {v : Value} (hxs : ∀ c ∈ xs, isScalarChar c = true)
    (hrest : StopsAt isScalarChar rest) (hdate : '-' ∉ xs) (hv : scalar? xs = some v) :
    scalar (xs ++ rest) = some (v, rest) := by
  refine (Reader.bind_run (Reader.span_append hxs hrest)).trans ?_
  simp only [Clock.not_accepts_date hdate, hv, Bool.false_eq_true, if_false]
  rfl

theorem isScalarChar_toDigits (hc : c ∈ Nat.toDigits 10 n) : isScalarChar c = true := by
  have hdigit : c.isDigit = true := Nat.isDigit_of_mem_toDigits (by decide) (by decide) hc
  simp [isScalarChar, Char.isAlphanum, hdigit]

theorem scalar_toDigits (hn : n < 0x8000000000000000) (hrest : StopsAt isScalarChar rest) :
    scalar (Nat.toDigits 10 n ++ rest) = some (.integer n, rest) := by
  have hdigits : AreDigits (Nat.toDigits 10 n) := areDigits_toDigits
  have hword {w : List Char} {c : Char} (hc : c ∈ w) (hnone : Numeral.digit? 10 c = none) :
      Nat.toDigits 10 n ≠ w := fun h => hdigits.notMem hnone (h ▸ hc)
  refine scalar_append (fun _ => isScalarChar_toDigits) hrest (hdigits.notMem (by decide)) ?_
  rw [scalar?, if_neg (hword (c := 't') (by decide) (by decide)),
    if_neg (hword (c := 'f') (by decide) (by decide)), integer?_toDigits hn]

theorem isScalarChar_boolean (b : Bool) :
    ∀ c ∈ (if b then "true" else "false").toList, isScalarChar c = true :=
  List.all_eq_true.mp (by cases b <;> rfl)

theorem scalar_boolean (b : Bool) (hrest : StopsAt isScalarChar rest) :
    scalar ((if b then "true" else "false").toList ++ rest) = some (.boolean b, rest) := by
  refine scalar_append (isScalarChar_boolean b) hrest ?_ ?_
  · cases b <;> decide
  · cases b <;> rfl

-- ---------------------------------------------------------------------------
-- Quoted texts
-- ---------------------------------------------------------------------------

namespace Quoted

/-- A text that one line holds as it is between double or single quotes: its characters are
printable, and a single quote does not meet a double quote or a backslash. -/
structure Simple (cs : List Char) : Prop where
  printable : ∀ c ∈ cs, ' ' ≤ c ∧ c ≠ '\x7f'
  unmixed : '\'' ∈ cs → '"' ∉ cs ∧ '\\' ∉ cs

theorem basic_append (hcs : ∀ c ∈ cs, Reader.isPrintable c = true ∧ c ≠ '"' ∧ c ≠ '\\') :
    basic (cs ++ '"' :: rest) = some (cs, rest) := by
  induction cs with
  | nil => rfl
  | cons c cs ih =>
    obtain ⟨hprint, hquote, hback⟩ := hcs c List.mem_cons_self
    have hrest := ih fun d hd => hcs d (List.mem_cons_of_mem c hd)
    rw [List.cons_append, basic]
    · rw [if_pos ⟨hprint, hback⟩, hrest]
      rfl
    · exact hquote
    all_goals
      intros
      exact hback (by assumption)

theorem literal_append (hcs : ∀ c ∈ cs, Reader.isPrintable c = true ∧ c ≠ '\'') :
    literal (cs ++ '\'' :: rest) = some (cs, rest) := by
  induction cs with
  | nil => rfl
  | cons c cs ih =>
    obtain ⟨hprint, hquote⟩ := hcs c List.mem_cons_self
    have hrest := ih fun d hd => hcs d (List.mem_cons_of_mem c hd)
    rw [List.cons_append, literal]
    · rw [if_pos hprint, hrest]
      rfl
    · exact hquote

theorem longestRun_eq_zero_iff {k : Nat} : longestRun c k cs = 0 ↔ k = 0 ∧ c ∉ cs := by
  induction cs generalizing k with
  | nil => simp [longestRun]
  | cons d cs ih =>
    rw [longestRun, List.mem_cons, not_or]
    split
    · rename_i hd
      simp [ih, hd]
    · rename_i hd
      simp [ih, Ne.symm hd]

namespace Simple

variable (h : Simple cs)
include h

theorem isPrintable (hc : c ∈ cs) : Reader.isPrintable c = true := by
  obtain ⟨hle, hne⟩ := h.printable c hc
  simp [Reader.isPrintable, hle, hne]

theorem not_isControl (hc : c ∈ cs) : isControl c = false := by
  obtain ⟨hle, hne⟩ := h.printable c hc
  simp [isControl, hne, Char.not_lt.mpr hle]

theorem any_isControl : cs.any isControl = false :=
  List.any_eq_false.mpr fun c hc => by simp [h.not_isControl hc]

theorem newline_notMem : '\n' ∉ cs := fun hmem =>
  absurd (h.printable _ hmem).1 (by decide)

theorem escapeChar_eq (hc : c ∈ cs) (hback : c ≠ '\\') : escapeChar false c = [c] := by
  have hprint := (h.printable c hc).1
  have hne {d : Char} (hd : ¬ ' ' ≤ d) : c ≠ d := fun heq => hd (heq ▸ hprint)
  rw [escapeChar]
  · simp [h.not_isControl hc]
  · exact hne (by decide)
  · exact hne (by decide)
  · exact hne (by decide)
  · exact hne (by decide)
  · exact hne (by decide)
  · exact hback

end Simple

theorem Simple.tail (h : Simple (c :: cs)) : Simple cs where
  printable d hd := h.printable d (List.mem_cons_of_mem c hd)
  unmixed hsingle := by
    obtain ⟨hdouble, hback⟩ := h.unmixed (List.mem_cons_of_mem c hsingle)
    exact ⟨fun hmem => hdouble (List.mem_cons_of_mem c hmem),
      fun hmem => hback (List.mem_cons_of_mem c hmem)⟩

theorem Simple.escape_eq (h : Simple cs) (hdouble : '"' ∉ cs) (hback : '\\' ∉ cs) :
    escape false 0 cs = cs := by
  induction cs with
  | nil => rfl
  | cons c cs ih =>
    rw [List.mem_cons, not_or] at hdouble hback
    rw [escape, if_neg (Ne.symm hdouble.1), h.escapeChar_eq List.mem_cons_self (Ne.symm hback.1),
      ih h.tail hdouble.2 hback.2]
    rfl

theorem Simple.encode_eq (h : Simple cs) :
    ('"' ∉ cs ∧ '\\' ∉ cs ∧ encode cs = '"' :: cs ++ ['"']) ∨
    ('\'' ∉ cs ∧ encode cs = '\'' :: cs ++ ['\'']) := by
  by_cases hplain : '"' ∉ cs ∧ '\\' ∉ cs
  · obtain ⟨hdouble, hback⟩ := hplain
    have hstyle : Style.of cs = .basic := by
      simp [Style.of, h.any_isControl, h.newline_notMem, hback, longestRun_eq_zero_iff, hdouble]
    exact .inl ⟨hdouble, hback, by simp only [encode, hstyle, h.escape_eq hdouble hback]⟩
  · have hsingle : '\'' ∉ cs := fun hmem => hplain (h.unmixed hmem)
    have hstyle : Style.of cs = .literal := by
      have hmixed : '"' ∈ cs ∨ '\\' ∈ cs := by
        rwa [Decidable.not_and_iff_not_or_not, Decidable.not_not, Decidable.not_not] at hplain
      rcases hmixed with hmem | hmem
      · simp [Style.of, h.any_isControl, h.newline_notMem, longestRun_eq_zero_iff, hmem, hsingle]
      · simp [Style.of, h.any_isControl, h.newline_notMem, longestRun_eq_zero_iff, hmem, hsingle]
    exact .inr ⟨hsingle, by simp only [encode, hstyle]⟩

/-- After an empty text no third quote may follow. -/
theorem text_basic (h : Simple cs) (hdouble : '"' ∉ cs) (hback : '\\' ∉ cs)
    (hrest : rest.head? ≠ some '"') :
    text ('"' :: (cs ++ '"' :: rest)) = some (String.ofList cs, rest) := by
  have hbasic : basic (cs ++ '"' :: rest) = some (cs, rest) :=
    basic_append fun c hc => ⟨h.isPrintable hc, fun heq => hdouble (heq ▸ hc),
      fun heq => hback (heq ▸ hc)⟩
  rw [text]
  · rw [line, hbasic]
    rfl
  · intro rest' heq
    cases cs with
    | nil =>
      obtain rfl : rest = '"' :: rest' := by simpa using heq
      exact hrest rfl
    | cons c cs =>
      obtain ⟨rfl, -⟩ : c = '"' ∧ cs ++ '"' :: rest = '"' :: rest' := by simpa using heq
      exact hdouble List.mem_cons_self
  · nofun

theorem text_literal (h : Simple cs) (hsingle : '\'' ∉ cs) (hrest : rest.head? ≠ some '\'') :
    text ('\'' :: (cs ++ '\'' :: rest)) = some (String.ofList cs, rest) := by
  have hliteral : literal (cs ++ '\'' :: rest) = some (cs, rest) :=
    literal_append fun c hc => ⟨h.isPrintable hc, fun heq => hsingle (heq ▸ hc)⟩
  rw [text]
  · rw [line, hliteral]
    rfl
  · nofun
  · intro rest' heq
    cases cs with
    | nil =>
      obtain rfl : rest = '\'' :: rest' := by simpa using heq
      exact hrest rfl
    | cons c cs =>
      obtain ⟨rfl, -⟩ : c = '\'' ∧ cs ++ '\'' :: rest = '\'' :: rest' := by simpa using heq
      exact hsingle List.mem_cons_self

end Quoted

end PowerPC.Toml
