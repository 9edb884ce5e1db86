import PowerPC.Text.Numeral
import PowerPC.Toml.Reader
import PowerPC.Toml.Value

/-!
# Unquoted values

Numbers, booleans, dates and times. Their texts consist of letters, digits and `+ - . : _`, and
none of these may follow a value, so the longest run of them is classified as a whole. Only a date
may be followed by a time after a blank.
-/

namespace PowerPC.Toml

/-- The value of one or more digits, between which single underscores may stand. The flag says
whether the character before was a digit. -/
def digitsFrom? (base : Nat) (afterDigit : Bool) (value : Nat) : List Char → Option Nat
  | [] => if afterDigit then some value else none
  | c :: rest =>
    if c = '_' then if afterDigit then digitsFrom? base false value rest else none
    else
      match Numeral.digit? base c with
      | some d => digitsFrom? base true (value * base + d) rest
      | none => none

def digits? (base : Nat) (cs : List Char) : Option Nat := digitsFrom? base false 0 cs

def decimal? : List Char → Option Nat
  | '0' :: _ :: _ => none
  | cs => digits? 10 cs

def splitSign : List Char → Bool × List Char
  | '-' :: cs => (true, cs)
  | '+' :: cs => (false, cs)
  | cs => (false, cs)

def integerInRange? (n : Int) : Option Int :=
  if -0x8000000000000000 ≤ n ∧ n < 0x8000000000000000 then some n else none

def integer? : List Char → Option Int
  | '0' :: 'x' :: cs => (digits? 16 cs).bind fun n => integerInRange? n
  | '0' :: 'o' :: cs => (digits? 8 cs).bind fun n => integerInRange? n
  | '0' :: 'b' :: cs => (digits? 2 cs).bind fun n => integerInRange? n
  | cs =>
    let (negative, cs) := splitSign cs
    (decimal? cs).bind fun n => integerInRange? (if negative then -n else n)

/-- Whether `mantissa * 10 ^ exponent` rounds beyond the greatest finite number of 64 bits. -/
def overflows (mantissa : Nat) (exponent : Int) : Bool :=
  let magnitude := (Nat.toDigits 10 mantissa).length + exponent
  let limit := (1 <<< 1024) - (1 <<< 970)
  if mantissa = 0 ∨ magnitude < 300 then false
  else if 320 < magnitude then true
  else if 0 ≤ exponent then decide (limit ≤ mantissa * Nat.pow 10 exponent.toNat)
  else decide (limit * Nat.pow 10 (-exponent).toNat ≤ mantissa)

def exponent? (cs : List Char) : Option Int :=
  let (negative, cs) := splitSign cs
  (digits? 10 cs).map fun n => if negative then -n else n

/-- Mantissa and exponent of an unsigned number with a fraction, an exponent or both. -/
def fractional? (cs : List Char) : Option (Nat × Int) :=
  let isDigitText (c : Char) : Bool := c.isDigit || c = '_'
  let whole := cs.takeWhile isDigitText
  match cs.dropWhile isDigitText with
  | '.' :: rest => do
    let fraction := rest.takeWhile isDigitText
    let exponent ← match rest.dropWhile isDigitText with
      | [] => some 0
      | e :: rest => if e = 'e' ∨ e = 'E' then exponent? rest else none
    let _ ← decimal? whole
    let _ ← digits? 10 fraction
    let mantissa ← digits? 10 (whole ++ fraction)
    return (mantissa, exponent - (fraction.filter Char.isDigit).length)
  | e :: rest =>
    if e = 'e' ∨ e = 'E' then do return (← decimal? whole, ← exponent? rest) else none
  | [] => none

/-- Numbers with a fraction or an exponent, infinities and the values that are no number. One
that only rounds to positive infinity is refused. -/
def isFloat (cs : List Char) : Bool :=
  let (negative, cs) := splitSign cs
  if cs = ['i', 'n', 'f'] ∨ cs = ['n', 'a', 'n'] then true
  else
    match fractional? cs with
    | some (mantissa, exponent) => negative || !overflows mantissa exponent
    | none => false

namespace Clock

open Reader (char char? one? span)

def digits : Nat → Nat → Reader Nat
  | 0, value => return value
  | n + 1, value => fun
    | c :: rest => if c.isDigit then digits n (value * 10 + (c.toNat - '0'.toNat)) rest else none
    | [] => none

def twoDigits (low high : Nat) : Reader Nat := do
  let n ← digits 2 0
  if low ≤ n ∧ n ≤ high then return n else failure

def monthLength (year month : Nat) : Nat :=
  if month = 2 then
    if year % 4 = 0 ∧ (year % 100 ≠ 0 ∨ year % 400 = 0) then 29 else 28
  else if month = 4 ∨ month = 6 ∨ month = 9 ∨ month = 11 then 30
  else 31

def date : Reader Unit := do
  let year ← digits 4 0
  char '-'
  let month ← twoDigits 1 12
  char '-'
  let _ ← twoDigits 1 (monthLength year month)

def time : Reader Unit := do
  let _ ← twoDigits 0 23
  char ':'
  let _ ← twoDigits 0 59
  char ':'
  let _ ← twoDigits 0 60
  if ← char? '.' then
    if (← span Char.isDigit).isEmpty then failure

/-- The distance from universal time, which may be left out. -/
def offset : Reader Unit := fun
  | [] => some ((), [])
  | c :: rest =>
    if c = 'Z' ∨ c = 'z' then some ((), rest)
    else if c = '+' ∨ c = '-' then
      (do let _ ← twoDigits 0 23
          char ':'
          let _ ← twoDigits 0 59 : Reader Unit) rest
    else none

def timeWithOffset : Reader Unit := do
  time
  offset

def dateTime : Reader Unit := do
  date
  if ← one? fun c => c = 'T' || c = 't' then timeWithOffset

end Clock

def isScalarChar (c : Char) : Bool :=
  c.isAlphanum || c = '+' || c = '-' || c = '.' || c = ':' || c = '_'

def scalar? (cs : List Char) : Option Value :=
  if cs = ['t', 'r', 'u', 'e'] then some (.boolean true)
  else if cs = ['f', 'a', 'l', 's', 'e'] then some (.boolean false)
  else
    match integer? cs with
    | some n => some (.integer n)
    | none =>
      if isFloat cs then some (.float (String.ofList cs))
      else if Clock.dateTime.accepts cs ∨ Clock.time.accepts cs then
        some (.dateTime (String.ofList cs))
      else none

def timeAfterBlank : Reader (List Char) := do
  Reader.char ' '
  let cs ← Reader.span isScalarChar
  if Clock.timeWithOffset.accepts cs then return ' ' :: cs else failure

def scalar : Reader Value := do
  let cs ← Reader.span isScalarChar
  if Clock.date.accepts cs then
    let rest ← timeAfterBlank <|> return []
    return .dateTime (String.ofList (cs ++ rest))
  else
    match scalar? cs with
    | some v => return v
    | none => failure

end PowerPC.Toml
