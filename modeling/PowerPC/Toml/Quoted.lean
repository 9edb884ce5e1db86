import PowerPC.Text.Numeral
import PowerPC.Toml.Reader

/-!
# Quoted texts

Four ways to quote: in double quotes with escapes or in single quotes without, on one line, or
with the quotes tripled over several. A text is written in the first of them that shows it as it
is, and with escapes if none does.
-/

namespace PowerPC.Toml.Quoted

/-! Reading. Each function takes what follows the opening quotes. -/

def escaped? : Char → Option Char
  | 'b' => some '\x08'
  | 't' => some '\t'
  | 'n' => some '\n'
  | 'f' => some '\x0c'
  | 'r' => some '\r'
  | '"' => some '"'
  | '\\' => some '\\'
  | _ => none

/-- The character of a code in hexadecimal; surrogates are none. -/
def scalarValue? (digits : List Char) : Option Char := do
  let values ← digits.mapM (Numeral.digit? 16)
  let code := values.foldl (fun code d => code * 16 + d) 0
  if code.isValidChar then return Char.ofNat code else none

def consTo (c : Char) (read : Option (List Char × List Char)) : Option (List Char × List Char) :=
  read.map fun (cs, rest) => (c :: cs, rest)

def basic : List Char → Option (List Char × List Char)
  | '"' :: rest => some ([], rest)
  | '\\' :: 'u' :: a :: b :: c :: d :: rest => do
    consTo (← scalarValue? [a, b, c, d]) (basic rest)
  | '\\' :: 'U' :: a :: b :: c :: d :: e :: f :: g :: h :: rest => do
    consTo (← scalarValue? [a, b, c, d, e, f, g, h]) (basic rest)
  | '\\' :: c :: rest => do consTo (← escaped? c) (basic rest)
  | c :: rest => if Reader.isPrintable c ∧ c ≠ '\\' then consTo c (basic rest) else none
  | [] => none

def literal : List Char → Option (List Char × List Char)
  | '\'' :: rest => some ([], rest)
  | c :: rest => if Reader.isPrintable c then consTo c (literal rest) else none
  | [] => none

/-- After a backslash at the end of a line, the blanks and newlines up to the next text are left
out. -/
inductive Gap where
  | none
  | toNewline
  | toText
deriving DecidableEq, Repr

/-- In triple double quotes. Up to two quotes may stand before the closing three. -/
def multilineBasic : Gap → List Char → Option (List Char × List Char)
  | .toNewline, '\n' :: rest => multilineBasic .toText rest
  | .toNewline, '\r' :: '\n' :: rest => multilineBasic .toText rest
  | .toNewline, c :: rest =>
    if Reader.isBlank c then multilineBasic .toNewline rest else none
  | .toText, '\n' :: rest => multilineBasic .toText rest
  | .toText, '\r' :: '\n' :: rest => multilineBasic .toText rest
  | .toText, ' ' :: rest => multilineBasic .toText rest
  | .toText, '\t' :: rest => multilineBasic .toText rest
  | _, '"' :: '"' :: '"' :: '"' :: '"' :: rest => some (['"', '"'], rest)
  | _, '"' :: '"' :: '"' :: '"' :: rest => some (['"'], rest)
  | _, '"' :: '"' :: '"' :: rest => some ([], rest)
  | _, '\n' :: rest => consTo '\n' (multilineBasic .none rest)
  | _, '\r' :: '\n' :: rest => consTo '\n' (multilineBasic .none rest)
  | _, '\\' :: 'u' :: a :: b :: c :: d :: rest => do
    consTo (← scalarValue? [a, b, c, d]) (multilineBasic .none rest)
  | _, '\\' :: 'U' :: a :: b :: c :: d :: e :: f :: g :: h :: rest => do
    consTo (← scalarValue? [a, b, c, d, e, f, g, h]) (multilineBasic .none rest)
  | _, '\\' :: '\n' :: rest => multilineBasic .toText rest
  | _, '\\' :: '\r' :: '\n' :: rest => multilineBasic .toText rest
  | _, '\\' :: ' ' :: rest => multilineBasic .toNewline rest
  | _, '\\' :: '\t' :: rest => multilineBasic .toNewline rest
  | _, '\\' :: c :: rest => do consTo (← escaped? c) (multilineBasic .none rest)
  | _, c :: rest =>
    if Reader.isPrintable c ∧ c ≠ '\\' then consTo c (multilineBasic .none rest) else none
  | _, [] => none

def multilineLiteral : List Char → Option (List Char × List Char)
  | '\'' :: '\'' :: '\'' :: '\'' :: '\'' :: rest => some (['\'', '\''], rest)
  | '\'' :: '\'' :: '\'' :: '\'' :: rest => some (['\''], rest)
  | '\'' :: '\'' :: '\'' :: rest => some ([], rest)
  | '\n' :: rest => consTo '\n' (multilineLiteral rest)
  | '\r' :: '\n' :: rest => consTo '\n' (multilineLiteral rest)
  | c :: rest => if Reader.isPrintable c then consTo c (multilineLiteral rest) else none
  | [] => none

/-- A newline right after the opening quotes is left out. -/
def dropNewline : List Char → List Char
  | '\n' :: rest => rest
  | '\r' :: '\n' :: rest => rest
  | cs => cs

def line : Reader String := fun
  | '"' :: rest => (basic rest).map fun (cs, rest) => (String.ofList cs, rest)
  | '\'' :: rest => (literal rest).map fun (cs, rest) => (String.ofList cs, rest)
  | _ => none

def text : Reader String := fun
  | '"' :: '"' :: '"' :: rest =>
    (multilineBasic .none (dropNewline rest)).map fun (cs, rest) => (String.ofList cs, rest)
  | '\'' :: '\'' :: '\'' :: rest =>
    (multilineLiteral (dropNewline rest)).map fun (cs, rest) => (String.ofList cs, rest)
  | cs => line cs

/-! Writing. -/

/-- The length of the longest run of a character; `current` is the length of the run before. -/
def longestRun (c : Char) (current : Nat) : List Char → Nat
  | [] => current
  | d :: rest =>
    if d = c then longestRun c (current + 1) rest else max current (longestRun c 0 rest)

def isControl (c : Char) : Bool := (c < ' ' && c ≠ '\t' && c ≠ '\n') || c = '\x7f'

def escapeChar (multiline : Bool) (c : Char) : List Char :=
  match c with
  | '\x08' => ['\\', 'b']
  | '\t' => ['\\', 't']
  | '\n' => if multiline then ['\n'] else ['\\', 'n']
  | '\x0c' => ['\\', 'f']
  | '\r' => ['\\', 'r']
  | '\\' => ['\\', '\\']
  | c =>
    if isControl c then
      '\\' :: 'u' :: ((Numeral.padded 16 4 c.toNat).toList.map Char.toUpper)
    else [c]

/-- Escape what cannot stand between double quotes. With the quotes tripled, two of them in a row
may; `quotes` counts those just before. -/
def escape (multiline : Bool) (quotes : Nat) : List Char → List Char
  | [] => []
  | c :: rest =>
    if c = '"' then
      if multiline ∧ quotes < 2 then '"' :: escape multiline (quotes + 1) rest
      else '\\' :: '"' :: escape multiline 0 rest
    else escapeChar multiline c ++ escape multiline 0 rest

inductive Style where
  | basic | literal | multilineBasic | multilineLiteral
deriving DecidableEq, Repr

def Style.of (cs : List Char) : Style :=
  let control := cs.any isControl
  let backslash := cs.contains '\\'
  let newline := cs.contains '\n'
  let doubles := longestRun '"' 0 cs
  let singles := longestRun '\'' 0 cs
  if !control && !backslash && !newline && doubles = 0 then .basic
  else if !control && !newline && singles = 0 then .literal
  else if !control && !backslash && doubles ≤ 2 then .multilineBasic
  else if !control && singles ≤ 2 then .multilineLiteral
  else if newline then .multilineBasic
  else .basic

/-- The text in quotes. Over several lines, it starts on a line of its own. -/
def encode (cs : List Char) : List Char :=
  let start := if cs.contains '\n' then ['\n'] else []
  match Style.of cs with
  | .basic => '"' :: escape false 0 cs ++ ['"']
  | .literal => '\'' :: cs ++ ['\'']
  | .multilineBasic => ['"', '"', '"'] ++ start ++ escape true 0 cs ++ ['"', '"', '"']
  | .multilineLiteral => ['\'', '\'', '\''] ++ start ++ cs ++ ['\'', '\'', '\'']

end PowerPC.Toml.Quoted
