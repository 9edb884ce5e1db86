/-!
# Readers

A reader takes a value off the front of a text and leaves the rest, or refuses the text.
-/

namespace PowerPC.Toml

abbrev Reader := StateT (List Char) Option

namespace Reader

def char (c : Char) : Reader Unit := fun
  | d :: rest => if d = c then some ((), rest) else none
  | [] => none

def one? (p : Char → Bool) : Reader Bool := fun
  | c :: rest => if p c then some (true, rest) else some (false, c :: rest)
  | [] => some (false, [])

def char? (c : Char) : Reader Bool := one? (· = c)

def span (p : Char → Bool) : Reader (List Char) := fun cs =>
  some (cs.takeWhile p, cs.dropWhile p)

def endOfText : Reader Unit := fun
  | [] => some ((), [])
  | _ :: _ => none

def accepts (r : Reader Unit) (cs : List Char) : Bool :=
  ((do r; endOfText : Reader Unit) cs).isSome

def isBlank (c : Char) : Bool := c = ' ' || c = '\t'

def blanks : Reader Unit := do let _ ← span isBlank

/-- Characters that may stand in a comment or a quoted text: all but control characters, of which
only the tab may. -/
def isPrintable (c : Char) : Bool := c = '\t' || (' ' ≤ c && c ≠ '\x7f')

def newline : Reader Unit := fun
  | '\n' :: rest => some ((), rest)
  | '\r' :: '\n' :: rest => some ((), rest)
  | _ => none

/-- What may stand between the end of a line's contents and the next line. -/
def endOfLine : Reader Unit := do
  blanks
  if ← char? '#' then
    let _ ← span isPrintable
  endOfText <|> newline

/-- Drop blanks, newlines and comments. A comment must end with its line. -/
def skipLayout (inComment : Bool) : List Char → Option (List Char)
  | '\n' :: rest => skipLayout false rest
  | '\r' :: '\n' :: rest => skipLayout false rest
  | c :: rest =>
    if inComment then if isPrintable c then skipLayout true rest else none
    else if isBlank c then skipLayout false rest
    else if c = '#' then skipLayout true rest
    else some (c :: rest)
  | [] => if inComment then none else some []

def layout : Reader Unit := fun cs => (skipLayout false cs).map ((), ·)

end Reader

end PowerPC.Toml
