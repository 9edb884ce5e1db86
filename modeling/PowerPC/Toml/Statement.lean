import PowerPC.Toml.Quoted
import PowerPC.Toml.Scalar

/-!
# Statements

A document is a list of statements: headers of tables, headers of elements of arrays of tables,
and assignments of values to keys. Arrays and inline tables nest to a fixed depth, and a key has
fewer than `maxDepth` parts.
-/

namespace PowerPC.Toml

structure Path where
  parents : List String
  key : String
deriving DecidableEq, Repr

inductive Statement where
  | table (path : Path)
  | element (path : Path)
  | assign (path : Path) (value : Value)

def maxDepth : Nat := 80

def isBareKeyChar (c : Char) : Bool := c.isAlphanum || c = '-' || c = '_'

def keyPart : Reader String := fun cs =>
  match cs with
  | [] => none
  | c :: _ =>
    if c = '"' ∨ c = '\'' then Quoted.line cs
    else
      match cs.takeWhile isBareKeyChar with
      | [] => none
      | part => some (String.ofList part, cs.dropWhile isBareKeyChar)

def keyParts : Nat → Reader (List String)
  | 0 => failure
  | fuel + 1 => do
    Reader.blanks
    let part ← keyPart
    Reader.blanks
    if ← Reader.char? '.' then return part :: (← keyParts fuel) else return [part]

def path : Reader Path := do
  let parts ← keyParts (maxDepth - 1)
  match parts.getLast? with
  | some key => return ⟨parts.dropLast, key⟩
  | none => failure

/-- The elements of an array after its bracket. A comma may follow the last one. -/
def elements (element : Reader Value) : Nat → Reader (List Value)
  | 0 => failure
  | fuel + 1 => do
    Reader.layout
    if ← Reader.char? ']' then return []
    let v ← element
    Reader.layout
    if ← Reader.char? ',' then return v :: (← elements element fuel)
    Reader.char ']'
    return [v]

def assignment (value : Reader Value) : Reader (Path × Value) := do
  let p ← path
  Reader.char '='
  Reader.blanks
  return (p, ← value)

/-- The assignments of an inline table that is not empty, up to its bracket. -/
def assignments (value : Reader Value) : Nat → Reader (List (Path × Value))
  | 0 => failure
  | fuel + 1 => do
    let a ← assignment value
    Reader.blanks
    if ← Reader.char? ',' then return a :: (← assignments value fuel)
    Reader.char '\x7d'
    return [a]

def inlineTable (value : Reader Value) : Reader (List (Path × Value)) := do
  Reader.blanks
  if ← Reader.char? '\x7d' then return []
  assignments value (← get).length

/-- A value in which brackets nest no deeper than `depth`. -/
def value (depth : Nat) : Reader Value := fun cs =>
  match depth, cs with
  | _, [] => none
  | 0, c :: _ =>
    if c = '"' ∨ c = '\'' then (Value.string <$> Quoted.text) cs else scalar cs
  | depth + 1, c :: rest =>
    if c = '"' ∨ c = '\'' then (Value.string <$> Quoted.text) cs
    else if c = '[' then (Value.array <$> elements (value depth) rest.length) rest
    else if c = '\x7b' then
      (do
        let entries ← inlineTable (value depth)
        let t ← (entries.foldlM
          (fun t (p, v) => Table.insert true p.key v p.parents t) [] : Option Table)
        return .table .inlined t : Reader Value) rest
    else scalar cs

def header : Reader Statement := do
  Reader.char '['
  if ← Reader.char? '[' then
    let p ← path
    Reader.char ']'
    Reader.char ']'
    Reader.endOfLine
    return .element p
  else
    let p ← path
    Reader.char ']'
    Reader.endOfLine
    return .table p

def statementsFrom : Nat → Reader (List Statement)
  | 0 => failure
  | fuel + 1 => do
    Reader.blanks
    match (← get).head? with
    | none => return []
    | some c =>
      if c = '#' ∨ c = '\n' ∨ c = '\r' then
        Reader.endOfLine
        statementsFrom fuel
      else if c = '[' then
        let s ← header
        return s :: (← statementsFrom fuel)
      else
        let (p, v) ← assignment (value (maxDepth - 1))
        Reader.endOfLine
        return .assign p v :: (← statementsFrom fuel)

def dropMark : List Char → List Char
  | '\ufeff' :: cs => cs
  | cs => cs

/-- The statements of a document. Each takes at least one character, so its length is enough. -/
def statements? (text : String) : Option (List Statement) :=
  let cs := dropMark text.toList
  (statementsFrom (cs.length + 1) cs).map (·.1)

end PowerPC.Toml
