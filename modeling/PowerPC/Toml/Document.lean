import PowerPC.Toml.Statement

/-!
# Documents

The statements of a document build its root table. An assignment adds to the table of the header
before it, and no key is ever given twice.
-/

namespace PowerPC.Toml

/-- The tables built so far, and the header that assignments belong to. -/
structure Building where
  root : Table := []
  current : List String := []

namespace Building

def add (b : Building) : Statement → Option Building
  | .table p => do
    let root ← b.root.atPath (·.openTable p.key) p.parents
    return ⟨root, p.parents ++ [p.key]⟩
  | .element p => do
    let root ← b.root.atPath (·.openElement p.key) p.parents
    return ⟨root, p.parents ++ [p.key]⟩
  | .assign p v => do
    let root ← b.root.atPath (Table.insert true p.key v p.parents) b.current
    return { b with root }

end Building

def Table.ofStatements? (statements : List Statement) : Option Table :=
  (statements.foldlM Building.add {}).map (·.root)

def parse? (text : String) : Option Table := do
  Table.ofStatements? (← statements? text)

/-! Writing. -/

/-- A part of a key is bare if it can be, and otherwise in double quotes on one line. -/
def keyText (key : String) : String :=
  if key ≠ "" ∧ key.toList.all isBareKeyChar then key
  else "\"" ++ String.ofList (Quoted.escape false 0 key.toList) ++ "\""

def Path.text (p : Path) : String := ".".intercalate ((p.parents ++ [p.key]).map keyText)

mutual

def Value.text : Value → String
  | .string s => String.ofList (Quoted.encode s.toList)
  | .integer n => Numeral.signed n
  | .boolean b => if b then "true" else "false"
  | .float text => text
  | .dateTime text => text
  | .array elements => "[" ++ elementsText elements ++ "]"
  | .table _ entries => "\x7b" ++ entriesText entries ++ "\x7d"
  | .tables ts => "[" ++ tablesText ts ++ "]"

def elementsText : List Value → String
  | [] => ""
  | [v] => v.text
  | v :: vs => v.text ++ ", " ++ elementsText vs

def entriesText : List (String × Value) → String
  | [] => ""
  | [(k, v)] => keyText k ++ " = " ++ v.text
  | (k, v) :: entries => keyText k ++ " = " ++ v.text ++ ", " ++ entriesText entries

def tablesText : List (List (String × Value)) → String
  | [] => ""
  | [t] => "\x7b" ++ entriesText t ++ "\x7d"
  | t :: ts => "\x7b" ++ entriesText t ++ "\x7d, " ++ tablesText ts

end

def Statement.text : Statement → String
  | .table p => "[" ++ p.text ++ "]\n"
  | .element p => "[[" ++ p.text ++ "]]\n"
  | .assign p v => p.text ++ " = " ++ v.text ++ "\n"

def assignAll (entries : Table) : List Statement := entries.map fun e => .assign ⟨[], e.1⟩ e.2

/-- Whether headers are written for a value. Other values stand after the header of their table. -/
def Value.hasHeader : Value → Bool
  | .table origin _ => origin ≠ .inlined
  | .tables ts => !ts.isEmpty
  | _ => false

def Table.assignments (t : Table) : List Statement := assignAll (t.filter fun e => !e.2.hasHeader)

/-- A table that consists of tables goes without a header. -/
def Table.headerBlock (p : Path) (t : Table) : List (List Statement) :=
  if !t.isEmpty && t.assignments.isEmpty then [] else [.table p :: t.assignments]

mutual

def Value.blocks (p : Path) : Value → List (List Statement)
  | .table .inlined _ => []
  | .table _ entries => Table.headerBlock p entries ++ entriesBlocks (p.parents ++ [p.key]) entries
  | .tables ts => elementsBlocks p ts
  | _ => []

def entriesBlocks (parents : List String) : List (String × Value) → List (List Statement)
  | [] => []
  | (key, v) :: entries => v.blocks ⟨parents, key⟩ ++ entriesBlocks parents entries

def elementsBlocks (p : Path) : List (List (String × Value)) → List (List Statement)
  | [] => []
  | t :: ts =>
    (.element p :: Table.assignments t) :: entriesBlocks (p.parents ++ [p.key]) t ++
      elementsBlocks p ts

end

/-- The statements of a document, in blocks. Tables follow what else their table holds, and all
keep their order. -/
def Table.blocks (t : Table) : List (List Statement) :=
  (if t.assignments.isEmpty then [] else [t.assignments]) ++ entriesBlocks [] t

def blocksText (blocks : List (List Statement)) : String :=
  "\n".intercalate (blocks.map fun b => String.join (b.map Statement.text))

end PowerPC.Toml
