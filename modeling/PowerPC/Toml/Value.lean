/-!
# Values and tables

The contents of a TOML document. A table remembers how it came about, because that decides what a
later line may add to it: a header may complete a table that only lies on the way to another, a
dotted key may extend only tables that dotted keys made, and what is written inline is closed.
-/

namespace PowerPC.Toml

inductive Origin where
  | implied
  | header
  | dotted
  | inlined
deriving DecidableEq, Repr

inductive Value where
  | string (s : String)
  | integer (n : Int)
  | boolean (b : Bool)
  | float (text : String)
  | dateTime (text : String)
  | array (elements : List Value)
  | table (origin : Origin) (entries : List (String × Value))
  | tables (elements : List (List (String × Value)))

abbrev Table := List (String × Value)

namespace Table

def alter (t : Table) (key : String) (f : Option Value → Option Value) : Option Table :=
  match t with
  | [] => (f none).map fun v => [(key, v)]
  | (k, v) :: rest =>
    if k = key then (f (some v)).map fun v => (key, v) :: rest
    else (alter rest key f).map ((k, v) :: ·)

def alterLast (f : Table → Option Table) : List Table → Option (List Table)
  | [] => none
  | [t] => (f t).map ([·])
  | t :: ts => (alterLast f ts).map (t :: ·)

/-- Change the table that a header path names. Tables missing on the way are added; of an array of
tables the last one is meant. -/
def atPath (f : Table → Option Table) : List String → Table → Option Table
  | [], t => f t
  | key :: keys, t => t.alter key fun
    | none => (atPath f keys []).map (.table .implied)
    | some (.table .inlined _) => none
    | some (.table origin entries) => (atPath f keys entries).map (.table origin)
    | some (.tables ts) => (alterLast (atPath f keys) ts).map .tables
    | some _ => none

/-- Open a table with its own header. It may exist only as part of a longer path. -/
def openTable (t : Table) (key : String) : Option Table :=
  t.alter key fun
    | none => some (.table .header [])
    | some (.table .implied entries) => some (.table .header entries)
    | some _ => none

def openElement (t : Table) (key : String) : Option Table :=
  t.alter key fun
    | none => some (.tables [[]])
    | some (.tables ts) => some (.tables (ts ++ [[]]))
    | some _ => none

/-- Add a key that is not there yet, in the table that a dotted path leads to. A path may pass
through implied tables and arrays of tables, but only a table that dotted keys made, or the one
where the path starts, accepts keys at its end. -/
def insert (accepts : Bool) (key : String) (value : Value) : List String → Table → Option Table
  | [], t => t.alter key fun
    | none => if accepts then some value else none
    | some _ => none
  | k :: path, t => t.alter k fun
    | none => (insert true key value path []).map (.table .dotted)
    | some (.table .dotted entries) =>
      (insert true key value path entries).map (.table .dotted)
    | some (.table .implied entries) =>
      (insert false key value path entries).map (.table .implied)
    | some (.tables ts) => (alterLast (insert false key value path) ts).map .tables
    | some _ => none

end Table

end PowerPC.Toml
