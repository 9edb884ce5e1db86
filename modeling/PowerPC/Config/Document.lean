import PowerPC.Config.Basic
import PowerPC.Toml.Library

/-!
# Configurations as documents

A configuration is a table of the tables `cpu`, `memory` and `debug`, with one element of
`memory.sections` a region. Reading takes what it finds: a setting that is missing has its default,
one that is unknown is ignored, and a table may be given as the array of its values in the order
in which they are written. A region has no defaults. How tables are written and read is the
library's affair.
-/

namespace PowerPC

open Toml

namespace Toml.Value

def elements? : Value → Option (List Value)
  | array vs => some vs
  | tables ts => some (ts.map (table .header))
  | _ => none

/-- The values of the fields with these names: by name in a table, by position in an array. A date
holds none of them. -/
def fields? (names : List String) : Value → Option (List (Option Value))
  | table _ entries => some (names.map (entries.lookup ·))
  | dateTime _ => some (names.map fun _ => none)
  | v => v.elements?.map fun vs => (List.range names.length).map (vs[·]?)

def word? : Value → Option Word
  | integer n => if 0 ≤ n ∧ n < 0x100000000 then some (BitVec.ofInt 32 n) else none
  | _ => none

def boolean? : Value → Option Bool
  | boolean b => some b
  | _ => none

def string? : Value → Option String
  | string s => some s
  | _ => none

/-- An array of tables. If there are none, it is like any other array. -/
def ofTables : List Table → Value
  | [] => array []
  | ts => tables ts

def isEmpty : Value → Bool
  | array [] => true
  | table _ [] => true
  | _ => false

end Toml.Value

def withDefault (fallback : α) (read : Value → Option α) : Option Value → Option α
  | some v => read v
  | none => some fallback

/-- A level is given by its name, or by a table with that name as its only key. -/
def LogLevel.ofValue? : Value → Option LogLevel
  | .string name => ofName? name
  | .table _ [(name, v)] => if v.isEmpty then ofName? name else none
  | _ => none

def Region.ofValue? (v : Value) : Option Region := do
  match ← v.fields? ["cached_base", "uncached_base", "size"] with
  | [some cached, some uncached, some size] =>
    return ⟨← cached.word?, ← uncached.word?, ← size.word?⟩
  | _ => none

namespace Config

def readCpu (c : Config) (v : Value) : Option Config := do
  match ← v.fields? ["return_sentinel", "trace_instructions"] with
  | [sentinel, trace] =>
    return { c with
      sentinel := ← withDefault c.sentinel Value.word? sentinel
      traceInstructions := ← withDefault c.traceInstructions Value.boolean? trace }
  | _ => none

def readMemory (c : Config) (v : Value) : Option Config := do
  match ← v.fields? ["sections"] with
  | [sections] =>
    let regions ← withDefault c.regions
      (fun v => do (← v.elements?).mapM Region.ofValue?) sections
    return { c with regions }
  | _ => none

def readDebug (c : Config) (v : Value) : Option Config := do
  match ← v.fields? ["log_level", "dump_dir"] with
  | [level, dir] =>
    return { c with
      logLevel := ← withDefault c.logLevel LogLevel.ofValue? level
      dumpDir := ← withDefault c.dumpDir Value.string? dir }
  | _ => none

def ofTable? (t : Table) : Option Config := do
  let c : Config := {}
  let c ← withDefault c c.readCpu (t.lookup "cpu")
  let c ← withDefault c c.readMemory (t.lookup "memory")
  withDefault c c.readDebug (t.lookup "debug")

def parseWith? (lib : Library) (text : String) : Option Config := do ofTable? (← lib.read? text)

/-! Writing. -/

def cpuEntries (c : Config) : Table :=
  [("return_sentinel", .integer c.sentinel.toNat),
    ("trace_instructions", .boolean c.traceInstructions)]

def regionEntries (r : Region) : Table :=
  [("cached_base", .integer r.cachedBase.toNat), ("uncached_base", .integer r.uncachedBase.toNat),
    ("size", .integer r.size.toNat)]

def memoryEntries (c : Config) : Table := [("sections", .ofTables (c.regions.map regionEntries))]

def debugEntries (c : Config) : Table :=
  [("log_level", .string c.logLevel.name), ("dump_dir", .string c.dumpDir)]

def table (c : Config) : Table :=
  [("cpu", .table .header c.cpuEntries), ("memory", .table .header c.memoryEntries),
    ("debug", .table .header c.debugEntries)]

def textWith (lib : Library) (c : Config) : String := lib.write c.table

end Config

end PowerPC
