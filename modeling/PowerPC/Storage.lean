/-!
# Files

What stands at a path before something is written there, and why reading or writing a file fails.
-/

namespace PowerPC

inductive Occupant where
  | free | file | directory
deriving DecidableEq, Repr

inductive FileError where
  | reading | parsing | creating | writing
deriving DecidableEq, Repr

/-- A directory can be made, with those above it, unless a file has its name. -/
def Occupant.makeDirectory : Occupant → Except FileError Unit
  | .file => .error .creating
  | .free | .directory => .ok ()

/-- A file can be written unless a directory has its name. -/
def Occupant.writeFile : Occupant → Except FileError Unit
  | .directory => .error .writing
  | .free | .file => .ok ()

end PowerPC
