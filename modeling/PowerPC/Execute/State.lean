import PowerPC.Fault
import PowerPC.Register.File

/-!
# Execution

What an instruction acts on, and the actions that may fault. A faulting action still returns a
state, so that what a fault leaves behind can be stated.
-/

namespace PowerPC

structure State where
  registers : Registers := {}
  memory : Memory

abbrev Exec := ExceptT Fault (StateM State)

namespace Exec

def fault (f : Fault) : Exec α := throw f

def registers : Exec Registers := return (← get).registers

def modifyRegisters (f : Registers → Registers) : Exec Unit :=
  modify fun s => { s with registers := f s.registers }

def ofAccess (access : Except AccessFault α) : Exec α :=
  match access with
  | .ok value => return value
  | .error f => fault (.memory f)

def readMemory (a : Word) (length : Nat) : Exec (List Byte) := do
  ofAccess ((← get).memory.read a length)

def writeMemory (a : Word) (bytes : List Byte) : Exec Unit := do
  let memory ← ofAccess ((← get).memory.write a bytes)
  modify fun s => { s with memory }

end Exec

end PowerPC
