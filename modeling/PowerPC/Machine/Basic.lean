import PowerPC.Execute.Instruction
import PowerPC.Instruction.Decode
import PowerPC.Instruction.Listing

/-!
# Machines

A machine is a processor state with a count of executed instructions, a flag that asks it to stop,
the address at which a called function counts as returned, and a directory for dumps.

`step` fetches, decodes and executes one instruction. If any of the three faults, PC stays on the
instruction and the count does not move.
-/

namespace PowerPC

structure Machine extends State where
  sentinel : Word := 0xDEADBEE0
  dumpDir : String := "dumps"
  count : BitVec 64 := 0
  stop : Bool := false

namespace Machine

def ofMemory (memory : Memory) : Machine := { memory }

abbrev Run := ExceptT Fault (StateM Machine)

def ofExec (action : Exec α) : Run α :=
  fun m =>
    let (result, state) := action m.toState
    (result, { m with toState := state })

def fetch (s : State) : Except Fault Word :=
  let pc := s.registers.pc
  if pc.toNat % 4 ≠ 0 then .error (.memory (.misaligned pc 4))
  else
    match s.memory.read32 pc with
    | .ok w => .ok w
    | .error f => .error (.memory f)

def fetchInstruction (s : State) : Except Fault Instruction := do
  Instruction.decode (← fetch s)

def setPc (s : State) (pc : Word) : State :=
  { s with registers := { s.registers with pc } }

/-- Execute one instruction; the instruction is the result. -/
def step : Run Instruction := fun m =>
  match fetchInstruction m.toState with
  | .error f => (.error f, m)
  | .ok i =>
    let pc := m.registers.pc
    match i.execute (setPc m.toState (pc + 4)) with
    | (.error f, s) => (.error f, { m with toState := setPc s pc })
    | (.ok (), s) => (.ok i, { m with toState := s, count := m.count + 1 })

/-- Execute an instruction that was not fetched. PC is taken to have moved past it. -/
def execute (i : Instruction) : Run Unit := ofExec i.execute

def text (m : Machine) : String :=
  "Machine \x7b pc: " ++ Numeral.address m.registers.pc ++
    ", lr: " ++ Numeral.address m.registers.lr ++
    ", ctr: " ++ Numeral.address m.registers.ctr ++
    ", cr: " ++ m.registers.cr.text ++
    ", sections: " ++ Numeral.decimal m.memory.layout.regions.length ++
    ", instruction_count: " ++ Numeral.decimal m.count.toNat ++ " \x7d"

end Machine

end PowerPC
