import PowerPC.Machine.Basic

/-!
# Running a machine

Three ways to step repeatedly: until asked to stop, until a called function returns to the
sentinel, and for a number of instructions. A stop request is looked at between instructions and
is lowered by the run that it ends. A run that need not end takes fuel, one unit a step, and has
no outcome when that is used up.
-/

namespace PowerPC.Machine

abbrev Outcome (α : Type) := Except Fault α × Machine

/-- Run until asked to stop. -/
def run (fuel : Nat) (m : Machine) : Option (Outcome Unit) :=
  if m.stop then some (.ok (), { m with stop := false })
  else
    match fuel with
    | 0 => none
    | fuel + 1 =>
      match step m with
      | (.ok _, m) => run fuel m
      | (.error f, m) => some (.error f, m)

def runToSentinel (fuel : Nat) (m : Machine) : Option (Outcome Unit) :=
  if m.registers.pc = m.sentinel then some (.ok (), m)
  else if m.stop then some (.ok (), { m with stop := false })
  else
    match fuel with
    | 0 => none
    | fuel + 1 =>
      match step m with
      | (.ok _, m) => runToSentinel fuel m
      | (.error f, m) => some (.error f, m)

/-- The machine about to execute the function at an address, which returns to the sentinel. -/
def enter (m : Machine) (a : Word) : Machine :=
  { m with registers := { m.registers with pc := a, lr := m.sentinel } }

def runFunction (fuel : Nat) (a : Word) (m : Machine) : Option (Outcome Unit) :=
  runToSentinel fuel (m.enter a)

/-- Execute at most `n` instructions; the number executed is the result. -/
def runFor (n : Nat) : Run Nat := go n 0
where
  go : Nat → Nat → Run Nat
    | 0, executed => return executed
    | n + 1, executed => fun m =>
      if m.stop then (.ok executed, { m with stop := false })
      else
        match step m with
        | (.ok _, m) => go n (executed + 1) m
        | (.error f, m) => (.error f, m)

end PowerPC.Machine
