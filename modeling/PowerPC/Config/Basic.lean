import PowerPC.Machine.Basic

/-!
# Configuration

The settings of an emulator and the machine they describe. A configuration is usable if the
sentinel is word aligned, there is a region, and the regions make a layout; the sentinel is looked
at first and the regions last.
-/

namespace PowerPC

inductive LogLevel where
  | off | error | warn | info | debug | trace
deriving DecidableEq, Repr

namespace LogLevel

def all : List LogLevel := [off, error, warn, info, debug, trace]

/-- The level as a configuration file names it. -/
def name : LogLevel → String
  | off => "Off"
  | error => "Error"
  | warn => "Warn"
  | info => "Info"
  | debug => "Debug"
  | trace => "Trace"

def ofName? (name : String) : Option LogLevel := all.find? (·.name = name)

/-- The level as a log filter names it. -/
def filter : LogLevel → String
  | off => "off"
  | error => "error"
  | warn => "warn"
  | info => "info"
  | debug => "debug"
  | trace => "trace"

end LogLevel

structure Config where
  sentinel : Word := 0xDEADBEE0
  traceInstructions : Bool := false
  regions : List Region := [.gamecube]
  logLevel : LogLevel := .info
  dumpDir : String := "dumps"
deriving DecidableEq, Repr

inductive ConfigError where
  | unalignedSentinel (sentinel : Word)
  | noRegions
deriving DecidableEq, Repr

def ConfigError.message : ConfigError → String
  | .unalignedSentinel sentinel =>
    "return_sentinel " ++ Numeral.address sentinel ++ " is not word aligned"
  | .noRegions => "no memory sections configured"

inductive SetupError where
  | config (e : ConfigError)
  | memory (e : LayoutError)
deriving DecidableEq, Repr

def SetupError.message : SetupError → String
  | .config e => "Config error: " ++ e.message
  | .memory e => "Memory error: " ++ e.message

namespace Config

def validate (c : Config) : Except ConfigError Unit :=
  if c.sentinel.toNat % 4 ≠ 0 then .error (.unalignedSentinel c.sentinel)
  else if c.regions = [] then .error .noRegions
  else .ok ()

def machine (c : Config) : Except SetupError Machine := do
  c.validate.mapError .config
  let memory ← (Memory.ofRegions c.regions).mapError .memory
  return { memory, sentinel := c.sentinel, dumpDir := c.dumpDir }

end Config

end PowerPC
