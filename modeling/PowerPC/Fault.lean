import PowerPC.Instruction.Opcode
import PowerPC.Memory.Basic

/-!
# Faults

Why a word cannot be decoded or an instruction cannot be executed, and the text that says so.
-/

namespace PowerPC

inductive FormViolation where
  | loadMultipleOverBase
  | counterDecrement
  | loadUpdateBase
  | storeUpdateBase
deriving DecidableEq, Repr

def FormViolation.message : FormViolation → String
  | .loadMultipleOverBase => "lmw requires RA < RT"
  | .counterDecrement => "bcctr cannot decrement CTR"
  | .loadUpdateBase => "load with update requires RA != 0 and RA != RT"
  | .storeUpdateBase => "store with update requires RA != 0"

inductive Fault where
  | invalidForm (word : Word) (violation : FormViolation)
  | unsupportedOpcode (word : Word)
  | overflowEnable (op : ArithmeticOp)
  | unsupportedSpr (number : Nat)
  | memory (fault : AccessFault)
deriving DecidableEq, Repr

def Fault.message : Fault → String
  | .invalidForm word violation =>
    "Invalid instruction form " ++ Numeral.address word ++ ": " ++ violation.message
  | .unsupportedOpcode word =>
    "Unsupported opcode in " ++ Numeral.address word ++ ": primary " ++
      Numeral.decimal word.primary.toNat ++ ", secondary " ++
      (match Opcode.secondary? word with
        | none => "None"
        | some xo => "Some(" ++ Numeral.decimal xo.toNat ++ ")")
  | .overflowEnable op =>
    "Unsupported feature in " ++ op.mnemonic ++ ": overflow enable (OE=1)"
  | .unsupportedSpr number => "Unsupported SPR " ++ Numeral.decimal number
  | .memory fault => "Memory fault: " ++ fault.message

def Spr.ofNumber (number : Nat) : Except Fault Spr :=
  match Spr.ofNumber? number with
  | some spr => .ok spr
  | none => .error (.unsupportedSpr number)

end PowerPC
