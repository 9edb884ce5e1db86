import PowerPC.Register.Index

/-!
# Operations

The operation selectors of the instruction families, each with its mnemonic.
-/

namespace PowerPC

inductive Comparison where
  | signed | logical
deriving DecidableEq, Repr

/-- Arithmetic with an immediate; `addicRecord` also records into field 0. -/
inductive ImmediateOp where
  | addi | addis | addic | addicRecord | subfic | mulli
deriving DecidableEq, Repr

def ImmediateOp.mnemonic : ImmediateOp → String
  | .addi => "addi"
  | .addis => "addis"
  | .addic => "addic"
  | .addicRecord => "addic."
  | .subfic => "subfic"
  | .mulli => "mulli"

inductive ArithmeticOp where
  | add | addc | adde | addze | addme
  | subf | subfc | subfe | subfze | subfme
  | neg | mullw | mulhw | mulhwu | divw | divwu
deriving DecidableEq, Repr

namespace ArithmeticOp

def mnemonic : ArithmeticOp → String
  | add => "add"
  | addc => "addc"
  | adde => "adde"
  | addze => "addze"
  | addme => "addme"
  | subf => "subf"
  | subfc => "subfc"
  | subfe => "subfe"
  | subfze => "subfze"
  | subfme => "subfme"
  | neg => "neg"
  | mullw => "mullw"
  | mulhw => "mulhw"
  | mulhwu => "mulhwu"
  | divw => "divw"
  | divwu => "divwu"

def isBinary : ArithmeticOp → Bool
  | addze | addme | subfze | subfme | neg => false
  | _ => true

end ArithmeticOp

inductive LogicalImmediateOp where
  | ori | oris | xori | xoris | andi | andis
deriving DecidableEq, Repr

namespace LogicalImmediateOp

def mnemonic : LogicalImmediateOp → String
  | ori => "ori"
  | oris => "oris"
  | xori => "xori"
  | xoris => "xoris"
  | andi => "andi."
  | andis => "andis."

/-- The two conjunctions have no form that does not record. -/
def records : LogicalImmediateOp → Bool
  | andi | andis => true
  | _ => false

end LogicalImmediateOp

inductive LogicalOp where
  | and | andc | or | orc | xor | nand | nor | eqv
deriving DecidableEq, Repr

namespace LogicalOp

def mnemonic : LogicalOp → String
  | and => "and"
  | andc => "andc"
  | or => "or"
  | orc => "orc"
  | xor => "xor"
  | nand => "nand"
  | nor => "nor"
  | eqv => "eqv"

def evalBit (op : LogicalOp) (a b : Bool) : Bool :=
  match op with
  | and => a && b
  | andc => a && !b
  | or => a || b
  | orc => a || !b
  | xor => a ^^ b
  | nand => !(a && b)
  | nor => !(a || b)
  | eqv => a == b

def evalWord (op : LogicalOp) (a b : Word) : Word :=
  match op with
  | and => a &&& b
  | andc => a &&& ~~~b
  | or => a ||| b
  | orc => a ||| ~~~b
  | xor => a ^^^ b
  | nand => ~~~(a &&& b)
  | nor => ~~~(a ||| b)
  | eqv => ~~~(a ^^^ b)

end LogicalOp

inductive UnaryOp where
  | extsb | extsh | cntlzw
deriving DecidableEq, Repr

def UnaryOp.mnemonic : UnaryOp → String
  | .extsb => "extsb"
  | .extsh => "extsh"
  | .cntlzw => "cntlzw"

inductive ShiftOp where
  | slw | srw | sraw
deriving DecidableEq, Repr

def ShiftOp.mnemonic : ShiftOp → String
  | .slw => "slw"
  | .srw => "srw"
  | .sraw => "sraw"

/-- A rotate with its amount: any byte, or for `rlwnm` the index of a register. -/
inductive RotateOp where
  | rlwimi (sh : Byte)
  | rlwinm (sh : Byte)
  | rlwnm (rb : Gpr)
deriving DecidableEq, Repr

def RotateOp.mnemonic : RotateOp → String
  | .rlwimi _ => "rlwimi"
  | .rlwinm _ => "rlwinm"
  | .rlwnm _ => "rlwnm"

inductive LoadKind where
  | byte | halfword | halfwordAlgebraic | word | halfwordByteReversed | wordByteReversed
deriving DecidableEq, Repr

namespace LoadKind

def mnemonic : LoadKind → String
  | byte => "lbz"
  | halfword => "lhz"
  | halfwordAlgebraic => "lha"
  | word => "lwz"
  | halfwordByteReversed => "lhbr"
  | wordByteReversed => "lwbr"

def width : LoadKind → Nat
  | byte => 1
  | halfword | halfwordAlgebraic | halfwordByteReversed => 2
  | word | wordByteReversed => 4

end LoadKind

inductive StoreKind where
  | byte | halfword | word | halfwordByteReversed | wordByteReversed
deriving DecidableEq, Repr

namespace StoreKind

def mnemonic : StoreKind → String
  | byte => "stb"
  | halfword => "sth"
  | word => "stw"
  | halfwordByteReversed => "sthbr"
  | wordByteReversed => "stwbr"

def width : StoreKind → Nat
  | byte => 1
  | halfword | halfwordByteReversed => 2
  | word | wordByteReversed => 4

end StoreKind

inductive Spr where
  | xer | lr | ctr
deriving DecidableEq, Repr

namespace Spr

def name : Spr → String
  | xer => "xer"
  | lr => "lr"
  | ctr => "ctr"

def ofNumber? : Nat → Option Spr
  | 1 => some xer
  | 8 => some lr
  | 9 => some ctr
  | _ => none

/-- An instruction holds the register number with its two halves exchanged. -/
def numberOfField (field : BitVec 10) : BitVec 10 :=
  field.extractLsb' 0 5 ++ field.extractLsb' 5 5

end Spr

end PowerPC
