import PowerPC.Instruction.Form
import PowerPC.Instruction.Operation

/-!
# Opcodes

The opcode of a word is told by its primary opcode, and under primaries 19 and 31 by a secondary
one. Primary 31 has two tables of secondaries, one of ten bits and one of nine; the first wins.
-/

namespace PowerPC

inductive Opcode where
  | branch
  | branchConditional
  | branchToLr
  | branchToCtr
  | crLogical (op : LogicalOp)
  | moveCrField
  | isync
  | compareImmediate (kind : Comparison)
  | compare (kind : Comparison)
  | arithmeticImmediate (op : ImmediateOp)
  | arithmetic (op : ArithmeticOp)
  | logicalImmediate (op : LogicalImmediateOp)
  | logical (op : LogicalOp)
  | unary (op : UnaryOp)
  | shift (op : ShiftOp)
  | srawi
  | rlwimi
  | rlwinm
  | rlwnm
  | load (kind : LoadKind) (update : Bool)
  | loadIndexed (kind : LoadKind) (update : Bool)
  | store (kind : StoreKind) (update : Bool)
  | storeIndexed (kind : StoreKind) (update : Bool)
  | loadMultiple
  | storeMultiple
  | moveFromSpr
  | moveToSpr
  | moveFromCr
  | moveToCrFields
  | sync
deriving DecidableEq, Repr

namespace Opcode

def ofPrimary? (primary : BitVec 6) : Option Opcode :=
  match primary.toNat with
  | 7 => some (arithmeticImmediate .mulli)
  | 8 => some (arithmeticImmediate .subfic)
  | 10 => some (compareImmediate .logical)
  | 11 => some (compareImmediate .signed)
  | 12 => some (arithmeticImmediate .addic)
  | 13 => some (arithmeticImmediate .addicRecord)
  | 14 => some (arithmeticImmediate .addi)
  | 15 => some (arithmeticImmediate .addis)
  | 16 => some branchConditional
  | 18 => some branch
  | 20 => some rlwimi
  | 21 => some rlwinm
  | 23 => some rlwnm
  | 24 => some (logicalImmediate .ori)
  | 25 => some (logicalImmediate .oris)
  | 26 => some (logicalImmediate .xori)
  | 27 => some (logicalImmediate .xoris)
  | 28 => some (logicalImmediate .andi)
  | 29 => some (logicalImmediate .andis)
  | 32 => some (load .word false)
  | 33 => some (load .word true)
  | 34 => some (load .byte false)
  | 35 => some (load .byte true)
  | 36 => some (store .word false)
  | 37 => some (store .word true)
  | 38 => some (store .byte false)
  | 39 => some (store .byte true)
  | 40 => some (load .halfword false)
  | 41 => some (load .halfword true)
  | 42 => some (load .halfwordAlgebraic false)
  | 43 => some (load .halfwordAlgebraic true)
  | 44 => some (store .halfword false)
  | 45 => some (store .halfword true)
  | 46 => some loadMultiple
  | 47 => some storeMultiple
  | _ => none

/-- Secondaries of primary 19. -/
def ofXl? (xo : BitVec 10) : Option Opcode :=
  match xo.toNat with
  | 0 => some moveCrField
  | 16 => some branchToLr
  | 33 => some (crLogical .nor)
  | 129 => some (crLogical .andc)
  | 150 => some isync
  | 193 => some (crLogical .xor)
  | 225 => some (crLogical .nand)
  | 257 => some (crLogical .and)
  | 289 => some (crLogical .eqv)
  | 417 => some (crLogical .orc)
  | 449 => some (crLogical .or)
  | 528 => some branchToCtr
  | _ => none

/-- Ten-bit secondaries of primary 31. -/
def ofX? (xo : BitVec 10) : Option Opcode :=
  match xo.toNat with
  | 0 => some (compare .signed)
  | 19 => some moveFromCr
  | 23 => some (loadIndexed .word false)
  | 24 => some (shift .slw)
  | 26 => some (unary .cntlzw)
  | 28 => some (logical .and)
  | 32 => some (compare .logical)
  | 55 => some (loadIndexed .word true)
  | 60 => some (logical .andc)
  | 87 => some (loadIndexed .byte false)
  | 119 => some (loadIndexed .byte true)
  | 124 => some (logical .nor)
  | 144 => some moveToCrFields
  | 151 => some (storeIndexed .word false)
  | 183 => some (storeIndexed .word true)
  | 215 => some (storeIndexed .byte false)
  | 247 => some (storeIndexed .byte true)
  | 279 => some (loadIndexed .halfword false)
  | 284 => some (logical .eqv)
  | 311 => some (loadIndexed .halfword true)
  | 316 => some (logical .xor)
  | 339 => some moveFromSpr
  | 343 => some (loadIndexed .halfwordAlgebraic false)
  | 375 => some (loadIndexed .halfwordAlgebraic true)
  | 407 => some (storeIndexed .halfword false)
  | 412 => some (logical .orc)
  | 439 => some (storeIndexed .halfword true)
  | 444 => some (logical .or)
  | 467 => some moveToSpr
  | 476 => some (logical .nand)
  | 534 => some (loadIndexed .wordByteReversed false)
  | 536 => some (shift .srw)
  | 598 => some sync
  | 662 => some (storeIndexed .wordByteReversed false)
  | 790 => some (loadIndexed .halfwordByteReversed false)
  | 792 => some (shift .sraw)
  | 824 => some srawi
  | 918 => some (storeIndexed .halfwordByteReversed false)
  | 922 => some (unary .extsh)
  | 954 => some (unary .extsb)
  | _ => none

/-- Nine-bit secondaries of primary 31. -/
def ofXo? (xo : BitVec 9) : Option ArithmeticOp :=
  match xo.toNat with
  | 8 => some .subfc
  | 10 => some .addc
  | 11 => some .mulhwu
  | 40 => some .subf
  | 75 => some .mulhw
  | 104 => some .neg
  | 136 => some .subfe
  | 138 => some .adde
  | 200 => some .subfze
  | 202 => some .addze
  | 232 => some .subfme
  | 234 => some .addme
  | 235 => some .mullw
  | 266 => some .add
  | 459 => some .divwu
  | 491 => some .divw
  | _ => none

def ofWord? (w : Word) : Option Opcode :=
  match w.primary.toNat with
  | 19 => ofXl? (XlForm.ofWord w).xo
  | 31 => ofX? (XForm.ofWord w).xo <|> (ofXo? (XoForm.ofWord w).xo).map arithmetic
  | _ => ofPrimary? w.primary

def secondary? (w : Word) : Option (BitVec 10) :=
  match w.primary.toNat with
  | 19 => some (XlForm.ofWord w).xo
  | 31 => some (XForm.ofWord w).xo
  | _ => none

end Opcode

end PowerPC
