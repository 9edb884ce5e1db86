import PowerPC.Instruction.Basic
import PowerPC.Text.Numeral

/-!
# Listings

The assembly text of an instruction is a mnemonic, then its operands separated by commas. A branch
whose address is known shows its target, one whose address is not shows the distance. Branches
have extended mnemonics where the branch option tests one thing only; `li`, `lis`, `mr`, `nop` and
`mtcr` stand for the forms they abbreviate.
-/

namespace PowerPC

inductive Operand where
  | gpr (r : Gpr)
  | crField (f : CrField)
  | number (n : Nat)
  | signed (w : Word)
  | hex (w : Word)
  | mask (b : Byte)
  | displaced (d : Word) (ra : Gpr)
  | target (address : Word)
  | distance (offset : Word)
deriving DecidableEq, Repr

namespace Operand

def text : Operand → String
  | gpr r => "r" ++ Numeral.decimal r.val
  | crField f => "cr" ++ Numeral.decimal f.val
  | number n => Numeral.decimal n
  | signed w => Numeral.signed w.toInt
  | hex w => Numeral.hex w.toNat
  | mask b => Numeral.hexPadded 2 b.toNat
  | displaced d ra => Numeral.signed d.toInt ++ "(r" ++ Numeral.decimal ra.val ++ ")"
  | target address => Numeral.address address
  | distance offset =>
    (if offset.toInt < 0 then ".-" else ".+") ++ Numeral.hex offset.toInt.natAbs

end Operand

structure Listing where
  mnemonic : String
  operands : List Operand
deriving DecidableEq, Repr

def Listing.text (l : Listing) : String :=
  if l.operands = [] then l.mnemonic
  else l.mnemonic ++ " " ++ ", ".intercalate (l.operands.map Operand.text)

def letter (flag : Bool) (text : String) : String := if flag then text else ""

namespace BranchOption

/-- What follows `b` in the extended mnemonic of a branch option, and the condition register field
that it shows. An option that tests both the counter and a bit has none. -/
def extended? (bo : Byte) (bi : CrBit) : Option (String × List Operand) :=
  match skipsCondition bo, skipsCounter bo with
  | true, true => some ("", [])
  | false, true =>
    let name := match bi.place, onSet bo with
      | 0, true => "lt"
      | 1, true => "gt"
      | 2, true => "eq"
      | 3, true => "so"
      | 0, false => "ge"
      | 1, false => "le"
      | 2, false => "ne"
      | 3, false => "ns"
    some (name, [.crField bi.field])
  | true, false => some (if onZero bo then "dz" else "dnz", [])
  | false, false => none

def listing (bo : Byte) (bi : CrBit) (tail : String) : Listing :=
  match extended? bo bi with
  | some (name, operands) => ⟨"b" ++ name ++ tail, operands⟩
  | none => ⟨"bc" ++ tail, [.number bo.toNat, .number bi.val]⟩

end BranchOption

namespace Instruction

def targetOperand (offset : Word) (aa : Bool) (address : Option Word) : Operand :=
  match aa, address with
  | true, _ => .target offset
  | false, some address => .target (address + offset)
  | false, none => .distance offset

def transferListing (base : String) (r : Gpr) (ea : Addressing) (update : Bool) : Listing :=
  match ea with
  | .displaced ra d => ⟨base ++ letter update "u", [.gpr r, .displaced d ra]⟩
  | .indexed ra rb => ⟨base ++ letter update "u" ++ "x", [.gpr r, .gpr ra, .gpr rb]⟩

def listing (address : Option Word) : Instruction → Listing
  | branch offset aa lk =>
    ⟨"b" ++ letter lk "l" ++ letter aa "a", [targetOperand offset aa address]⟩
  | branchConditional bo bi offset aa lk =>
    let l := BranchOption.listing bo bi (letter lk "l" ++ letter aa "a")
    ⟨l.mnemonic, l.operands ++ [targetOperand offset aa address]⟩
  | branchToLr bo bi lk => BranchOption.listing bo bi ("lr" ++ letter lk "l")
  | branchToCtr bo bi lk => BranchOption.listing bo bi ("ctr" ++ letter lk "l")
  | crLogical op bt ba bb => ⟨"cr" ++ op.mnemonic, [.number bt.val, .number ba.val, .number bb.val]⟩
  | moveCrField bf bfa => ⟨"mcrf", [.crField bf, .crField bfa]⟩
  | compare kind bf ra rhs =>
    match kind, rhs with
    | .signed, .gpr rb => ⟨"cmpw", [.crField bf, .gpr ra, .gpr rb]⟩
    | .logical, .gpr rb => ⟨"cmplw", [.crField bf, .gpr ra, .gpr rb]⟩
    | .signed, .immediate imm => ⟨"cmpwi", [.crField bf, .gpr ra, .signed imm]⟩
    | .logical, .immediate imm => ⟨"cmplwi", [.crField bf, .gpr ra, .number imm.toNat]⟩
  | arithmeticImmediate op rt ra imm =>
    match op with
    | .addi => if ra = 0 then ⟨"li", [.gpr rt, .signed imm]⟩
      else ⟨op.mnemonic, [.gpr rt, .gpr ra, .signed imm]⟩
    | .addis => if ra = 0 then ⟨"lis", [.gpr rt, .hex (imm &&& 0xFFFF)]⟩
      else ⟨op.mnemonic, [.gpr rt, .gpr ra, .hex (imm &&& 0xFFFF)]⟩
    | _ => ⟨op.mnemonic, [.gpr rt, .gpr ra, .signed imm]⟩
  | arithmetic op rt ra rb oe rc =>
    ⟨op.mnemonic ++ letter oe "o" ++ letter rc ".",
      if op.isBinary then [.gpr rt, .gpr ra, .gpr rb] else [.gpr rt, .gpr ra]⟩
  | logicalImmediate op rs ra imm =>
    if op = .ori ∧ rs = 0 ∧ ra = 0 ∧ imm = 0 then ⟨"nop", []⟩
    else ⟨op.mnemonic, [.gpr ra, .gpr rs, .hex imm]⟩
  | logical op rs ra rb rc =>
    if op = .or ∧ rs = rb then ⟨"mr" ++ letter rc ".", [.gpr ra, .gpr rs]⟩
    else ⟨op.mnemonic ++ letter rc ".", [.gpr ra, .gpr rs, .gpr rb]⟩
  | unary op rs ra rc => ⟨op.mnemonic ++ letter rc ".", [.gpr ra, .gpr rs]⟩
  | shift op rs ra rb rc => ⟨op.mnemonic ++ letter rc ".", [.gpr ra, .gpr rs, .gpr rb]⟩
  | shiftRightAlgebraicImmediate rs ra sh rc =>
    ⟨"srawi" ++ letter rc ".", [.gpr ra, .gpr rs, .number sh.toNat]⟩
  | rotate op rs ra mb me rc =>
    let amount := match op with
      | .rlwimi sh | .rlwinm sh => .number sh.toNat
      | .rlwnm rb => .gpr rb
    ⟨op.mnemonic ++ letter rc ".",
      [.gpr ra, .gpr rs, amount, .number mb.toNat, .number me.toNat]⟩
  | load kind rt ea update => transferListing kind.mnemonic rt ea update
  | store kind rs ea update => transferListing kind.mnemonic rs ea update
  | loadMultiple rt ra d => ⟨"lmw", [.gpr rt, .displaced d ra]⟩
  | storeMultiple rs ra d => ⟨"stmw", [.gpr rs, .displaced d ra]⟩
  | moveFromSpr rt spr => ⟨"mf" ++ spr.name, [.gpr rt]⟩
  | moveToSpr spr rs => ⟨"mt" ++ spr.name, [.gpr rs]⟩
  | moveFromCr rt => ⟨"mfcr", [.gpr rt]⟩
  | moveToCrFields fxm rs =>
    if fxm = BitVec.allOnes 8 then ⟨"mtcr", [.gpr rs]⟩ else ⟨"mtcrf", [.mask fxm, .gpr rs]⟩
  | sync => ⟨"sync", []⟩
  | isync => ⟨"isync", []⟩

def text (i : Instruction) : String := (i.listing none).text

def textAt (i : Instruction) (address : Word) : String := (i.listing (some address)).text

end Instruction

end PowerPC
