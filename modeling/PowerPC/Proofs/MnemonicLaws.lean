import Mathlib.Data.List.Nodup
import Mathlib.Data.List.ProdSigma
import PowerPC.Instruction.Listing

/-!
# Mnemonics

The mnemonic of a listing is put together from a stem and letters for flags. What it stands for is
a `Mnemonic`: which form the instruction is listed in, with the selectors and flags that the form
shows. `text_inj`: no two of them are spelled alike, although one stem may begin another (`b`, `bl`
and `ble`, `sraw` and `srawi`, `add` and `adde`).
-/

namespace PowerPC

/-- What a branch tests, as far as its mnemonic tells: nothing, one flag of a condition register
field, the counter, or a bit and the counter. -/
inductive BranchTest where
  | always
  | flag (place : Fin 4) (onSet : Bool)
  | counter (onZero : Bool)
  | both
deriving DecidableEq, Repr

inductive Mnemonic where
  | branch (test : BranchTest) (lk aa : Bool)
  | branchToLr (test : BranchTest) (lk : Bool)
  | branchToCtr (test : BranchTest) (lk : Bool)
  | crLogical (op : LogicalOp)
  | moveCrField
  | compare (kind : Comparison)
  | compareImmediate (kind : Comparison)
  | li
  | lis
  | arithmeticImmediate (op : ImmediateOp)
  | arithmetic (op : ArithmeticOp) (oe rc : Bool)
  | nop
  | logicalImmediate (op : LogicalImmediateOp)
  | mr (rc : Bool)
  | logical (op : LogicalOp) (rc : Bool)
  | unary (op : UnaryOp) (rc : Bool)
  | shift (op : ShiftOp) (rc : Bool)
  | srawi (rc : Bool)
  | rlwimi (rc : Bool)
  | rlwinm (rc : Bool)
  | rlwnm (rc : Bool)
  | load (kind : LoadKind) (update : Bool)
  | loadIndexed (kind : LoadKind) (update : Bool)
  | store (kind : StoreKind) (update : Bool)
  | storeIndexed (kind : StoreKind) (update : Bool)
  | loadMultiple
  | storeMultiple
  | moveFromSpr (spr : Spr)
  | moveToSpr (spr : Spr)
  | moveFromCr
  | moveToCr
  | moveToCrFields
  | sync
  | isync
deriving DecidableEq, Repr

-- ---------------------------------------------------------------------------
-- Spelling
-- ---------------------------------------------------------------------------

namespace BranchTest

def stem : BranchTest → String
  | always => "b"
  | flag 0 true => "blt"
  | flag 1 true => "bgt"
  | flag 2 true => "beq"
  | flag 3 true => "bso"
  | flag 0 false => "bge"
  | flag 1 false => "ble"
  | flag 2 false => "bne"
  | flag 3 false => "bns"
  | counter true => "bdz"
  | counter false => "bdnz"
  | both => "bc"

def ofOption (bo : Byte) (bi : CrBit) : BranchTest :=
  match BranchOption.skipsCondition bo, BranchOption.skipsCounter bo with
  | true, true => always
  | false, true => flag bi.place (BranchOption.onSet bo)
  | true, false => counter (BranchOption.onZero bo)
  | false, false => both

end BranchTest

namespace Mnemonic

def text : Mnemonic → String
  | branch test lk aa => test.stem ++ (letter lk "l" ++ letter aa "a")
  | branchToLr test lk => test.stem ++ ("lr" ++ letter lk "l")
  | branchToCtr test lk => test.stem ++ ("ctr" ++ letter lk "l")
  | crLogical op => "cr" ++ op.mnemonic
  | moveCrField => "mcrf"
  | compare .signed => "cmpw"
  | compare .logical => "cmplw"
  | compareImmediate .signed => "cmpwi"
  | compareImmediate .logical => "cmplwi"
  | li => "li"
  | lis => "lis"
  | arithmeticImmediate op => op.mnemonic
  | arithmetic op oe rc => op.mnemonic ++ letter oe "o" ++ letter rc "."
  | nop => "nop"
  | logicalImmediate op => op.mnemonic
  | mr rc => "mr" ++ letter rc "."
  | logical op rc => op.mnemonic ++ letter rc "."
  | unary op rc => op.mnemonic ++ letter rc "."
  | shift op rc => op.mnemonic ++ letter rc "."
  | srawi rc => "srawi" ++ letter rc "."
  | rlwimi rc => "rlwimi" ++ letter rc "."
  | rlwinm rc => "rlwinm" ++ letter rc "."
  | rlwnm rc => "rlwnm" ++ letter rc "."
  | load kind update => kind.mnemonic ++ letter update "u"
  | loadIndexed kind update => kind.mnemonic ++ letter update "u" ++ "x"
  | store kind update => kind.mnemonic ++ letter update "u"
  | storeIndexed kind update => kind.mnemonic ++ letter update "u" ++ "x"
  | loadMultiple => "lmw"
  | storeMultiple => "stmw"
  | moveFromSpr spr => "mf" ++ spr.name
  | moveToSpr spr => "mt" ++ spr.name
  | moveFromCr => "mfcr"
  | moveToCr => "mtcr"
  | moveToCrFields => "mtcrf"
  | sync => "sync"
  | isync => "isync"

end Mnemonic

-- ---------------------------------------------------------------------------
-- All mnemonics
-- ---------------------------------------------------------------------------

class Enumerated (α : Type) where
  values : List α
  mem_values (a : α) : a ∈ values

namespace Enumerated

attribute [simp] mem_values

instance : Enumerated Bool := ⟨[false, true], by decide⟩

instance : Enumerated (Fin 4) := ⟨List.finRange 4, List.mem_finRange⟩

instance [Enumerated α] [Enumerated β] : Enumerated (α × β) :=
  ⟨values ×ˢ values, fun (_, _) => List.pair_mem_product.mpr ⟨mem_values _, mem_values _⟩⟩

instance : Enumerated BranchTest where
  values := .always :: .both :: values.map .counter ++
    (values : List (Fin 4 × Bool)).map fun (place, onSet) => .flag place onSet
  mem_values test := by cases test <;> simp

instance : Enumerated LogicalOp :=
  ⟨[.and, .andc, .or, .orc, .xor, .nand, .nor, .eqv], fun op => by cases op <;> decide⟩

instance : Enumerated Comparison := ⟨[.signed, .logical], fun kind => by cases kind <;> decide⟩

instance : Enumerated ImmediateOp :=
  ⟨[.addi, .addis, .addic, .addicRecord, .subfic, .mulli], fun op => by cases op <;> decide⟩

instance : Enumerated ArithmeticOp :=
  ⟨[.add, .addc, .adde, .addze, .addme, .subf, .subfc, .subfe, .subfze, .subfme, .neg, .mullw,
    .mulhw, .mulhwu, .divw, .divwu], fun op => by cases op <;> decide⟩

instance : Enumerated LogicalImmediateOp :=
  ⟨[.ori, .oris, .xori, .xoris, .andi, .andis], fun op => by cases op <;> decide⟩

instance : Enumerated UnaryOp := ⟨[.extsb, .extsh, .cntlzw], fun op => by cases op <;> decide⟩

instance : Enumerated ShiftOp := ⟨[.slw, .srw, .sraw], fun op => by cases op <;> decide⟩

instance : Enumerated LoadKind :=
  ⟨[.byte, .halfword, .halfwordAlgebraic, .word, .halfwordByteReversed, .wordByteReversed],
    fun kind => by cases kind <;> decide⟩

instance : Enumerated StoreKind :=
  ⟨[.byte, .halfword, .word, .halfwordByteReversed, .wordByteReversed],
    fun kind => by cases kind <;> decide⟩

instance : Enumerated Spr := ⟨[.xer, .lr, .ctr], fun spr => by cases spr <;> decide⟩

end Enumerated

namespace Mnemonic

open Enumerated

def family₁ [Enumerated α] (form : α → Mnemonic) : List Mnemonic := values.map form

def family₂ [Enumerated α] [Enumerated β] (form : α → β → Mnemonic) : List Mnemonic :=
  family₁ fun (a, b) => form a b

def family₃ [Enumerated α] [Enumerated β] [Enumerated γ] (form : α → β → γ → Mnemonic) :
    List Mnemonic :=
  family₁ fun (a, b, c) => form a b c

theorem mem_family₁ [Enumerated α] (form : α → Mnemonic) (a : α) : form a ∈ family₁ form :=
  List.mem_map_of_mem (mem_values a)

theorem mem_family₂ [Enumerated α] [Enumerated β] (form : α → β → Mnemonic) (a : α) (b : β) :
    form a b ∈ family₂ form :=
  mem_family₁ (fun (a, b) => form a b) (a, b)

theorem mem_family₃ [Enumerated α] [Enumerated β] [Enumerated γ] (form : α → β → γ → Mnemonic)
    (a : α) (b : β) (c : γ) : form a b c ∈ family₃ form :=
  mem_family₁ (fun (a, b, c) => form a b c) (a, b, c)

def all : List Mnemonic :=
  family₃ branch ++ family₂ branchToLr ++ family₂ branchToCtr ++ family₁ crLogical ++
  family₁ compare ++ family₁ compareImmediate ++ family₁ arithmeticImmediate ++
  family₃ arithmetic ++ family₁ logicalImmediate ++ family₁ mr ++ family₂ logical ++
  family₂ unary ++ family₂ shift ++ family₁ srawi ++ family₁ rlwimi ++ family₁ rlwinm ++
  family₁ rlwnm ++ family₂ load ++ family₂ loadIndexed ++ family₂ store ++ family₂ storeIndexed ++
  family₁ moveFromSpr ++ family₁ moveToSpr ++
  [moveCrField, li, lis, nop, loadMultiple, storeMultiple, moveFromCr, moveToCr, moveToCrFields,
    sync, isync]

theorem mem_all (m : Mnemonic) : m ∈ all := by
  unfold all
  cases m <;> simp only [List.mem_append, List.mem_cons, mem_family₁, mem_family₂,
    mem_family₃, true_or, or_true]

/-- The bytes of a mnemonic as one number: numbers are compared faster than texts. -/
def spelling (m : Mnemonic) : Nat :=
  m.text.toByteArray.data.toList.foldl (fun n byte => n * 256 + byte.toNat) 0

theorem nodup_spelling : (all.map spelling).Nodup := by decide +kernel

theorem text_inj {m n : Mnemonic} : m.text = n.text ↔ m = n := by
  refine ⟨fun h => ?_, congrArg text⟩
  have hspelling : m.spelling = n.spelling := by rw [spelling, spelling, h]
  exact List.inj_on_of_nodup_map nodup_spelling (mem_all m) (mem_all n) hspelling

theorem blank_notMem_text (m : Mnemonic) : ' ' ∉ m.text.toList := by
  have hall : ∀ m ∈ all, ' ' ∉ m.text.toList := by decide +kernel
  exact hall m (mem_all m)

end Mnemonic

end PowerPC
