import PowerPC.Instruction.Opcode
import PowerPC.Proofs.FieldLaws

/-!
# The opcode tables, read backwards

Every opcode that a word can have is told by one code: by its primary opcode, or by a primary and a
secondary one. `code?` finds it. It is the inverse of the tables, so a word has an opcode exactly if
it holds the fields of that opcode's code. No ten-bit secondary of primary 31 ends in the nine bits
of an arithmetic one, so that the first table hides nothing of the second.
-/

namespace PowerPC

def ImmediateOp.code : ImmediateOp → BitVec 6
  | mulli => 7
  | subfic => 8
  | addic => 12
  | addicRecord => 13
  | addi => 14
  | addis => 15

def LogicalImmediateOp.code : LogicalImmediateOp → BitVec 6
  | ori => 24
  | oris => 25
  | xori => 26
  | xoris => 27
  | andi => 28
  | andis => 29

def LogicalOp.bitCode : LogicalOp → BitVec 10
  | nor => 33
  | andc => 129
  | xor => 193
  | nand => 225
  | and => 257
  | eqv => 289
  | orc => 417
  | or => 449

def LogicalOp.wordCode : LogicalOp → BitVec 10
  | and => 28
  | andc => 60
  | nor => 124
  | eqv => 284
  | xor => 316
  | orc => 412
  | or => 444
  | nand => 476

def UnaryOp.code : UnaryOp → BitVec 10
  | cntlzw => 26
  | extsh => 922
  | extsb => 954

def ShiftOp.code : ShiftOp → BitVec 10
  | slw => 24
  | srw => 536
  | sraw => 792

def ArithmeticOp.code : ArithmeticOp → BitVec 9
  | subfc => 8
  | addc => 10
  | mulhwu => 11
  | subf => 40
  | mulhw => 75
  | neg => 104
  | subfe => 136
  | adde => 138
  | subfze => 200
  | addze => 202
  | subfme => 232
  | addme => 234
  | mullw => 235
  | add => 266
  | divwu => 459
  | divw => 491

/-- The code of the displaced form without update; with update it is the next one. -/
def LoadKind.code? : LoadKind → Option (BitVec 6)
  | word => some 32
  | byte => some 34
  | halfword => some 40
  | halfwordAlgebraic => some 42
  | halfwordByteReversed | wordByteReversed => none

def LoadKind.indexedCode? : LoadKind → Bool → Option (BitVec 10)
  | word, false => some 23
  | word, true => some 55
  | byte, false => some 87
  | byte, true => some 119
  | halfword, false => some 279
  | halfword, true => some 311
  | halfwordAlgebraic, false => some 343
  | halfwordAlgebraic, true => some 375
  | wordByteReversed, false => some 534
  | halfwordByteReversed, false => some 790
  | halfwordByteReversed, true | wordByteReversed, true => none

def StoreKind.code? : StoreKind → Option (BitVec 6)
  | word => some 36
  | byte => some 38
  | halfword => some 44
  | halfwordByteReversed | wordByteReversed => none

def StoreKind.indexedCode? : StoreKind → Bool → Option (BitVec 10)
  | word, false => some 151
  | word, true => some 183
  | byte, false => some 215
  | byte, true => some 247
  | halfword, false => some 407
  | halfword, true => some 439
  | wordByteReversed, false => some 662
  | halfwordByteReversed, false => some 918
  | halfwordByteReversed, true | wordByteReversed, true => none

namespace Opcode

/-- Where in the tables an opcode stands. -/
inductive Code where
  | primary (n : BitVec 6)
  | xl (n : BitVec 10)
  | x (n : BitVec 10)
  | xo (n : BitVec 9)
deriving DecidableEq, Repr

def Code.opcode? : Code → Option Opcode
  | primary n => ofPrimary? n
  | xl n => ofXl? n
  | x n => ofX? n
  | xo n => (ofXo? n).map arithmetic

def Code.fields : Code → List BitField
  | primary n => [⟨⟨0, 6⟩, n⟩]
  | xl n => [⟨⟨0, 6⟩, 19⟩, ⟨⟨21, 10⟩, n⟩]
  | x n => [⟨⟨0, 6⟩, 31⟩, ⟨⟨21, 10⟩, n⟩]
  | xo n => [⟨⟨0, 6⟩, 31⟩, ⟨⟨22, 9⟩, n⟩]

def code? : Opcode → Option Code
  | branch => some (.primary 18)
  | branchConditional => some (.primary 16)
  | branchToLr => some (.xl 16)
  | branchToCtr => some (.xl 528)
  | crLogical op => some (.xl op.bitCode)
  | moveCrField => some (.xl 0)
  | isync => some (.xl 150)
  | compareImmediate kind => some (.primary (match kind with | .signed => 11 | .logical => 10))
  | compare kind => some (.x (match kind with | .signed => 0 | .logical => 32))
  | arithmeticImmediate op => some (.primary op.code)
  | arithmetic op => some (.xo op.code)
  | logicalImmediate op => some (.primary op.code)
  | logical op => some (.x op.wordCode)
  | unary op => some (.x op.code)
  | shift op => some (.x op.code)
  | srawi => some (.x 824)
  | rlwimi => some (.primary 20)
  | rlwinm => some (.primary 21)
  | rlwnm => some (.primary 23)
  | load kind update => kind.code?.map fun p => .primary (p + update.toNat)
  | loadIndexed kind update => (kind.indexedCode? update).map .x
  | store kind update => kind.code?.map fun p => .primary (p + update.toNat)
  | storeIndexed kind update => (kind.indexedCode? update).map .x
  | loadMultiple => some (.primary 46)
  | storeMultiple => some (.primary 47)
  | moveFromSpr => some (.x 339)
  | moveToSpr => some (.x 467)
  | moveFromCr => some (.x 19)
  | moveToCrFields => some (.x 144)
  | sync => some (.x 598)

theorem opcode?_of_code? {op : Opcode} {c : Code} (h : op.code? = some c) :
    c.opcode? = some op := by
  cases op with
  | crLogical op | arithmeticImmediate op | arithmetic op | logicalImmediate op | logical op
  | unary op | shift op => cases op <;> cases h <;> rfl
  | compareImmediate kind | compare kind => cases kind <;> cases h <;> rfl
  | load kind update | loadIndexed kind update | store kind update | storeIndexed kind update =>
    cases kind <;> cases update <;> cases h <;> rfl
  | _ => cases h; rfl

theorem code?_of_opcode? {op : Opcode} {c : Code} (h : c.opcode? = some op) :
    op.code? = some c := by
  have hp : ∀ n, ∀ op ∈ ofPrimary? n, op.code? = some (.primary n) := by decide +kernel
  have hxl : ∀ n, ∀ op ∈ ofXl? n, op.code? = some (.xl n) := by decide +kernel
  have hx : ∀ n, ∀ op ∈ ofX? n, op.code? = some (.x n) := by decide +kernel
  have hxo : ∀ n, ∀ op ∈ ofXo? n, (arithmetic op).code? = some (.xo n) := by decide +kernel
  cases c with
  | primary n => exact hp n op h
  | xl n => exact hxl n op h
  | x n => exact hx n op h
  | xo n =>
    obtain ⟨op, hop, rfl⟩ := Option.map_eq_some_iff.mp h
    exact hxo n op hop

theorem code?_eq_some_iff {op : Opcode} {c : Code} :
    op.code? = some c ↔ c.opcode? = some op :=
  ⟨opcode?_of_code?, code?_of_opcode?⟩

-- ---------------------------------------------------------------------------
-- The opcode of a word
-- ---------------------------------------------------------------------------

variable {w : Word} {op : Opcode} {c : Code}

theorem xo_ofWord (w : Word) : (XoForm.ofWord w).xo = (XForm.ofWord w).xo.setWidth 9 := by
  refine BitVec.eq_of_getLsbD_eq fun i hi => ?_
  rw [BitVec.getLsbD_setWidth]
  show (w.field 22 9).getLsbD i = (decide (i < 9) && (w.field 21 10).getLsbD i)
  rw [Word.getLsbD_field w (by decide) hi, Word.getLsbD_field w (by decide) (by omega)]
  simp [hi]

theorem ofX?_eq_none_of_ofXo? :
    ∀ n : BitVec 10, (ofXo? (n.setWidth 9)).isSome → ofX? n = none := by
  decide +kernel

theorem ofWord?_xl (h : w.primary = 19) : ofWord? w = ofXl? (XlForm.ofWord w).xo := by
  simp only [ofWord?, h]
  rfl

theorem ofWord?_x (h : w.primary = 31) :
    ofWord? w = (ofX? (XForm.ofWord w).xo <|> (ofXo? (XoForm.ofWord w).xo).map arithmetic) := by
  simp only [ofWord?, h]
  rfl

theorem ofWord?_primary (h19 : w.primary ≠ 19) (h31 : w.primary ≠ 31) :
    ofWord? w = ofPrimary? w.primary := by
  have hxl : w.primary.toNat ≠ 19 := fun h => h19 (BitVec.eq_of_toNat_eq h)
  have hx : w.primary.toNat ≠ 31 := fun h => h31 (BitVec.eq_of_toNat_eq h)
  unfold ofWord?
  generalize w.primary.toNat = n at hxl hx
  split
  · contradiction
  · contradiction
  · rfl

theorem Code.heldBy_iff : (∀ f ∈ c.fields, f.HeldBy w) ↔
    match c with
    | primary n => w.primary = n
    | xl n => w.primary = 19 ∧ (XlForm.ofWord w).xo = n
    | x n => w.primary = 31 ∧ (XForm.ofWord w).xo = n
    | xo n => w.primary = 31 ∧ (XoForm.ofWord w).xo = n := by
  cases c <;> simp only [fields, List.forall_mem_cons, List.not_mem_nil, false_implies,
    implies_true, and_true] <;> exact Iff.rfl

theorem code_of_ofWord? (h : ofWord? w = some op) :
    ∃ c : Code, c.opcode? = some op ∧ ∀ f ∈ c.fields, f.HeldBy w := by
  by_cases h19 : w.primary = 19
  · rw [ofWord?_xl h19] at h
    exact ⟨.xl _, h, Code.heldBy_iff.mpr ⟨h19, rfl⟩⟩
  by_cases h31 : w.primary = 31
  · rw [ofWord?_x h31] at h
    cases hx : ofX? (XForm.ofWord w).xo with
    | some a =>
      rw [hx] at h
      exact ⟨.x _, hx.trans h, Code.heldBy_iff.mpr ⟨h31, rfl⟩⟩
    | none =>
      rw [hx] at h
      exact ⟨.xo _, h, Code.heldBy_iff.mpr ⟨h31, rfl⟩⟩
  rw [ofWord?_primary h19 h31] at h
  exact ⟨.primary _, h, Code.heldBy_iff.mpr rfl⟩

theorem ofWord?_of_code (hop : c.opcode? = some op) (hw : ∀ f ∈ c.fields, f.HeldBy w) :
    ofWord? w = some op := by
  rw [Code.heldBy_iff] at hw
  cases c with
  | primary n =>
    obtain rfl : w.primary = n := hw
    have hne : ∀ n, ofPrimary? n = some op → n ≠ 19 ∧ n ≠ 31 := by
      rintro n h
      constructor <;> rintro rfl <;> cases h
    obtain ⟨h19, h31⟩ := hne _ hop
    rw [ofWord?_primary h19 h31]
    exact hop
  | xl n =>
    obtain ⟨h19, hn⟩ := hw
    rw [ofWord?_xl h19, hn]
    exact hop
  | x n =>
    obtain ⟨h31, hn⟩ := hw
    rw [ofWord?_x h31, hn, show ofX? n = some op from hop]
    rfl
  | xo n =>
    obtain ⟨h31, hn⟩ := hw
    obtain ⟨a, ha, rfl⟩ := Option.map_eq_some_iff.mp hop
    have hnone : ofX? (XForm.ofWord w).xo = none := by
      refine ofX?_eq_none_of_ofXo? _ ?_
      rw [← xo_ofWord, hn, ha]
      rfl
    rw [ofWord?_x h31, hnone, hn, ha]
    rfl

theorem ofWord?_eq_some_iff :
    ofWord? w = some op ↔ ∃ c, op.code? = some c ∧ ∀ f ∈ c.fields, f.HeldBy w := by
  simp only [code?_eq_some_iff]
  exact ⟨code_of_ofWord?, fun ⟨_, hop, hw⟩ => ofWord?_of_code hop hw⟩

end Opcode

end PowerPC
