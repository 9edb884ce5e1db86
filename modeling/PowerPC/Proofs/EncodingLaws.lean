import PowerPC.Instruction.Basic
import PowerPC.Proofs.OpcodeLaws
import PowerPC.Proofs.OperandLaws

/-!
# Well-formed instructions and their words

`WellFormed` says which values of the instruction type a word can hold. `fields` says where a word
holds one: the code of the opcode and the operands. No two of these overlap, so `encode` can put
them together, and what they leave uncovered are the bits that the opcode ignores.
-/

namespace PowerPC

variable {i : Instruction} {b : Nat}

-- ---------------------------------------------------------------------------
-- Well-formed instructions
-- ---------------------------------------------------------------------------

namespace CompareOperand

/-- An immediate is a halfword, extended in the way that the compare reads it. -/
def InBounds (kind : Comparison) : CompareOperand → Prop
  | gpr _ => True
  | immediate value =>
    match kind with
    | .signed => value.IsSigned 16
    | .logical => value.toNat < 2 ^ 16

end CompareOperand

namespace Addressing

def InBounds : Addressing → Prop
  | displaced _ d => d.IsSigned 16
  | indexed _ _ => True

def isIndexed : Addressing → Bool
  | displaced _ _ => false
  | indexed _ _ => true

end Addressing

def RotateOp.InBounds : RotateOp → Prop
  | rlwimi sh | rlwinm sh => sh.toNat < 32
  | rlwnm _ => True

def LoadKind.isByteReversed : LoadKind → Bool
  | halfwordByteReversed | wordByteReversed => true
  | _ => false

theorem LoadKind.isSome_code? {kind : LoadKind} : kind.code?.isSome ↔ ¬ kind.isByteReversed := by
  cases kind <;> decide

theorem LoadKind.isSome_indexedCode? {kind : LoadKind} {update : Bool} :
    (kind.indexedCode? update).isSome ↔ (kind.isByteReversed → ¬ update) := by
  cases kind <;> revert update <;> decide

def StoreKind.isByteReversed : StoreKind → Bool
  | halfwordByteReversed | wordByteReversed => true
  | _ => false

theorem StoreKind.isSome_code? {kind : StoreKind} : kind.code?.isSome ↔ ¬ kind.isByteReversed := by
  cases kind <;> decide

theorem StoreKind.isSome_indexedCode? {kind : StoreKind} {update : Bool} :
    (kind.indexedCode? update).isSome ↔ (kind.isByteReversed → ¬ update) := by
  cases kind <;> revert update <;> decide

namespace Instruction

/-- Every number is one that its field can hold, and there is a form for the operation. -/
def InBounds : Instruction → Prop
  | branch offset _ _ => offset.IsOffset 26
  | branchConditional bo _ offset _ _ => bo.toNat < 32 ∧ offset.IsOffset 16
  | branchToLr bo _ _ | branchToCtr bo _ _ => bo.toNat < 32
  | compare kind _ _ rhs => rhs.InBounds kind
  | arithmeticImmediate _ _ _ imm => imm.IsSigned 16
  | logicalImmediate _ _ _ imm => imm.toNat < 2 ^ 16
  | shiftRightAlgebraicImmediate _ _ sh _ => sh.toNat < 32
  | rotate op _ _ mb me _ => op.InBounds ∧ mb.toNat < 32 ∧ me.toNat < 32
  | load kind _ ea update => ea.InBounds ∧ (kind.isByteReversed → ea.isIndexed ∧ ¬ update)
  | store kind _ ea update => ea.InBounds ∧ (kind.isByteReversed → ea.isIndexed ∧ ¬ update)
  | loadMultiple _ _ d | storeMultiple _ _ d => d.IsSigned 16
  | _ => True

/-- The operands do not get in each other's way. -/
def Allowed : Instruction → Prop
  | branchToCtr bo _ _ => BranchOption.skipsCounter bo
  | load _ rt ea update => update → ea.base ≠ 0 ∧ ea.base ≠ rt
  | store _ _ ea update => update → ea.base ≠ 0
  | loadMultiple rt ra _ => ra < rt
  | _ => True

/-- What a word can stand for. Registers, flags and selectors are not restricted otherwise. -/
def WellFormed (i : Instruction) : Prop := i.InBounds ∧ i.Allowed

-- ---------------------------------------------------------------------------
-- The fields of an instruction
-- ---------------------------------------------------------------------------

def opcode : Instruction → Opcode
  | branch .. => .branch
  | branchConditional .. => .branchConditional
  | branchToLr .. => .branchToLr
  | branchToCtr .. => .branchToCtr
  | crLogical op _ _ _ => .crLogical op
  | moveCrField .. => .moveCrField
  | compare kind _ _ (.immediate _) => .compareImmediate kind
  | compare kind _ _ (.gpr _) => .compare kind
  | arithmeticImmediate op _ _ _ => .arithmeticImmediate op
  | arithmetic op _ _ _ _ _ => .arithmetic op
  | logicalImmediate op _ _ _ => .logicalImmediate op
  | logical op _ _ _ _ => .logical op
  | unary op _ _ _ => .unary op
  | shift op _ _ _ _ => .shift op
  | shiftRightAlgebraicImmediate .. => .srawi
  | rotate (.rlwimi _) .. => .rlwimi
  | rotate (.rlwinm _) .. => .rlwinm
  | rotate (.rlwnm _) .. => .rlwnm
  | load kind _ (.displaced _ _) update => .load kind update
  | load kind _ (.indexed _ _) update => .loadIndexed kind update
  | store kind _ (.displaced _ _) update => .store kind update
  | store kind _ (.indexed _ _) update => .storeIndexed kind update
  | loadMultiple .. => .loadMultiple
  | storeMultiple .. => .storeMultiple
  | moveFromSpr .. => .moveFromSpr
  | moveToSpr .. => .moveToSpr
  | moveFromCr .. => .moveFromCr
  | moveToCrFields .. => .moveToCrFields
  | sync => .sync
  | isync => .isync

end Instruction

namespace Opcode

/-- Where the fields of a word of the opcode stand: those of the code first, then the operands. -/
def spans : Opcode → List Span
  | branch => [⟨0, 6⟩, ⟨6, 24⟩, ⟨30, 1⟩, ⟨31, 1⟩]
  | branchConditional => [⟨0, 6⟩, ⟨6, 5⟩, ⟨11, 5⟩, ⟨16, 14⟩, ⟨30, 1⟩, ⟨31, 1⟩]
  | branchToLr | branchToCtr => [⟨0, 6⟩, ⟨21, 10⟩, ⟨6, 5⟩, ⟨11, 5⟩, ⟨31, 1⟩]
  | crLogical _ => [⟨0, 6⟩, ⟨21, 10⟩, ⟨6, 5⟩, ⟨11, 5⟩, ⟨16, 5⟩]
  | moveCrField => [⟨0, 6⟩, ⟨21, 10⟩, ⟨6, 3⟩, ⟨11, 3⟩]
  | compareImmediate _ => [⟨0, 6⟩, ⟨6, 3⟩, ⟨11, 5⟩, ⟨16, 16⟩]
  | compare _ => [⟨0, 6⟩, ⟨21, 10⟩, ⟨6, 3⟩, ⟨11, 5⟩, ⟨16, 5⟩]
  | arithmeticImmediate _ | logicalImmediate _ | load _ _ | store _ _ | loadMultiple
  | storeMultiple => [⟨0, 6⟩, ⟨6, 5⟩, ⟨11, 5⟩, ⟨16, 16⟩]
  | arithmetic _ => [⟨0, 6⟩, ⟨22, 9⟩, ⟨6, 5⟩, ⟨11, 5⟩, ⟨16, 5⟩, ⟨21, 1⟩, ⟨31, 1⟩]
  | logical _ | shift _ | srawi => [⟨0, 6⟩, ⟨21, 10⟩, ⟨6, 5⟩, ⟨11, 5⟩, ⟨16, 5⟩, ⟨31, 1⟩]
  | unary _ => [⟨0, 6⟩, ⟨21, 10⟩, ⟨6, 5⟩, ⟨11, 5⟩, ⟨31, 1⟩]
  | rlwimi | rlwinm | rlwnm =>
    [⟨0, 6⟩, ⟨6, 5⟩, ⟨11, 5⟩, ⟨16, 5⟩, ⟨21, 5⟩, ⟨26, 5⟩, ⟨31, 1⟩]
  | loadIndexed _ _ | storeIndexed _ _ => [⟨0, 6⟩, ⟨21, 10⟩, ⟨6, 5⟩, ⟨11, 5⟩, ⟨16, 5⟩]
  | moveFromSpr | moveToSpr => [⟨0, 6⟩, ⟨21, 10⟩, ⟨6, 5⟩, ⟨11, 10⟩]
  | moveFromCr => [⟨0, 6⟩, ⟨21, 10⟩, ⟨6, 5⟩]
  | moveToCrFields => [⟨0, 6⟩, ⟨21, 10⟩, ⟨12, 8⟩, ⟨6, 5⟩]
  | sync | isync => [⟨0, 6⟩, ⟨21, 10⟩]

def ignored : Opcode → List Nat
  | compareImmediate _ => [9, 10]
  | compare _ => [9, 10, 31]
  | moveCrField => [9, 10, 14, 15, 16, 17, 18, 19, 20, 31]
  | crLogical _ | moveFromSpr | moveToSpr | loadIndexed _ _ | storeIndexed _ _ => [31]
  | branchToLr | branchToCtr | unary _ => [16, 17, 18, 19, 20]
  | sync | isync => [6, 7, 8, 9, 10, 11, 12, 13, 14, 15, 16, 17, 18, 19, 20, 31]
  | moveFromCr => [11, 12, 13, 14, 15, 16, 17, 18, 19, 20, 31]
  | moveToCrFields => [11, 20, 31]
  | _ => []

end Opcode

namespace Instruction

def addressFields : Addressing → List BitField
  | .displaced ra d => [.index 11 ra, .immediate d]
  | .indexed ra rb => [.index 11 ra, .index 16 rb]

def rotateField : RotateOp → BitField
  | .rlwimi sh | .rlwinm sh => .amount 16 sh
  | .rlwnm rb => .index 16 rb

def operands : Instruction → List BitField
  | branch offset aa lk => [.offset 6 24 offset, .flag 30 aa, .flag 31 lk]
  | branchConditional bo bi offset aa lk =>
    [.amount 6 bo, .index 11 bi, .offset 16 14 offset, .flag 30 aa, .flag 31 lk]
  | branchToLr bo bi lk | branchToCtr bo bi lk => [.amount 6 bo, .index 11 bi, .flag 31 lk]
  | crLogical _ bt ba bb => [.index 6 bt, .index 11 ba, .index 16 bb]
  | moveCrField bf bfa => [.crField 6 bf, .crField 11 bfa]
  | compare _ bf ra (.immediate value) => [.crField 6 bf, .index 11 ra, .immediate value]
  | compare _ bf ra (.gpr rb) => [.crField 6 bf, .index 11 ra, .index 16 rb]
  | arithmeticImmediate _ rt ra imm => [.index 6 rt, .index 11 ra, .immediate imm]
  | arithmetic _ rt ra rb oe rc =>
    [.index 6 rt, .index 11 ra, .index 16 rb, .flag 21 oe, .flag 31 rc]
  | logicalImmediate _ rs ra imm => [.index 6 rs, .index 11 ra, .immediate imm]
  | logical _ rs ra rb rc | shift _ rs ra rb rc =>
    [.index 6 rs, .index 11 ra, .index 16 rb, .flag 31 rc]
  | unary _ rs ra rc => [.index 6 rs, .index 11 ra, .flag 31 rc]
  | shiftRightAlgebraicImmediate rs ra sh rc =>
    [.index 6 rs, .index 11 ra, .amount 16 sh, .flag 31 rc]
  | rotate op rs ra mb me rc =>
    [.index 6 rs, .index 11 ra, rotateField op, .amount 21 mb, .amount 26 me, .flag 31 rc]
  | load _ rt ea _ => .index 6 rt :: addressFields ea
  | store _ rs ea _ => .index 6 rs :: addressFields ea
  | loadMultiple rt ra d | storeMultiple rt ra d => [.index 6 rt, .index 11 ra, .immediate d]
  | moveFromSpr r spr | moveToSpr spr r => [.index 6 r, .spr spr]
  | moveFromCr rt => [.index 6 rt]
  | moveToCrFields fxm rs => [⟨⟨12, 8⟩, fxm⟩, .index 6 rs]
  | sync | isync => []

def fields (i : Instruction) : List BitField :=
  (i.opcode.code?.map Opcode.Code.fields).getD [] ++ i.operands

/-- The word that holds the instruction and has zeros elsewhere. -/
def encode (i : Instruction) : Word := BitField.assemble i.fields

theorem InBounds.isSome_code? (h : i.InBounds) : i.opcode.code?.isSome := by
  cases i with
  | compare kind bf ra rhs => cases rhs <;> rfl
  | rotate op rs ra mb me rc => cases op <;> rfl
  | load kind rt ea update =>
    obtain ⟨-, hreversed⟩ := h
    cases ea with
    | displaced ra d =>
      rw [opcode, Opcode.code?, Option.isSome_map, LoadKind.isSome_code?]
      intro hkind
      cases (hreversed hkind).1
    | indexed ra rb =>
      rw [opcode, Opcode.code?, Option.isSome_map, LoadKind.isSome_indexedCode?]
      exact fun hkind => (hreversed hkind).2
  | store kind rs ea update =>
    obtain ⟨-, hreversed⟩ := h
    cases ea with
    | displaced ra d =>
      rw [opcode, Opcode.code?, Option.isSome_map, StoreKind.isSome_code?]
      intro hkind
      cases (hreversed hkind).1
    | indexed ra rb =>
      rw [opcode, Opcode.code?, Option.isSome_map, StoreKind.isSome_indexedCode?]
      exact fun hkind => (hreversed hkind).2
  | _ => rfl

theorem map_span_fields (h : i.InBounds) : i.fields.map BitField.toSpan = i.opcode.spans := by
  obtain ⟨c, hc⟩ := Option.isSome_iff_exists.mp h.isSome_code?
  rw [fields, hc]
  cases i with
  | compare kind bf ra rhs => cases rhs <;> cases hc <;> rfl
  | rotate op rs ra mb me rc => cases op <;> cases hc <;> rfl
  | load kind rt ea update =>
    cases ea <;> obtain ⟨n, -, rfl⟩ := Option.map_eq_some_iff.mp hc <;> rfl
  | store kind rs ea update =>
    cases ea <;> obtain ⟨n, -, rfl⟩ := Option.map_eq_some_iff.mp hc <;> rfl
  | _ => cases hc; rfl

end Instruction

namespace Opcode

theorem spans_fit (op : Opcode) : ∀ s ∈ op.spans, s.Fits := by
  cases op <;> simp only [spans] <;> decide

theorem spans_apart (op : Opcode) : op.spans.Pairwise Span.Apart := by
  cases op <;> simp only [spans] <;> decide

theorem not_mem_ignored_iff {op : Opcode} (hb : b < 32) :
    b ∉ op.ignored ↔ ∃ s ∈ op.spans, s.Covers b := by
  revert b
  cases op <;> simp only [spans, ignored] <;> decide

end Opcode

namespace Instruction

theorem fields_fit (h : i.InBounds) : ∀ f ∈ i.fields, f.Fits := by
  intro f hf
  refine i.opcode.spans_fit _ ?_
  rw [← map_span_fields h]
  exact List.mem_map_of_mem hf

theorem fields_apart (h : i.InBounds) : i.fields.Pairwise fun f g => f.Apart g.toSpan := by
  have hapart := i.opcode.spans_apart
  rw [← map_span_fields h] at hapart
  exact List.pairwise_map.mp hapart

theorem heldBy_encode (h : i.InBounds) : ∀ f ∈ i.fields, f.HeldBy i.encode :=
  BitField.heldBy_assemble (fields_fit h) (fields_apart h)

end Instruction

end PowerPC
