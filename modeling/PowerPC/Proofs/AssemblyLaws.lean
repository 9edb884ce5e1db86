import PowerPC.Machine.Basic
import PowerPC.Proofs.ListingLaws
import PowerPC.Proofs.MnemonicLaws

/-!
# Listings assembled

A listing leaves out what its mnemonic implies (`bdnz` tests no bit) and what execution never looks
at: hint bits of a branch option, `rb` of an operation on one register, the upper half of an
`addis` immediate. `assemble?` reads mnemonic and operands back to an instruction with those parts
filled in, and that instruction executes as the one that was listed. So the text of an instruction
tells what it does.
-/

namespace PowerPC

-- ---------------------------------------------------------------------------
-- Branch options
-- ---------------------------------------------------------------------------

def CrBit.ofPlace (f : CrField) (place : Fin 4) : CrBit := ⟨4 * f.val + place.val, by omega⟩

theorem CrBit.ofPlace_field_place (b : CrBit) : ofPlace b.field b.place = b :=
  Fin.ext (Nat.div_add_mod b.val 4)

namespace BranchTest

def signature : BranchTest → List Operand.Kind
  | always | counter _ => []
  | flag _ _ => [.crField]
  | both => [.number, .number]

/-- The branch option and bit that the operands before a target stand for, and the operands left.
Hint bits are zero, as is a bit that is not tested. -/
def assemble? : BranchTest → List Operand → Option (Byte × CrBit × List Operand)
  | always, rest => some (0x14, 0, rest)
  | flag place onSet, .crField f :: rest =>
    some (if onSet then 0x0C else 0x04, .ofPlace f place, rest)
  | counter onZero, rest => some (if onZero then 0x12 else 0x10, 0, rest)
  | both, .number bo :: .number bi :: rest => some (BitVec.ofNat 8 bo, Fin.ofNat 32 bi, rest)
  | _, _ => none

end BranchTest

namespace BranchOption

/-- The two options, each with its bit, count and test alike in every state. -/
structure Alike (bo bo' : Byte) (bi bi' : CrBit) : Prop where
  countDown (r : Registers) : r.countDown bo = r.countDown bo'
  conditionHolds (r : Registers) : r.conditionHolds bo bi = r.conditionHolds bo' bi'

variable (bo : Byte) (bi : CrBit) (tail : String)

theorem listing_spelled :
    (listing bo bi tail).mnemonic = (BranchTest.ofOption bo bi).stem ++ tail := by
  unfold listing extended? BranchTest.ofOption
  cases skipsCondition bo <;> cases skipsCounter bo
  · rfl
  · generalize bi.place = place
    cases onSet bo <;> match place with | 0 | 1 | 2 | 3 => rfl
  · cases onZero bo <;> rfl
  · rfl

theorem listing_kinds :
    (listing bo bi tail).operands.map Operand.kind = (BranchTest.ofOption bo bi).signature := by
  unfold listing extended? BranchTest.ofOption
  cases skipsCondition bo <;> cases skipsCounter bo <;> rfl

theorem alike_of_tests {bo bo' : Byte} {bi bi' : CrBit}
    (hcounter : skipsCounter bo = skipsCounter bo')
    (hzero : skipsCounter bo = false → onZero bo = onZero bo')
    (hcondition : skipsCondition bo = skipsCondition bo')
    (hset : skipsCondition bo = false → onSet bo = onSet bo' ∧ bi = bi') : Alike bo bo' bi bi' where
  countDown r := by
    unfold Registers.countDown
    cases h : skipsCounter bo
    · rw [← hcounter, h, hzero h]
    · rw [← hcounter, h]
      rfl
  conditionHolds r := by
    unfold Registers.conditionHolds
    cases h : skipsCondition bo
    · obtain ⟨honSet, rfl⟩ := hset h
      rw [← hcondition, h, honSet]
    · rw [← hcondition, h, Bool.true_or, Bool.true_or]

theorem exists_alike (rest : List Operand) : ∃ bo' bi', Alike bo bo' bi bi' ∧
    (BranchTest.ofOption bo bi).assemble? ((listing bo bi tail).operands ++ rest) =
      some (bo', bi', rest) := by
  unfold listing extended? BranchTest.ofOption
  cases hcondition : skipsCondition bo <;> cases hcounter : skipsCounter bo
  · exact ⟨bo, bi, ⟨fun _ => rfl, fun _ => rfl⟩, by simp [BranchTest.assemble?]⟩
  · cases honSet : onSet bo
    · refine ⟨0x04, bi, alike_of_tests hcounter ?_ hcondition fun _ => ⟨honSet, rfl⟩, ?_⟩
      · simp [hcounter]
      · exact congrArg (fun b => some (_, b, rest)) bi.ofPlace_field_place
    · refine ⟨0x0C, bi, alike_of_tests hcounter ?_ hcondition fun _ => ⟨honSet, rfl⟩, ?_⟩
      · simp [hcounter]
      · exact congrArg (fun b => some (_, b, rest)) bi.ofPlace_field_place
  · cases honZero : onZero bo
    · refine ⟨0x10, 0, alike_of_tests hcounter (fun _ => honZero) hcondition ?_, rfl⟩
      simp [hcondition]
    · refine ⟨0x12, 0, alike_of_tests hcounter (fun _ => honZero) hcondition ?_, rfl⟩
      simp [hcondition]
  · refine ⟨0x14, 0, alike_of_tests hcounter ?_ hcondition ?_, rfl⟩
    · simp [hcounter]
    · simp [hcondition]

end BranchOption

-- ---------------------------------------------------------------------------
-- Instructions
-- ---------------------------------------------------------------------------

namespace Mnemonic

/-- A destination is shown as an address where that is known. -/
def destinationKind (address : Option Word) (aa : Bool) : Operand.Kind :=
  if aa || address.isSome then .target else .distance

def signature (address : Option Word) : Mnemonic → List Operand.Kind
  | branch test _ aa => test.signature ++ [destinationKind address aa]
  | branchToLr test _ | branchToCtr test _ => test.signature
  | crLogical _ => [.number, .number, .number]
  | moveCrField => [.crField, .crField]
  | compare _ => [.crField, .gpr, .gpr]
  | compareImmediate .signed => [.crField, .gpr, .signed]
  | compareImmediate .logical => [.crField, .gpr, .number]
  | li => [.gpr, .signed]
  | lis => [.gpr, .hex]
  | arithmeticImmediate .addis => [.gpr, .gpr, .hex]
  | arithmeticImmediate _ => [.gpr, .gpr, .signed]
  | arithmetic op _ _ => if op.isBinary then [.gpr, .gpr, .gpr] else [.gpr, .gpr]
  | nop | sync | isync => []
  | logicalImmediate _ => [.gpr, .gpr, .hex]
  | mr _ | unary _ _ => [.gpr, .gpr]
  | logical _ _ | shift _ _ | loadIndexed _ _ | storeIndexed _ _ => [.gpr, .gpr, .gpr]
  | srawi _ => [.gpr, .gpr, .number]
  | rlwimi _ | rlwinm _ => [.gpr, .gpr, .number, .number, .number]
  | rlwnm _ => [.gpr, .gpr, .gpr, .number, .number]
  | load _ _ | store _ _ | loadMultiple | storeMultiple => [.gpr, .displaced]
  | moveFromSpr _ | moveToSpr _ | moveFromCr | moveToCr => [.gpr]
  | moveToCrFields => [.mask, .gpr]

def offset? (address : Option Word) (aa : Bool) : Operand → Option Word
  | .target t => if aa then some t else address.map (t - ·)
  | .distance offset => some offset
  | _ => none

/-- The instruction that a mnemonic and operands stand for. What they leave open is zero. -/
def assemble? (address : Option Word) (m : Mnemonic) (operands : List Operand) :
    Option Instruction :=
  match m with
  | branch test lk aa => do
    let (bo, bi, [destination]) ← test.assemble? operands | none
    return .branchConditional bo bi (← offset? address aa destination) aa lk
  | branchToLr test lk => do
    let (bo, bi, []) ← test.assemble? operands | none
    return .branchToLr bo bi lk
  | branchToCtr test lk => do
    let (bo, bi, []) ← test.assemble? operands | none
    return .branchToCtr bo bi lk
  | crLogical op => do
    let [.number bt, .number ba, .number bb] := operands | none
    return .crLogical op (.ofNat 32 bt) (.ofNat 32 ba) (.ofNat 32 bb)
  | moveCrField => do
    let [.crField bf, .crField bfa] := operands | none
    return .moveCrField bf bfa
  | compare kind => do
    let [.crField bf, .gpr ra, .gpr rb] := operands | none
    return .compare kind bf ra (.gpr rb)
  | compareImmediate .signed => do
    let [.crField bf, .gpr ra, .signed imm] := operands | none
    return .compare .signed bf ra (.immediate imm)
  | compareImmediate .logical => do
    let [.crField bf, .gpr ra, .number imm] := operands | none
    return .compare .logical bf ra (.immediate (.ofNat 32 imm))
  | li => do
    let [.gpr rt, .signed imm] := operands | none
    return .arithmeticImmediate .addi rt 0 imm
  | lis => do
    let [.gpr rt, .hex imm] := operands | none
    return .arithmeticImmediate .addis rt 0 imm
  | arithmeticImmediate .addis => do
    let [.gpr rt, .gpr ra, .hex imm] := operands | none
    return .arithmeticImmediate .addis rt ra imm
  | arithmeticImmediate op => do
    let [.gpr rt, .gpr ra, .signed imm] := operands | none
    return .arithmeticImmediate op rt ra imm
  | arithmetic op oe rc =>
    match operands with
    | [.gpr rt, .gpr ra, .gpr rb] => some (.arithmetic op rt ra rb oe rc)
    | [.gpr rt, .gpr ra] => some (.arithmetic op rt ra 0 oe rc)
    | _ => none
  | nop => return .logicalImmediate .ori 0 0 0
  | logicalImmediate op => do
    let [.gpr ra, .gpr rs, .hex imm] := operands | none
    return .logicalImmediate op rs ra imm
  | mr rc => do
    let [.gpr ra, .gpr rs] := operands | none
    return .logical .or rs ra rs rc
  | logical op rc => do
    let [.gpr ra, .gpr rs, .gpr rb] := operands | none
    return .logical op rs ra rb rc
  | unary op rc => do
    let [.gpr ra, .gpr rs] := operands | none
    return .unary op rs ra rc
  | shift op rc => do
    let [.gpr ra, .gpr rs, .gpr rb] := operands | none
    return .shift op rs ra rb rc
  | srawi rc => do
    let [.gpr ra, .gpr rs, .number sh] := operands | none
    return .shiftRightAlgebraicImmediate rs ra (.ofNat 8 sh) rc
  | rlwimi rc => do
    let [.gpr ra, .gpr rs, .number sh, .number mb, .number me] := operands | none
    return .rotate (.rlwimi (.ofNat 8 sh)) rs ra (.ofNat 8 mb) (.ofNat 8 me) rc
  | rlwinm rc => do
    let [.gpr ra, .gpr rs, .number sh, .number mb, .number me] := operands | none
    return .rotate (.rlwinm (.ofNat 8 sh)) rs ra (.ofNat 8 mb) (.ofNat 8 me) rc
  | rlwnm rc => do
    let [.gpr ra, .gpr rs, .gpr rb, .number mb, .number me] := operands | none
    return .rotate (.rlwnm rb) rs ra (.ofNat 8 mb) (.ofNat 8 me) rc
  | load kind update => do
    let [.gpr rt, .displaced d ra] := operands | none
    return .load kind rt (.displaced ra d) update
  | loadIndexed kind update => do
    let [.gpr rt, .gpr ra, .gpr rb] := operands | none
    return .load kind rt (.indexed ra rb) update
  | store kind update => do
    let [.gpr rs, .displaced d ra] := operands | none
    return .store kind rs (.displaced ra d) update
  | storeIndexed kind update => do
    let [.gpr rs, .gpr ra, .gpr rb] := operands | none
    return .store kind rs (.indexed ra rb) update
  | loadMultiple => do
    let [.gpr rt, .displaced d ra] := operands | none
    return .loadMultiple rt ra d
  | storeMultiple => do
    let [.gpr rs, .displaced d ra] := operands | none
    return .storeMultiple rs ra d
  | moveFromSpr spr => do
    let [.gpr rt] := operands | none
    return .moveFromSpr rt spr
  | moveToSpr spr => do
    let [.gpr rs] := operands | none
    return .moveToSpr spr rs
  | moveFromCr => do
    let [.gpr rt] := operands | none
    return .moveFromCr rt
  | moveToCr => do
    let [.gpr rs] := operands | none
    return .moveToCrFields (BitVec.allOnes 8) rs
  | moveToCrFields => do
    let [.mask fxm, .gpr rs] := operands | none
    return .moveToCrFields fxm rs
  | sync => return .sync
  | isync => return .isync

end Mnemonic

/-- A listing at an address is one of this mnemonic, and assembled it has this effect. -/
structure Listing.Assembles (address : Option Word) (l : Listing) (m : Mnemonic)
    (effect : Exec Unit) : Prop where
  spelled : l.mnemonic = m.text
  kinds : l.operands.map Operand.kind = m.signature address
  assembled : (m.assemble? address l.operands).map Instruction.execute = some effect

theorem Listing.Assembles.effect_eq {address : Option Word} {l l' : Listing} {m m' : Mnemonic}
    {effect effect' : Exec Unit} (h : l.Assembles address m effect)
    (h' : l'.Assembles address m' effect') (htext : l.text = l'.text) : effect = effect' := by
  obtain ⟨hmnemonic, htexts⟩ := mnemonic_and_texts_eq
    (h.spelled ▸ m.blank_notMem_text) (h'.spelled ▸ m'.blank_notMem_text) htext
  rw [h.spelled, h'.spelled, Mnemonic.text_inj] at hmnemonic
  subst hmnemonic
  have hoperands := operands_eq_of_texts_eq (h.kinds.trans h'.kinds.symm) htexts
  exact Option.some.inj (h.assembled.symm.trans (hoperands ▸ h'.assembled))

-- ---------------------------------------------------------------------------
-- Every instruction
-- ---------------------------------------------------------------------------

namespace Instruction

variable (address : Option Word)

theorem targetOperand_kind (offset : Word) (aa : Bool) :
    (targetOperand offset aa address).kind = Mnemonic.destinationKind address aa := by
  cases aa <;> cases address <;> rfl

theorem offset?_targetOperand (offset : Word) (aa : Bool) :
    Mnemonic.offset? address aa (targetOperand offset aa address) = some offset := by
  cases aa with
  | true => rfl
  | false =>
    cases address with
    | none => rfl
    | some a =>
      show some (a + offset - a) = some offset
      rw [BitVec.add_comm, BitVec.add_sub_cancel]

theorem branch_assembles (offset : Word) (aa lk : Bool) :
    ((branch offset aa lk).listing address).Assembles address (.branch .always lk aa)
      (branch offset aa lk).execute where
  spelled := String.append_assoc ..
  kinds := by simp [listing, Mnemonic.signature, BranchTest.signature, targetOperand_kind]
  assembled := by
    have hread : (Mnemonic.branch .always lk aa).assemble? address
        [targetOperand offset aa address] = some (.branchConditional 0x14 0 offset aa lk) := by
      simp [Mnemonic.assemble?, BranchTest.assemble?, offset?_targetOperand]
    exact congrArg (Option.map execute) hread

theorem branchConditional_assembles (bo : Byte) (bi : CrBit) (offset : Word) (aa lk : Bool) :
    ((branchConditional bo bi offset aa lk).listing address).Assembles address
      (.branch (.ofOption bo bi) lk aa) (branchConditional bo bi offset aa lk).execute where
  spelled := BranchOption.listing_spelled ..
  kinds := by
    simp [listing, Mnemonic.signature, BranchOption.listing_kinds, targetOperand_kind]
  assembled := by
    obtain ⟨bo', bi', halike, hread⟩ :=
      BranchOption.exists_alike bo bi (letter lk "l" ++ letter aa "a")
        [targetOperand offset aa address]
    simp [listing, Mnemonic.assemble?, hread, offset?_targetOperand, execute,
      Registers.branchConditional, halike.countDown, halike.conditionHolds]

theorem branchToLr_assembles (bo : Byte) (bi : CrBit) (lk : Bool) :
    ((branchToLr bo bi lk).listing address).Assembles address
      (.branchToLr (.ofOption bo bi) lk) (branchToLr bo bi lk).execute where
  spelled := BranchOption.listing_spelled ..
  kinds := BranchOption.listing_kinds ..
  assembled := by
    obtain ⟨bo', bi', halike, hread⟩ := BranchOption.exists_alike bo bi ("lr" ++ letter lk "l") []
    rw [List.append_nil] at hread
    simp [listing, Mnemonic.assemble?, hread, execute, Registers.branchToLr, halike.countDown,
      halike.conditionHolds]

theorem branchToCtr_assembles (bo : Byte) (bi : CrBit) (lk : Bool) :
    ((branchToCtr bo bi lk).listing address).Assembles address
      (.branchToCtr (.ofOption bo bi) lk) (branchToCtr bo bi lk).execute where
  spelled := BranchOption.listing_spelled ..
  kinds := BranchOption.listing_kinds ..
  assembled := by
    obtain ⟨bo', bi', halike, hread⟩ := BranchOption.exists_alike bo bi ("ctr" ++ letter lk "l") []
    rw [List.append_nil] at hread
    simp [listing, Mnemonic.assemble?, hread, execute, Registers.branchToCtr,
      halike.conditionHolds]

/-- The upper half of an `addis` immediate is shifted out. -/
theorem execute_addis_low_half (rt ra : Gpr) (imm : Word) :
    execute (arithmeticImmediate .addis rt ra (imm &&& 0xFFFF)) =
      execute (arithmeticImmediate .addis rt ra imm) := by
  have hshift : (imm &&& 0xFFFF) <<< 16 = imm <<< 16 := by
    apply BitVec.eq_of_toNat_eq
    have hlow : imm.toNat &&& 65535 = imm.toNat % 65536 := Nat.and_two_pow_sub_one_eq_mod _ 16
    simp only [BitVec.toNat_shiftLeft, BitVec.toNat_and, BitVec.reduceToNat, hlow,
      Nat.shiftLeft_eq]
    omega
  simp only [execute, Registers.arithmeticImmediate, hshift]

theorem arithmeticImmediate_assembles (op : ImmediateOp) (rt ra : Gpr) (imm : Word) :
    ∃ m, ((arithmeticImmediate op rt ra imm).listing address).Assembles address m
      (arithmeticImmediate op rt ra imm).execute := by
  cases op with
  | addi =>
    obtain rfl | h := Decidable.em (ra = 0)
    · exact ⟨.li, rfl, rfl, rfl⟩
    · have hlisting : (arithmeticImmediate .addi rt ra imm).listing address =
          ⟨"addi", [.gpr rt, .gpr ra, .signed imm]⟩ := if_neg h
      exact hlisting ▸ ⟨.arithmeticImmediate .addi, rfl, rfl, rfl⟩
  | addis =>
    obtain rfl | h := Decidable.em (ra = 0)
    · exact ⟨.lis, rfl, rfl, congrArg some (execute_addis_low_half rt 0 imm)⟩
    · have hlisting : (arithmeticImmediate .addis rt ra imm).listing address =
          ⟨"addis", [.gpr rt, .gpr ra, .hex (imm &&& 0xFFFF)]⟩ := if_neg h
      exact hlisting ▸ ⟨.arithmeticImmediate .addis, rfl, rfl,
        congrArg some (execute_addis_low_half rt ra imm)⟩
  | addic => exact ⟨.arithmeticImmediate .addic, rfl, rfl, rfl⟩
  | addicRecord => exact ⟨.arithmeticImmediate .addicRecord, rfl, rfl, rfl⟩
  | subfic => exact ⟨.arithmeticImmediate .subfic, rfl, rfl, rfl⟩
  | mulli => exact ⟨.arithmeticImmediate .mulli, rfl, rfl, rfl⟩

theorem execute_arithmetic_unary (op : ArithmeticOp) (rt ra rb rb' : Gpr) (oe rc : Bool)
    (h : op.isBinary = false) :
    execute (arithmetic op rt ra rb oe rc) = execute (arithmetic op rt ra rb' oe rc) := by
  cases op with
  | addze | addme | subfze | subfme | neg => rfl
  | _ => exact absurd h (by decide)

theorem arithmetic_assembles (op : ArithmeticOp) (rt ra rb : Gpr) (oe rc : Bool) :
    ((arithmetic op rt ra rb oe rc).listing address).Assembles address (.arithmetic op oe rc)
      (arithmetic op rt ra rb oe rc).execute := by
  cases h : op.isBinary with
  | true =>
    refine ⟨rfl, ?_, ?_⟩
    · simp [listing, Mnemonic.signature, h, Operand.kind]
    · simp [listing, Mnemonic.assemble?, h]
  | false =>
    refine ⟨rfl, ?_, ?_⟩
    · simp [listing, Mnemonic.signature, h, Operand.kind]
    · simp [listing, Mnemonic.assemble?, h, execute_arithmetic_unary op rt ra 0 rb oe rc h]

theorem logicalImmediate_assembles (op : LogicalImmediateOp) (rs ra : Gpr) (imm : Word) :
    ∃ m, ((logicalImmediate op rs ra imm).listing address).Assembles address m
      (logicalImmediate op rs ra imm).execute := by
  obtain ⟨rfl, rfl, rfl, rfl⟩ | h := Decidable.em (op = .ori ∧ rs = 0 ∧ ra = 0 ∧ imm = 0)
  · exact ⟨.nop, rfl, rfl, rfl⟩
  · have hlisting : (logicalImmediate op rs ra imm).listing address =
        ⟨op.mnemonic, [.gpr ra, .gpr rs, .hex imm]⟩ := if_neg h
    exact hlisting ▸ ⟨.logicalImmediate op, rfl, rfl, rfl⟩

theorem logical_assembles (op : LogicalOp) (rs ra rb : Gpr) (rc : Bool) :
    ∃ m, ((logical op rs ra rb rc).listing address).Assembles address m
      (logical op rs ra rb rc).execute := by
  obtain ⟨rfl, rfl⟩ | h := Decidable.em (op = .or ∧ rs = rb)
  · have hlisting : (logical .or rs ra rs rc).listing address =
        ⟨"mr" ++ letter rc ".", [.gpr ra, .gpr rs]⟩ := if_pos ⟨rfl, rfl⟩
    exact hlisting ▸ ⟨.mr rc, rfl, rfl, rfl⟩
  · have hlisting : (logical op rs ra rb rc).listing address =
        ⟨op.mnemonic ++ letter rc ".", [.gpr ra, .gpr rs, .gpr rb]⟩ := if_neg h
    exact hlisting ▸ ⟨.logical op rc, rfl, rfl, rfl⟩

theorem moveToCrFields_assembles (fxm : Byte) (rs : Gpr) :
    ∃ m, ((moveToCrFields fxm rs).listing address).Assembles address m
      (moveToCrFields fxm rs).execute := by
  obtain rfl | h := Decidable.em (fxm = BitVec.allOnes 8)
  · exact ⟨.moveToCr, rfl, rfl, rfl⟩
  · have hlisting : (moveToCrFields fxm rs).listing address =
        ⟨"mtcrf", [.mask fxm, .gpr rs]⟩ := if_neg h
    exact hlisting ▸ ⟨.moveToCrFields, rfl, rfl, rfl⟩

theorem exists_assembles (i : Instruction) :
    ∃ m, (i.listing address).Assembles address m i.execute := by
  cases i with
  | branch offset aa lk => exact ⟨_, branch_assembles ..⟩
  | branchConditional bo bi offset aa lk => exact ⟨_, branchConditional_assembles ..⟩
  | branchToLr bo bi lk => exact ⟨_, branchToLr_assembles ..⟩
  | branchToCtr bo bi lk => exact ⟨_, branchToCtr_assembles ..⟩
  | crLogical op bt ba bb =>
    exact ⟨.crLogical op, rfl, rfl, by simp [listing, Mnemonic.assemble?]⟩
  | moveCrField bf bfa => exact ⟨.moveCrField, rfl, rfl, rfl⟩
  | compare kind bf ra rhs =>
    cases rhs with
    | gpr rb => cases kind <;> exact ⟨.compare _, rfl, rfl, rfl⟩
    | immediate imm =>
      cases kind with
      | signed => exact ⟨.compareImmediate .signed, rfl, rfl, rfl⟩
      | logical =>
        exact ⟨.compareImmediate .logical, rfl, rfl, by simp [listing, Mnemonic.assemble?]⟩
  | arithmeticImmediate op rt ra imm => exact arithmeticImmediate_assembles ..
  | arithmetic op rt ra rb oe rc => exact ⟨_, arithmetic_assembles ..⟩
  | logicalImmediate op rs ra imm => exact logicalImmediate_assembles ..
  | logical op rs ra rb rc => exact logical_assembles ..
  | unary op rs ra rc => exact ⟨.unary op rc, rfl, rfl, rfl⟩
  | shift op rs ra rb rc => exact ⟨.shift op rc, rfl, rfl, rfl⟩
  | shiftRightAlgebraicImmediate rs ra sh rc =>
    exact ⟨.srawi rc, rfl, rfl, by simp [listing, Mnemonic.assemble?]⟩
  | rotate op rs ra mb me rc =>
    cases op with
    | rlwimi sh => exact ⟨.rlwimi rc, rfl, rfl, by simp [listing, Mnemonic.assemble?]⟩
    | rlwinm sh => exact ⟨.rlwinm rc, rfl, rfl, by simp [listing, Mnemonic.assemble?]⟩
    | rlwnm rb => exact ⟨.rlwnm rc, rfl, rfl, by simp [listing, Mnemonic.assemble?]⟩
  | load kind rt ea update =>
    cases ea with
    | displaced ra d => exact ⟨.load kind update, rfl, rfl, rfl⟩
    | indexed ra rb => exact ⟨.loadIndexed kind update, rfl, rfl, rfl⟩
  | store kind rs ea update =>
    cases ea with
    | displaced ra d => exact ⟨.store kind update, rfl, rfl, rfl⟩
    | indexed ra rb => exact ⟨.storeIndexed kind update, rfl, rfl, rfl⟩
  | loadMultiple rt ra d => exact ⟨.loadMultiple, rfl, rfl, rfl⟩
  | storeMultiple rs ra d => exact ⟨.storeMultiple, rfl, rfl, rfl⟩
  | moveFromSpr rt spr => exact ⟨.moveFromSpr spr, rfl, rfl, rfl⟩
  | moveToSpr spr rs => exact ⟨.moveToSpr spr, rfl, rfl, rfl⟩
  | moveFromCr rt => exact ⟨.moveFromCr, rfl, rfl, rfl⟩
  | moveToCrFields fxm rs => exact moveToCrFields_assembles ..
  | sync => exact ⟨.sync, rfl, rfl, rfl⟩
  | isync => exact ⟨.isync, rfl, rfl, rfl⟩

variable {address} in
theorem execute_eq_of_listing_text_eq {i j : Instruction}
    (h : (i.listing address).text = (j.listing address).text) : i.execute = j.execute := by
  obtain ⟨m, hi⟩ := i.exists_assembles address
  obtain ⟨n, hj⟩ := j.exists_assembles address
  exact hi.effect_eq hj h

/-- Instructions of one text, at an address or at none, do the same in every state. -/
theorem execute_eq_of_text_eq {i j : Instruction} {a : Word}
    (h : i.textAt a = j.textAt a ∨ i.text = j.text) (m : Machine) :
    Machine.execute i m = Machine.execute j m := by
  have heffect : i.execute = j.execute :=
    h.elim execute_eq_of_listing_text_eq execute_eq_of_listing_text_eq
  rw [Machine.execute, Machine.execute, heffect]

/-- A conditional branch that tests nothing, with its hint bit and an idle bit number set, is
listed as `b`. -/
theorem execute_eq_of_text_eq_always :
    (branchConditional 0x15 9 8 false true).textAt 0x80003000 =
        (branch 8 false true).textAt 0x80003000 ∧
      (branch 8 false true).textAt 0x80003000 = "bl 0x80003008" ∧
      Machine.execute (branchConditional 0x15 9 8 false true) (Machine.ofMemory .gamecube) =
        Machine.execute (branch 8 false true) (Machine.ofMemory .gamecube) := by
  have htext : (branchConditional 0x15 9 8 false true).textAt 0x80003000 =
      (branch 8 false true).textAt 0x80003000 := by decide +kernel
  exact ⟨htext, by decide +kernel, execute_eq_of_text_eq (.inl htext) _⟩

end Instruction

end PowerPC
