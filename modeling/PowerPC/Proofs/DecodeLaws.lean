import PowerPC.Instruction.Decode
import PowerPC.Proofs.EncodingLaws
import PowerPC.Proofs.ResultLaws

/-!
# What decoding keeps

A word decodes to an instruction exactly if the instruction is well formed and the word holds its
fields. So the decoder reaches every well-formed instruction and no other, and of a word that it
accepts it loses only the bits that the opcode ignores.
-/

namespace PowerPC

variable {w : Word} {i : Instruction} {op : Opcode}

-- ---------------------------------------------------------------------------
-- The opcode of a result
-- ---------------------------------------------------------------------------

namespace Opcode

variable {rt : Gpr} {ea : Addressing} {update : Bool}

theorem decodeLoad_ok {kind : LoadKind} : decodeLoad w kind rt ea update = .ok i ↔
    .load kind rt ea update = i ∧ (Instruction.load kind rt ea update).Allowed := by
  simp only [decodeLoad, refuse_ok, not_and, not_or, ne_eq, Instruction.Allowed]

theorem decodeStore_ok {kind : StoreKind} : decodeStore w kind rt ea update = .ok i ↔
    .store kind rt ea update = i ∧ (Instruction.store kind rt ea update).Allowed := by
  simp only [decodeStore, refuse_ok, not_and, ne_eq, Instruction.Allowed]

theorem opcode_of_decode (h : op.decode w = .ok i) : i.opcode = op := by
  cases op with
  | branchToCtr | loadMultiple =>
    obtain ⟨rfl, -⟩ := require_ok.mp h
    rfl
  | load kind update | loadIndexed kind update =>
    obtain ⟨rfl, -⟩ := decodeLoad_ok.mp h
    rfl
  | store kind update | storeIndexed kind update =>
    obtain ⟨rfl, -⟩ := decodeStore_ok.mp h
    rfl
  | moveFromSpr | moveToSpr =>
    obtain ⟨spr, -, rfl⟩ := bind_pure_ok.mp h
    rfl
  | _ =>
    cases h
    rfl

end Opcode

-- ---------------------------------------------------------------------------
-- Operands
-- ---------------------------------------------------------------------------

namespace Instruction

theorem eq_and_allowed_iff {j : Instruction}
    (h : j = i ↔ i.InBounds ∧ ∀ f ∈ i.operands, f.HeldBy w) :
    j = i ∧ j.Allowed ↔ i.WellFormed ∧ ∀ f ∈ i.operands, f.HeldBy w := by
  constructor
  · rintro ⟨rfl, hallowed⟩
    obtain ⟨hbounds, hheld⟩ := h.mp rfl
    exact ⟨⟨hbounds, hallowed⟩, hheld⟩
  · rintro ⟨⟨hbounds, hallowed⟩, hheld⟩
    obtain rfl := h.mpr ⟨hbounds, hheld⟩
    exact ⟨rfl, hallowed⟩

theorem decode_opcode_ok_iff (hi : i.opcode.code?.isSome) :
    i.opcode.decode w = .ok i ↔ i.WellFormed ∧ ∀ f ∈ i.operands, f.HeldBy w := by
  -- Every operand is made of one field, so that the two sides agree field by field. The cases that
  -- stand out have a check, a choice of form or a register that may not exist.
  cases i with
  | branchToCtr bo bi lk =>
    refine require_ok.trans (eq_and_allowed_iff ?_)
    simp [InBounds, operands, XlForm.ofWord, amount_eq_iff, CrBit.ofOperand_eq_iff, Word.bit_eq_iff,
      and_assoc]
  | compare kind bf ra rhs =>
    cases rhs with
    | gpr rb =>
      simp [opcode, Opcode.decode, WellFormed, InBounds, CompareOperand.InBounds, Allowed, operands,
        XForm.ofWord, CrField.ofOperand_eq_iff, Gpr.ofOperand_eq_iff]
    | immediate value =>
      cases kind <;>
        simp [opcode, Opcode.decode, WellFormed, InBounds, CompareOperand.InBounds, Allowed,
          operands, DForm.ofWord, CrField.ofOperand_eq_iff, Gpr.ofOperand_eq_iff, signed_eq_iff,
          unsigned_eq_iff, and_left_comm]
  | rotate op rs ra mb me rc =>
    cases op <;>
      simp [opcode, Opcode.decode, WellFormed, InBounds, RotateOp.InBounds, Allowed, operands,
        rotateField, MForm.ofWord, Gpr.ofOperand_eq_iff, amount_eq_iff, Word.bit_eq_iff, and_assoc,
        and_left_comm]
  | load kind rt ea update =>
    cases ea with
    | displaced ra d =>
      rw [opcode, Opcode.code?, Option.isSome_map, LoadKind.isSome_code?] at hi
      refine Opcode.decodeLoad_ok.trans (eq_and_allowed_iff ?_)
      simp [InBounds, Addressing.InBounds, operands, addressFields, DForm.ofWord,
        Gpr.ofOperand_eq_iff, signed_eq_iff, hi, and_left_comm]
    | indexed ra rb =>
      rw [opcode, Opcode.code?, Option.isSome_map, LoadKind.isSome_indexedCode?] at hi
      refine Opcode.decodeLoad_ok.trans (eq_and_allowed_iff ?_)
      simp only [Bool.not_eq_true] at hi
      simp [InBounds, Addressing.InBounds, Addressing.isIndexed, operands, addressFields,
        XForm.ofWord, Gpr.ofOperand_eq_iff]
      exact fun _ _ _ => hi
  | store kind rs ea update =>
    cases ea with
    | displaced ra d =>
      rw [opcode, Opcode.code?, Option.isSome_map, StoreKind.isSome_code?] at hi
      refine Opcode.decodeStore_ok.trans (eq_and_allowed_iff ?_)
      simp [InBounds, Addressing.InBounds, operands, addressFields, DForm.ofWord,
        Gpr.ofOperand_eq_iff, signed_eq_iff, hi, and_left_comm]
    | indexed ra rb =>
      rw [opcode, Opcode.code?, Option.isSome_map, StoreKind.isSome_indexedCode?] at hi
      refine Opcode.decodeStore_ok.trans (eq_and_allowed_iff ?_)
      simp only [Bool.not_eq_true] at hi
      simp [InBounds, Addressing.InBounds, Addressing.isIndexed, operands, addressFields,
        XForm.ofWord, Gpr.ofOperand_eq_iff]
      exact fun _ _ _ => hi
  | loadMultiple rt ra d =>
    refine require_ok.trans (eq_and_allowed_iff ?_)
    simp [InBounds, operands, DForm.ofWord, Gpr.ofOperand_eq_iff, signed_eq_iff, and_left_comm]
  | moveFromSpr rt spr | moveToSpr spr rt =>
    refine bind_pure_ok.trans ?_
    simp only [WellFormed, InBounds, Allowed, operands, XfxForm.ofWord, moveFromSpr.injEq,
      moveToSpr.injEq, List.forall_mem_cons, ← Gpr.ofOperand_eq_iff, ← Spr.ofNumber_eq_ok_iff]
    constructor
    · rintro ⟨a, ha, hresult⟩
      obtain rfl : a = spr := by simp only [hresult]
      exact ⟨⟨trivial, trivial⟩, by simp only [hresult], ha, by simp⟩
    · rintro ⟨-, hrt, hspr, -⟩
      exact ⟨spr, hspr, by simp [hrt]⟩
  | moveToCrFields fxm rs =>
    -- The mask is the one operand that is read without a form.
    simp [opcode, Opcode.decode, WellFormed, InBounds, Allowed, operands, XForm.ofWord,
      Gpr.ofOperand_eq_iff, BitField.HeldBy]
  | _ =>
    simp [opcode, Opcode.decode, WellFormed, InBounds, Allowed, operands, IForm.ofWord,
      BForm.ofWord, DForm.ofWord, XForm.ofWord, XoForm.ofWord, XlForm.ofWord, Word.bit_eq_iff,
      offset_eq_iff, amount_eq_iff, signed_eq_iff, unsigned_eq_iff, CrBit.ofOperand_eq_iff,
      CrField.ofOperand_eq_iff, Gpr.ofOperand_eq_iff, and_assoc, and_left_comm]

theorem decode_ok_iff_opcode :
    Instruction.decode w = .ok i ↔ ∃ op, Opcode.ofWord? w = some op ∧ op.decode w = .ok i := by
  unfold Instruction.decode
  cases Opcode.ofWord? w <;> simp

theorem heldBy_fields_iff {c : Opcode.Code} (h : i.opcode.code? = some c) :
    (∀ f ∈ i.fields, f.HeldBy w) ↔
      (∀ f ∈ c.fields, f.HeldBy w) ∧ ∀ f ∈ i.operands, f.HeldBy w := by
  rw [fields, h]
  exact List.forall_mem_append

theorem decode_ok_iff :
    Instruction.decode w = .ok i ↔ i.WellFormed ∧ ∀ f ∈ i.fields, f.HeldBy w := by
  rw [decode_ok_iff_opcode]
  constructor
  · rintro ⟨op, hop, hi⟩
    obtain rfl := Opcode.opcode_of_decode hi
    obtain ⟨c, hc, hcode⟩ := Opcode.ofWord?_eq_some_iff.mp hop
    obtain ⟨hwf, hoperands⟩ := (decode_opcode_ok_iff (by rw [hc]; rfl)).mp hi
    exact ⟨hwf, (heldBy_fields_iff hc).mpr ⟨hcode, hoperands⟩⟩
  · rintro ⟨hwf, hfields⟩
    obtain ⟨c, hc⟩ := Option.isSome_iff_exists.mp hwf.1.isSome_code?
    obtain ⟨hcode, hoperands⟩ := (heldBy_fields_iff hc).mp hfields
    exact ⟨i.opcode, Opcode.ofWord?_eq_some_iff.mpr ⟨c, hc, hcode⟩,
      (decode_opcode_ok_iff hwf.1.isSome_code?).mpr ⟨hwf, hoperands⟩⟩

theorem decode_encode (h : i.WellFormed) : Instruction.decode i.encode = .ok i :=
  decode_ok_iff.mpr ⟨h, heldBy_encode h.1⟩

-- ---------------------------------------------------------------------------
-- The image of the decoder
-- ---------------------------------------------------------------------------

/-- The instructions that words stand for are the well-formed ones. -/
theorem exists_decode_iff_wellFormed (i : Instruction) :
    (∃ w, Instruction.decode w = .ok i) ↔ i.WellFormed := by
  constructor
  · rintro ⟨w, hw⟩
    exact (decode_ok_iff.mp hw).1
  · intro h
    exact ⟨i.encode, decode_encode h⟩

-- ---------------------------------------------------------------------------
-- What is lost
-- ---------------------------------------------------------------------------

theorem exists_covers_iff (h : i.InBounds) {b : Nat} :
    (∃ f ∈ i.fields, f.Covers b) ↔ b < 32 ∧ b ∉ i.opcode.ignored := by
  have hspans : (∃ f ∈ i.fields, f.Covers b) ↔ ∃ s ∈ i.opcode.spans, s.Covers b := by
    rw [← map_span_fields h]
    constructor
    · rintro ⟨f, hf, hb⟩
      exact ⟨f.toSpan, List.mem_map_of_mem hf, hb⟩
    · rintro ⟨s, hs, hb⟩
      obtain ⟨f, hf, rfl⟩ := List.mem_map.mp hs
      exact ⟨f, hf, hb⟩
  rw [hspans]
  constructor
  · rintro ⟨s, hs, hb⟩
    have hfit : s.first + s.width ≤ 32 := i.opcode.spans_fit s hs
    have hlt : b < 32 := Nat.lt_of_lt_of_le hb.2 hfit
    exact ⟨hlt, (Opcode.not_mem_ignored_iff hlt).mpr ⟨s, hs, hb⟩⟩
  · rintro ⟨hlt, hmem⟩
    exact (Opcode.not_mem_ignored_iff hlt).mp hmem

/-- A word stands for the same instruction as another exactly if they agree on every bit that the
opcode does not ignore. -/
theorem decode_ok_iff_agree {w₁ : Word} (h : Instruction.decode w₁ = .ok i) :
    ∃ op, Opcode.ofWord? w₁ = some op ∧ ∀ w₂, Instruction.decode w₂ = .ok i ↔
      ∀ b < 32, b ∉ op.ignored → w₁.bit b = w₂.bit b := by
  obtain ⟨hwf, hfields⟩ := decode_ok_iff.mp h
  obtain ⟨op, hop, hi⟩ := decode_ok_iff_opcode.mp h
  obtain rfl := Opcode.opcode_of_decode hi
  refine ⟨_, hop, fun w₂ => ?_⟩
  have hagree := BitField.heldBy_congr (v := w₂) (fields_fit hwf.1) hfields
  simp only [exists_covers_iff hwf.1, and_imp] at hagree
  rw [decode_ok_iff, hagree]
  exact and_iff_right hwf

/-- The move between condition register fields ignores most of its word: here each bit that it
ignores is set. -/
theorem decode_ok_iff_agree_mcrf : Instruction.decode 0x4FF7F801#32 = .ok (.moveCrField 7 5) ∧
    ∃ op, Opcode.ofWord? 0x4FF7F801#32 = some op ∧
      ∀ w₂, Instruction.decode w₂ = .ok (.moveCrField 7 5) ↔
        ∀ b < 32, b ∉ op.ignored → Word.bit 0x4FF7F801 b = w₂.bit b :=
  ⟨rfl, decode_ok_iff_agree rfl⟩

end Instruction

end PowerPC
