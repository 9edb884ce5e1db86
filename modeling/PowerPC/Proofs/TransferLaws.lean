import PowerPC.Proofs.ExecLaws
import PowerPC.Proofs.MemoryLaws

/-!
# What loads and stores do

One equation for each: the memory access at the effective address decides, and if it goes through,
the registers or the memory are changed as written on the right side; if not, its fault is raised
and nothing changes. The bytes stored are as many as the instruction's width says, so an access
faults exactly if that many do not fit.
-/

namespace PowerPC

def Registers.updated (r : Registers) (update : Bool) (ea : Addressing) (a : Word) : Registers :=
  if update then r.setGpr ea.base a else r

namespace Exec

theorem registers_run (s : State) : registers s = (.ok s.registers, s) := rfl

theorem modifyRegisters_run (f : Registers → Registers) (s : State) :
    modifyRegisters f s = (.ok (), { s with registers := f s.registers }) := rfl

theorem readMemory_run (a : Word) (length : Nat) (s : State) :
    readMemory a length s = match s.memory.read a length with
      | .ok bytes => (.ok bytes, s)
      | .error f => (.error (.memory f), s) := by
  have hrun : readMemory a length s = ofAccess (s.memory.read a length) s := rfl
  rw [hrun]
  cases s.memory.read a length <;> rfl

theorem writeMemory_run (a : Word) (bytes : List Byte) (s : State) :
    writeMemory a bytes s = match s.memory.write a bytes with
      | .ok memory => (.ok (), { s with memory })
      | .error f => (.error (.memory f), s) := by
  have hrun : writeMemory a bytes s =
      (ofAccess (s.memory.write a bytes) >>= fun memory =>
        modify fun s => { s with memory }) s := rfl
  rw [hrun, bind_run]
  cases s.memory.write a bytes <;> rfl

theorem updateBase_run (update : Bool) (ea : Addressing) (a : Word) (s : State) :
    updateBase update ea a s =
      (.ok (), { s with registers := s.registers.updated update ea a }) := by
  cases update <;> rfl

def afterAccess (access : Except AccessFault α) (s : State) (next : α → State) :
    Except Fault Unit × State :=
  match access with
  | .ok value => (.ok (), next value)
  | .error f => (.error (.memory f), s)

variable {access : Except AccessFault α} {next : α → State} {s t : State}

theorem afterAccess_ok_iff :
    afterAccess access s next = (.ok (), t) ↔ ∃ value, access = .ok value ∧ next value = t := by
  cases access with
  | ok value => simp [afterAccess]
  | error f => simp [afterAccess]

theorem afterAccess_memory_ok_iff {access : Except AccessFault Memory} {r : Registers} :
    afterAccess access s (fun memory => { registers := r, memory }) = (.ok (), t) ↔
      t.registers = r ∧ access = .ok t.memory := by
  rw [afterAccess_ok_iff]
  constructor
  · rintro ⟨memory, haccess, rfl⟩
    exact ⟨rfl, haccess⟩
  · rintro ⟨rfl, haccess⟩
    exact ⟨_, haccess, rfl⟩

theorem exists_afterAccess_ok_iff :
    (∃ t, afterAccess access s next = (.ok (), t)) ↔ ∃ value, access = .ok value := by
  simp only [afterAccess_ok_iff]
  constructor
  · rintro ⟨t, value, haccess, -⟩
    exact ⟨value, haccess⟩
  · rintro ⟨value, haccess⟩
    exact ⟨_, value, haccess, rfl⟩

theorem afterAccess_error_iff {fits : Prop} {g : AccessFault} {f : Fault}
    (h : ∀ g', access = .error g' ↔ ¬ fits ∧ g' = g) :
    afterAccess access s next = (.error f, t) ↔ ¬ fits ∧ f = .memory g ∧ t = s := by
  cases access with
  | ok value =>
    have hfit : fits := by simpa using h g
    simp [afterAccess, hfit]
  | error g' =>
    obtain ⟨hfit, rfl⟩ := (h g').mp rfl
    simp [afterAccess, hfit, eq_comm]

theorem load_run (kind : LoadKind) (rt : Gpr) (ea : Addressing) (update : Bool) (s : State) :
    load kind rt ea update s =
      afterAccess (s.memory.read (s.registers.effectiveAddress ea) kind.width) s fun bytes =>
        { s with
          registers := (s.registers.setGpr rt (kind.value bytes)).updated update ea
            (s.registers.effectiveAddress ea) } := by
  simp only [load, bind_run, registers_run, readMemory_run]
  cases s.memory.read (s.registers.effectiveAddress ea) kind.width with
  | ok bytes => simp only [modifyRegisters_run, updateBase_run, afterAccess]
  | error f => rfl

theorem store_run (kind : StoreKind) (rs : Gpr) (ea : Addressing) (update : Bool) (s : State) :
    store kind rs ea update s =
      afterAccess (s.memory.write (s.registers.effectiveAddress ea)
          (kind.bytes (s.registers.gpr rs))) s fun memory =>
        { registers := s.registers.updated update ea (s.registers.effectiveAddress ea)
          memory } := by
  simp only [store, bind_run, registers_run, writeMemory_run]
  cases s.memory.write (s.registers.effectiveAddress ea) (kind.bytes (s.registers.gpr rs)) with
  | ok memory => simp only [updateBase_run, afterAccess]
  | error f => rfl

theorem loadMultiple_run (rt ra : Gpr) (d : Word) (s : State) :
    loadMultiple rt ra d s =
      afterAccess (s.memory.read (s.registers.effectiveAddress (.displaced ra d))
          (4 * (32 - rt.val))) s fun bytes =>
        { s with registers := s.registers.loadWords rt.val bytes } := by
  simp only [loadMultiple, bind_run, registers_run, readMemory_run]
  cases s.memory.read (s.registers.effectiveAddress (.displaced ra d)) (4 * (32 - rt.val)) with
  | ok bytes => simp only [modifyRegisters_run, afterAccess]
  | error f => rfl

theorem storeMultiple_run (rs ra : Gpr) (d : Word) (s : State) :
    storeMultiple rs ra d s =
      afterAccess (s.memory.write (s.registers.effectiveAddress (.displaced ra d))
          (s.registers.wordsFrom rs)) s fun memory => { s with memory } := by
  simp only [storeMultiple, bind_run, registers_run, writeMemory_run]
  cases s.memory.write (s.registers.effectiveAddress (.displaced ra d))
      (s.registers.wordsFrom rs) with
  | ok memory => rfl
  | error f => rfl

end Exec

-- ---------------------------------------------------------------------------
-- Bytes stored and words loaded
-- ---------------------------------------------------------------------------

theorem StoreKind.length_bytes (kind : StoreKind) (w : Word) :
    (kind.bytes w).length = kind.width := by
  cases kind <;> simp [bytes, BigEndian.length_encode]

theorem Registers.length_wordsFrom (r : Registers) (first : Gpr) :
    (r.wordsFrom first).length = 4 * (32 - first.val) := by
  have hcount : ((List.finRange 32).filter (first ≤ ·)).length = 32 - first.val := by
    revert first
    decide
  simp only [wordsFrom, List.length_flatMap, BigEndian.length_encode, List.map_const',
    List.sum_replicate_nat, hcount, Nat.mul_comm]

/-- Nothing but general purpose registers is loaded. -/
theorem Registers.loadWords_eq (r : Registers) (first : Nat) (bytes : List Byte) :
    { r.loadWords first bytes with gprs := r.gprs } = r := by
  fun_induction Registers.loadWords r first bytes with
  | case1 r first a b c d rest hlt ih =>
    simpa [setGpr] using congrArg ({ · with gprs := r.gprs }) ih
  | case2 => rfl
  | case3 => rfl

-- ---------------------------------------------------------------------------
-- Faults
-- ---------------------------------------------------------------------------

namespace Exec

variable {s t : State} {r ra : Gpr} {d : Word} {ea : Addressing} {update : Bool} {f : Fault}

theorem load_error_iff {kind : LoadKind} : load kind r ea update s = (.error f, t) ↔
    ¬ Fits s.memory.layout.regions (s.registers.effectiveAddress ea) kind.width ∧
      f = .memory (.outOfBounds (s.registers.effectiveAddress ea) kind.width) ∧ t = s := by
  rw [load_run]
  exact afterAccess_error_iff fun _ => Memory.read_error_iff

theorem store_error_iff {kind : StoreKind} : store kind r ea update s = (.error f, t) ↔
    ¬ Fits s.memory.layout.regions (s.registers.effectiveAddress ea) kind.width ∧
      f = .memory (.outOfBounds (s.registers.effectiveAddress ea) kind.width) ∧ t = s := by
  rw [store_run, ← kind.length_bytes (s.registers.gpr r)]
  exact afterAccess_error_iff fun _ => Memory.write_error_iff

theorem loadMultiple_error_iff : loadMultiple r ra d s = (.error f, t) ↔
    ¬ Fits s.memory.layout.regions (s.registers.effectiveAddress (.displaced ra d))
        (4 * (32 - r.val)) ∧
      f = .memory (.outOfBounds (s.registers.effectiveAddress (.displaced ra d))
        (4 * (32 - r.val))) ∧ t = s := by
  rw [loadMultiple_run]
  exact afterAccess_error_iff fun _ => Memory.read_error_iff

theorem storeMultiple_error_iff : storeMultiple r ra d s = (.error f, t) ↔
    ¬ Fits s.memory.layout.regions (s.registers.effectiveAddress (.displaced ra d))
        (4 * (32 - r.val)) ∧
      f = .memory (.outOfBounds (s.registers.effectiveAddress (.displaced ra d))
        (4 * (32 - r.val))) ∧ t = s := by
  rw [storeMultiple_run, ← s.registers.length_wordsFrom r]
  exact afterAccess_error_iff fun _ => Memory.write_error_iff

end Exec

end PowerPC
