import PowerPC.Execute.Instruction

/-!
# Faulting actions change nothing

An action is atomic if a fault leaves the state as it found it. Every instruction is: the actions
that can fault come first and only read, and what they let through cannot fault any more. The one
action that faults and writes, a memory write, finds its whole range before it writes a byte.
-/

namespace PowerPC.Exec

def ReadOnly (x : Exec α) : Prop := ∀ s, (x s).2 = s

def Total (x : Exec α) : Prop := ∀ s, ∃ a, (x s).1 = .ok a

/-- A fault leaves the state as it was. -/
def Atomic (x : Exec α) : Prop := ∀ s f, (x s).1 = .error f → (x s).2 = s

-- ---------------------------------------------------------------------------
-- The action monad
-- ---------------------------------------------------------------------------

theorem bind_run (x : Exec α) (g : α → Exec β) (s : State) :
    (x >>= g) s = match x s with
      | (.ok a, t) => g a t
      | (.error f, t) => (.error f, t) := by
  simp only [bind, ExceptT.bind, ExceptT.mk, StateT.bind, ExceptT.bindCont]
  cases x s with
  | mk result t => cases result <;> rfl

theorem ReadOnly.atomic {x : Exec α} (h : x.ReadOnly) : x.Atomic := fun s _ _ => h s

theorem Total.atomic {x : Exec α} (h : x.Total) : x.Atomic := by
  intro s f hf
  obtain ⟨a, ha⟩ := h s
  rw [ha] at hf
  cases hf

theorem Total.bind {x : Exec α} {g : α → Exec β} (hx : x.Total) (hg : ∀ a, (g a).Total) :
    Total (x >>= g) := by
  intro s
  obtain ⟨a, ha⟩ := hx s
  rw [bind_run]
  cases hs : x s with
  | mk result t =>
    rw [hs] at ha
    cases ha
    exact hg a t

theorem ReadOnly.bind {x : Exec α} {g : α → Exec β} (hx : x.ReadOnly)
    (hg : ∀ a, (g a).ReadOnly) : ReadOnly (x >>= g) := by
  intro s
  have hs := hx s
  rw [bind_run]
  cases hr : x s with
  | mk result t =>
    rw [hr] at hs
    cases hs
    cases result with
    | ok a => exact hg a _
    | error f => rfl

/-- What only reads may stand before an atomic action. -/
theorem Atomic.after {x : Exec α} {g : α → Exec β} (hx : x.ReadOnly)
    (hg : ∀ a, (g a).Atomic) : Atomic (x >>= g) := by
  intro s f hf
  have hs := hx s
  rw [bind_run] at hf ⊢
  cases hr : x s with
  | mk result t =>
    rw [hr] at hs hf
    cases hs
    cases result with
    | ok a => exact hg a _ f hf
    | error e => rfl

/-- What cannot fault may stand after an atomic action. -/
theorem Atomic.before {x : Exec α} {g : α → Exec β} (hx : x.Atomic)
    (hg : ∀ a, (g a).Total) : Atomic (x >>= g) := by
  intro s f hf
  rw [bind_run] at hf ⊢
  cases hr : x s with
  | mk result t =>
    cases result with
    | ok a =>
      obtain ⟨b, hb⟩ := hg a t
      rw [hr] at hf
      simp only [hb] at hf
      cases hf
    | error e =>
      have hs := hx s e (by rw [hr])
      rwa [hr] at hs

-- ---------------------------------------------------------------------------
-- The actions of an instruction
-- ---------------------------------------------------------------------------

theorem pure_total (a : α) : Total (pure a) := fun _ => ⟨a, rfl⟩

theorem fault_readOnly (f : Fault) : ReadOnly (fault f : Exec α) := fun _ => rfl

theorem registers_readOnly : ReadOnly registers := fun _ => rfl

theorem modifyRegisters_total (g : Registers → Registers) : Total (modifyRegisters g) :=
  fun _ => ⟨(), rfl⟩

theorem ofAccess_readOnly (access : Except AccessFault α) : ReadOnly (ofAccess access) := by
  intro s
  cases access <;> rfl

theorem readMemory_readOnly (a : Word) (length : Nat) : ReadOnly (readMemory a length) :=
  ReadOnly.bind (fun _ => rfl) fun _ => ofAccess_readOnly _

theorem writeMemory_atomic (a : Word) (bytes : List Byte) : Atomic (writeMemory a bytes) :=
  Atomic.after (fun _ => rfl) fun _ =>
    (ofAccess_readOnly _).atomic.before fun _ _ => ⟨(), rfl⟩

theorem updateBase_total (update : Bool) (ea : Addressing) (a : Word) :
    Total (updateBase update ea a) := by
  rw [updateBase]
  split
  · exact modifyRegisters_total _
  · exact pure_total ()

theorem load_atomic (kind : LoadKind) (rt : Gpr) (ea : Addressing) (update : Bool) :
    Atomic (load kind rt ea update) := by
  refine Atomic.after registers_readOnly fun r => ?_
  refine (readMemory_readOnly _ _).atomic.before fun bytes => ?_
  exact (modifyRegisters_total _).bind fun _ => updateBase_total update ea _

theorem store_atomic (kind : StoreKind) (rs : Gpr) (ea : Addressing) (update : Bool) :
    Atomic (store kind rs ea update) := by
  refine Atomic.after registers_readOnly fun r => ?_
  exact (writeMemory_atomic _ _).before fun _ => updateBase_total update ea _

theorem loadMultiple_atomic (rt ra : Gpr) (d : Word) : Atomic (loadMultiple rt ra d) := by
  refine Atomic.after registers_readOnly fun r => ?_
  exact (readMemory_readOnly _ _).atomic.before fun _ => modifyRegisters_total _

theorem storeMultiple_atomic (rs ra : Gpr) (d : Word) : Atomic (storeMultiple rs ra d) :=
  Atomic.after registers_readOnly fun _ => writeMemory_atomic _ _

theorem execute_atomic (i : Instruction) : Atomic i.execute := by
  cases i with
  | arithmetic op rt ra rb oe rc =>
    rw [Instruction.execute]
    split
    · exact (fault_readOnly _).atomic
    · exact (modifyRegisters_total _).atomic
  | load kind rt ea update => exact load_atomic kind rt ea update
  | store kind rs ea update => exact store_atomic kind rs ea update
  | loadMultiple rt ra d => exact loadMultiple_atomic rt ra d
  | storeMultiple rs ra d => exact storeMultiple_atomic rs ra d
  | sync | isync => exact (pure_total ()).atomic
  | _ => exact (modifyRegisters_total _).atomic

end PowerPC.Exec
