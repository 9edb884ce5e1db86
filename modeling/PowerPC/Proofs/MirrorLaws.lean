import PowerPC.Proofs.CallLaws
import PowerPC.Proofs.HostLaws
import PowerPC.Proofs.RearrangementLaws
import PowerPC.Proofs.TransferLaws

/-!
# Layout independence

Machines whose memories hold the same bytes at the same places go through every history in step:
how their regions are listed does not matter. A machine with further regions keeps in step as long
as nothing fails, and never touches them.
-/

namespace PowerPC

variable {strict : Prop} {R R' : List Region} {rest : Cell → Byte}

-- ---------------------------------------------------------------------------
-- Outcomes
-- ---------------------------------------------------------------------------

/-- The second outcome is that of the first. A fault need be the same only if `strict` holds. -/
def Agrees (strict : Prop) (Rel : σ → σ → Prop) (o o' : Except ε α × σ) : Prop :=
  (strict ∨ ∃ a, o.1 = .ok a) → o'.1 = o.1 ∧ Rel o.2 o'.2

def AgreesAtEnd (strict : Prop) (Rel : σ → σ → Prop) (x x' : Option (Except ε α × σ)) : Prop :=
  (strict ∨ ∀ o ∈ x, ∃ a, o.1 = .ok a) → Option.Rel (fun o o' => o'.1 = o.1 ∧ Rel o.2 o'.2) x x'

theorem strict_of_error {f : ε} (hok : strict ∨ ∃ a : α, Except.error f = .ok a) : strict := by
  simpa using hok

theorem option_rel_imp {P Q : α → β → Prop} {x : Option α} {y : Option β} (h : Option.Rel P x y)
    (himp : ∀ a b, P a b → Q a b) : Option.Rel Q x y := by
  cases h with
  | none => exact .none
  | some hab => exact .some (himp _ _ hab)

theorem Agrees.exists_eq {Rel : σ → σ → Prop} {result : Except ε α} {t : σ}
    {o' : Except ε α × σ} (h : Agrees strict Rel (result, t) o')
    (hok : strict ∨ ∃ a, result = .ok a) : ∃ t', o' = (result, t') ∧ Rel t t' := by
  obtain ⟨result', t'⟩ := o'
  obtain ⟨rfl, ht⟩ := h hok
  exact ⟨t', rfl, ht⟩

theorem AgreesAtEnd.of_error {Rel : σ → σ → Prop} {f : ε} {t : σ}
    {x' : Option (Except ε α × σ)}
    (h : strict → ∃ t', x' = some (.error f, t') ∧ Rel t t') :
    AgreesAtEnd strict Rel (some (.error f, t)) x' := by
  intro hok
  have hstrict : strict := by
    refine hok.resolve_right fun hall => ?_
    obtain ⟨a, ha⟩ := hall _ rfl
    cases ha
  obtain ⟨t', rfl, ht⟩ := h hstrict
  exact .some ⟨rfl, ht⟩

theorem AgreesAtEnd.eq_none {Rel : σ → σ → Prop} {x' : Option (Except ε α × σ)}
    (h : AgreesAtEnd strict Rel none x') : x' = none := by
  have hrel := h (.inr fun o ho => by cases ho)
  cases hrel
  rfl

theorem AgreesAtEnd.exists_eq {Rel : σ → σ → Prop} {result : Except ε α} {t : σ}
    {x' : Option (Except ε α × σ)} (h : AgreesAtEnd strict Rel (some (result, t)) x')
    (hok : strict ∨ ∃ a, result = .ok a) : ∃ t', x' = some (result, t') ∧ Rel t t' := by
  have hrel := h (hok.imp_right fun ha o ho => by cases ho; exact ha)
  cases hrel with
  | some heq =>
    obtain ⟨rfl, ht⟩ := heq
    exact ⟨_, rfl, ht⟩

theorem AgreesAtEnd.map {Rel : σ → σ → Prop} {x x' : Option (Except ε α × σ)}
    (h : AgreesAtEnd strict Rel x x') (g : α → β) :
    AgreesAtEnd strict Rel (x.map fun (result, t) => (result.map g, t))
      (x'.map fun (result, t) => (result.map g, t)) := by
  intro hok
  have hrel := h (hok.imp_right fun hall o ho => ?_)
  · cases hrel with
    | none => exact .none
    | some heq => exact .some ⟨congrArg (Except.map g) heq.1, heq.2⟩
  · obtain ⟨b, hb⟩ := hall _ (Option.mem_map_of_mem _ ho)
    obtain ⟨a, ha, -⟩ := map_ok.mp hb
    exact ⟨a, ha⟩

theorem Agrees.atEnd {Rel : σ → σ → Prop} {o o' : Except ε α × σ} (h : Agrees strict Rel o o') :
    AgreesAtEnd strict Rel (some o) (some o') :=
  fun hok => .some (h (hok.imp_right fun hall => hall o rfl))

-- ---------------------------------------------------------------------------
-- Memories
-- ---------------------------------------------------------------------------

/-- Every region of the first list is in the second, and if `strict` holds also the reverse. -/
structure Carries (strict : Prop) (R R' : List Region) : Prop where
  embeds : Embeds R R'
  back : strict → Embeds R' R

namespace Memory.Mirrors

variable {m m' : Memory} {a : Word} {n : Nat} {bytes : List Byte}

theorem read_eq (h : Mirrors R R' rest m m') (hR : Carries strict R R')
    (hok : strict ∨ ∃ bytes, m.read a n = .ok bytes) : m'.read a n = m.read a n := by
  cases hread : m.read a n with
  | ok bytes => exact h.read_ok hR.embeds hread
  | error f =>
    have hstrict : strict := hok.resolve_right (by simp [hread])
    exact h.read_error (hR.back hstrict) hread

end Memory.Mirrors

-- ---------------------------------------------------------------------------
-- Actions
-- ---------------------------------------------------------------------------

structure State.Mirrors (R R' : List Region) (rest : Cell → Byte) (s s' : State) : Prop where
  registers : s'.registers = s.registers
  memory : s.memory.Mirrors R R' rest s'.memory

namespace Exec

def Follows (strict : Prop) (R R' : List Region) (rest : Cell → Byte) (x : Exec α) : Prop :=
  ∀ s s', State.Mirrors R R' rest s s' → Agrees strict (State.Mirrors R R' rest) (x s) (x s')

theorem pure_follows (a : α) : Follows strict R R' rest (pure a) := fun _ _ h _ => ⟨rfl, h⟩

theorem fault_follows (f : Fault) : Follows strict R R' rest (fault f : Exec α) :=
  fun _ _ h _ => ⟨rfl, h⟩

theorem registers_follows : Follows strict R R' rest registers := by
  intro s s' h _
  rw [registers_run, registers_run, h.registers]
  exact ⟨rfl, h⟩

theorem modifyRegisters_follows (g : Registers → Registers) :
    Follows strict R R' rest (modifyRegisters g) := by
  intro s s' h _
  rw [modifyRegisters_run, modifyRegisters_run, h.registers]
  exact ⟨rfl, rfl, h.memory⟩

theorem Follows.bind {x : Exec α} {g : α → Exec β} (hx : Follows strict R R' rest x)
    (hg : ∀ a, Follows strict R R' rest (g a)) : Follows strict R R' rest (x >>= g) := by
  intro s s' h hok
  have hfirst := hx s s' h
  rw [bind_run] at hok ⊢
  rw [bind_run]
  cases hs : x s with
  | mk result t =>
  rw [hs] at hfirst hok
  cases result with
  | ok a =>
    obtain ⟨t', hs', ht⟩ := hfirst.exists_eq (.inr ⟨a, rfl⟩)
    rw [hs']
    exact hg a t t' ht hok
  | error f =>
    obtain ⟨t', hs', ht⟩ := hfirst.exists_eq (.inl (strict_of_error hok))
    rw [hs']
    exact ⟨rfl, ht⟩

theorem readMemory_follows (hR : Carries strict R R') (a : Word) (n : Nat) :
    Follows strict R R' rest (readMemory a n) := by
  intro s s' h hok
  rw [readMemory_run] at hok
  have hread : s'.memory.read a n = s.memory.read a n := by
    refine h.memory.read_eq hR (hok.imp_right fun ⟨bytes, hbytes⟩ => ?_)
    split at hbytes
    · exact ⟨_, ‹_›⟩
    · cases hbytes
  rw [readMemory_run, readMemory_run, hread]
  cases s.memory.read a n with
  | ok bytes => exact ⟨rfl, h⟩
  | error f => exact ⟨rfl, h⟩

theorem writeMemory_follows (hR : Carries strict R R') (a : Word) (bytes : List Byte) :
    Follows strict R R' rest (writeMemory a bytes) := by
  intro s s' h hok
  rw [writeMemory_run] at hok ⊢
  rw [writeMemory_run]
  cases hwrite : s.memory.write a bytes with
  | ok t =>
    obtain ⟨t', hwrite', ht⟩ := h.memory.write_ok hR.embeds hwrite
    rw [hwrite']
    exact ⟨rfl, h.registers, ht⟩
  | error f =>
    rw [hwrite] at hok
    have hstrict : strict := strict_of_error hok
    rw [h.memory.write_error (hR.back hstrict) hwrite]
    exact ⟨rfl, h⟩

theorem updateBase_follows (update : Bool) (ea : Addressing) (a : Word) :
    Follows strict R R' rest (updateBase update ea a) := by
  rw [updateBase]
  split
  · exact modifyRegisters_follows _
  · exact pure_follows ()

theorem execute_follows (hR : Carries strict R R') (i : Instruction) :
    Follows strict R R' rest i.execute := by
  cases i with
  | arithmetic op rt ra rb oe rc =>
    rw [Instruction.execute]
    split
    · exact fault_follows _
    · exact modifyRegisters_follows _
  | load kind rt ea update =>
    refine registers_follows.bind fun r => (readMemory_follows hR _ _).bind fun bytes => ?_
    exact (modifyRegisters_follows _).bind fun _ => updateBase_follows update ea _
  | store kind rs ea update =>
    refine registers_follows.bind fun r => (writeMemory_follows hR _ _).bind fun _ => ?_
    exact updateBase_follows update ea _
  | loadMultiple rt ra d =>
    refine registers_follows.bind fun r => (readMemory_follows hR _ _).bind fun bytes => ?_
    exact modifyRegisters_follows _
  | storeMultiple rs ra d => exact registers_follows.bind fun r => writeMemory_follows hR _ _
  | sync | isync => exact pure_follows ()
  | _ => exact modifyRegisters_follows _

end Exec

-- ---------------------------------------------------------------------------
-- Steps
-- ---------------------------------------------------------------------------

namespace Machine

/-- Machines in mirrored states, with the same sentinel and both asked to stop or neither. -/
structure Mirrors (R R' : List Region) (rest : Cell → Byte) (m m' : Machine) : Prop where
  state : State.Mirrors R R' rest m.toState m'.toState
  sentinel : m'.sentinel = m.sentinel
  stop : m'.stop = m.stop

variable {m m' : Machine}

section Fetch

variable {s s' : State}

theorem fetch_eq (hR : Carries strict R R') (h : State.Mirrors R R' rest s s')
    (hok : strict ∨ ∃ w, fetch s = .ok w) : fetch s' = fetch s := by
  unfold fetch at hok ⊢
  rw [h.registers]
  dsimp only at hok ⊢
  split
  · rfl
  · rename_i hpc
    rw [if_neg hpc] at hok
    have hread : s'.memory.read s.registers.pc 4 = s.memory.read s.registers.pc 4 := by
      refine h.memory.read_eq hR (hok.imp_right fun ⟨w, hw⟩ => ?_)
      split at hw
      · rename_i hread
        obtain ⟨bytes, hbytes, -⟩ := map_ok.mp hread
        exact ⟨bytes, hbytes⟩
      · cases hw
    rw [Memory.read32, hread, Memory.read32]

theorem fetchInstruction_eq (hR : Carries strict R R') (h : State.Mirrors R R' rest s s')
    (hok : strict ∨ ∃ i, fetchInstruction s = .ok i) :
    fetchInstruction s' = fetchInstruction s := by
  rw [fetchInstruction_run] at hok ⊢
  rw [fetchInstruction_run, fetch_eq hR h]
  refine hok.imp_right fun ⟨i, hi⟩ => ?_
  split at hi
  · exact ⟨_, ‹_›⟩
  · cases hi

end Fetch

theorem step_agrees (hR : Carries strict R R') (h : Mirrors R R' rest m m') :
    Agrees strict (Mirrors R R' rest) (step m) (step m') := by
  intro hok
  have hadvance : State.Mirrors R R' rest (advance m.toState) (advance m'.toState) := by
    refine ⟨?_, h.state.memory⟩
    rw [advance, advance, setPc, setPc, h.state.registers]
  have hfetch := fetchInstruction_eq hR h.state
  -- Whether the first machine cannot fetch, fails in the instruction or gets past it, so does the
  -- second.
  rcases step_cases m with ⟨f, hi, hm⟩ | ⟨i, f, hi, hx, hm⟩ | ⟨i, s, hi, hx, hm⟩
  · rw [hm] at hok ⊢
    rw [hi] at hfetch
    rw [step_of_fetch_error (hfetch (.inl (strict_of_error hok)))]
    exact ⟨rfl, h⟩
  · rw [hm] at hok ⊢
    have hstrict : strict := strict_of_error hok
    have hsame := (Exec.execute_follows hR i _ _ hadvance (.inl hstrict)).1
    rw [step_of_execute_error ((hfetch (.inl hstrict)).trans hi) (hsame.trans hx)]
    exact ⟨rfl, h⟩
  · have hfollow := Exec.execute_follows hR i _ _ hadvance
    rw [hx] at hfollow
    obtain ⟨s', hx', hs⟩ := hfollow.exists_eq (.inr ⟨(), rfl⟩)
    rw [hm, step_of_execute_ok ((hfetch (.inr ⟨i, hi⟩)).trans hi) hx']
    exact ⟨rfl, hs, h.sentinel, h.stop⟩

-- ---------------------------------------------------------------------------
-- Runs
-- ---------------------------------------------------------------------------

theorem Mirrors.resume (h : Mirrors R R' rest m m') :
    Mirrors R R' rest { m with stop := false } { m' with stop := false } :=
  ⟨h.state, h.sentinel, rfl⟩

theorem Mirrors.step_eq (h : Mirrors R R' rest m m') (hR : Carries strict R R')
    {result : Except Fault Instruction} {t : Machine} (hstep : step m = (result, t))
    (hok : strict ∨ ∃ i, result = .ok i) :
    ∃ t', step m' = (result, t') ∧ Mirrors R R' rest t t' := by
  have hagrees := step_agrees hR h
  rw [hstep] at hagrees
  exact hagrees.exists_eq hok

theorem run_agrees (hR : Carries strict R R') (fuel : Nat) (h : Mirrors R R' rest m m') :
    AgreesAtEnd strict (Mirrors R R' rest) (run fuel m) (run fuel m') := by
  -- Along the run of the first machine, the second is a mirror at every step.
  fun_induction run fuel m generalizing m' with
  | case1 fuel m hstop =>
    rw [run_of_stop (h.stop.trans hstop)]
    exact fun _ => .some ⟨rfl, h.resume⟩
  | case2 m hstop =>
    rw [run_zero (h.stop.trans (eq_false_of_ne_true hstop))]
    exact fun _ => .none
  | case3 m hstop fuel i m₁ hstep ih =>
    obtain ⟨m₁', hstep', h₁⟩ := h.step_eq hR hstep (.inr ⟨i, rfl⟩)
    rw [run_of_ok (h.stop.trans (eq_false_of_ne_true hstop)) hstep']
    exact ih h₁
  | case4 m hstop fuel f m₁ hstep =>
    refine AgreesAtEnd.of_error fun hstrict => ?_
    obtain ⟨m₁', hstep', h₁⟩ := h.step_eq hR hstep (.inl hstrict)
    exact ⟨m₁', run_of_fault (h.stop.trans (eq_false_of_ne_true hstop)) hstep', h₁⟩

theorem runToSentinel_agrees (hR : Carries strict R R') (fuel : Nat)
    (h : Mirrors R R' rest m m') :
    AgreesAtEnd strict (Mirrors R R' rest) (runToSentinel fuel m) (runToSentinel fuel m') := by
  have hat {m m' : Machine} (h : Mirrors R R' rest m m') : m'.AtSentinel ↔ m.AtSentinel := by
    rw [AtSentinel, AtSentinel, h.state.registers, h.sentinel]
  fun_induction runToSentinel fuel m generalizing m' with
  | case1 fuel m hm =>
    rw [runToSentinel_of_atSentinel ((hat h).mpr hm)]
    exact fun _ => .some ⟨rfl, h⟩
  | case2 fuel m hm hstop =>
    rw [runToSentinel_of_stop (mt (hat h).mp hm) (h.stop.trans hstop)]
    exact fun _ => .some ⟨rfl, h.resume⟩
  | case3 m hm hstop =>
    rw [runToSentinel_zero (mt (hat h).mp hm) (h.stop.trans (eq_false_of_ne_true hstop))]
    exact fun _ => .none
  | case4 m hm hstop fuel i m₁ hstep ih =>
    obtain ⟨m₁', hstep', h₁⟩ := h.step_eq hR hstep (.inr ⟨i, rfl⟩)
    rw [runToSentinel_of_ok (mt (hat h).mp hm) (h.stop.trans (eq_false_of_ne_true hstop)) hstep']
    exact ih h₁
  | case5 m hm hstop fuel f m₁ hstep =>
    refine AgreesAtEnd.of_error fun hstrict => ?_
    obtain ⟨m₁', hstep', h₁⟩ := h.step_eq hR hstep (.inl hstrict)
    exact ⟨m₁', runToSentinel_of_fault (mt (hat h).mp hm)
      (h.stop.trans (eq_false_of_ne_true hstop)) hstep', h₁⟩

theorem runFor_go_agrees (hR : Carries strict R R') (n k : Nat) (h : Mirrors R R' rest m m') :
    Agrees strict (Mirrors R R' rest) (runFor.go n k m) (runFor.go n k m') := by
  induction n generalizing k m m' with
  | zero => exact fun _ => ⟨rfl, h⟩
  | succ n ih =>
    by_cases hstop : m.stop
    · rw [runFor_go_of_stop hstop, runFor_go_of_stop (h.stop.trans hstop)]
      exact fun _ => ⟨rfl, h.resume⟩
    · have hstop := eq_false_of_ne_true hstop
      have hstop' := h.stop.trans hstop
      cases hstep : step m with
      | mk result m₁ =>
        cases result with
        | ok i =>
          obtain ⟨m₁', hstep', h₁⟩ := h.step_eq hR hstep (.inr ⟨i, rfl⟩)
          rw [runFor_go_of_ok hstop hstep, runFor_go_of_ok hstop' hstep']
          exact ih (k + 1) h₁
        | error f =>
          rw [runFor_go_of_fault hstop hstep]
          intro hok
          obtain ⟨m₁', hstep', h₁⟩ := h.step_eq hR hstep (.inl (strict_of_error hok))
          rw [runFor_go_of_fault hstop' hstep']
          exact ⟨rfl, h₁⟩

-- ---------------------------------------------------------------------------
-- Calls
-- ---------------------------------------------------------------------------

theorem access_agrees {access access' : Except AccessFault α} (answer : α → Answer)
    (h : Mirrors R R' rest m m')
    (haccess : (strict ∨ ∃ value, access = .ok value) → access' = access) :
    AgreesAtEnd strict (Mirrors R R' rest) (some (Reply.ofAccess access answer, m))
      (some (Reply.ofAccess access' answer, m')) := by
  refine Agrees.atEnd fun hok => ⟨?_, h⟩
  rw [haccess (hok.imp_right fun ⟨_, ha⟩ => Reply.ofAccess_eq_ok ha)]

theorem read_agrees (hR : Carries strict R R') (h : Mirrors R R' rest m m') (a : Word) (n : Nat)
    (g : List Byte → β) :
    (strict ∨ ∃ value, (m.memory.read a n).map g = .ok value) →
      (m'.memory.read a n).map g = (m.memory.read a n).map g := by
  intro hok
  rw [h.state.memory.read_eq hR (hok.imp_right fun ⟨value, hvalue⟩ => ?_)]
  obtain ⟨bytes, hbytes, -⟩ := map_ok.mp hvalue
  exact ⟨bytes, hbytes⟩

theorem change_agrees (hR : Carries strict R R') (h : Mirrors R R' rest m m')
    (c : Memory.Change) :
    AgreesAtEnd strict (Mirrors R R' rest) (m.perform (.change c)) (m'.perform (.change c)) := by
  rw [perform, perform, Memory.after, Memory.after, Memory.change_eq_write, Memory.change_eq_write]
  cases hwrite : m.memory.write c.address c.bytes with
  | ok t =>
    obtain ⟨t', hwrite', ht⟩ := h.state.memory.write_ok hR.embeds hwrite
    rw [hwrite']
    exact fun _ => .some ⟨rfl, ⟨h.state.registers, ht⟩, h.sentinel, h.stop⟩
  | error f =>
    refine AgreesAtEnd.of_error fun hstrict => ?_
    rw [h.state.memory.write_error (hR.back hstrict) hwrite]
    exact ⟨m', rfl, h⟩

theorem perform_agrees (hR : Carries strict R R') (h : Mirrors R R' rest m m') (c : HostCall) :
    AgreesAtEnd strict (Mirrors R R' rest) (m.perform c) (m'.perform c) := by
  cases c with
  | step => exact (step_agrees hR h).atEnd.map Answer.executed
  | run fuel => exact (run_agrees hR fuel h).map fun _ => Answer.done
  | runFor n => exact (runFor_go_agrees hR n 0 h).atEnd.map Answer.count
  | runFunction fuel a =>
    have henter : Mirrors R R' rest (m.enter a) (m'.enter a) := by
      refine ⟨⟨?_, h.state.memory⟩, h.sentinel, h.stop⟩
      rw [enter, enter, h.state.registers, h.sentinel]
    exact (runToSentinel_agrees hR fuel henter).map fun _ => Answer.done
  | read a n => exact access_agrees _ h fun hok => h.state.memory.read_eq hR hok
  | read8 a | read16 a | read32 a => exact access_agrees _ h (read_agrees hR h a _ _)
  | change c => exact change_agrees hR h c
  | setRegisters r =>
    refine fun _ => .some ⟨rfl, ⟨?_, h.state.memory⟩, h.sentinel, h.stop⟩
    rw [h.state.registers]
  | setSentinel a => exact fun _ => .some ⟨rfl, h.state, rfl, h.stop⟩
  | requestStop => exact fun _ => .some ⟨rfl, h.state, h.sentinel, rfl⟩

theorem performAll_agrees (hR : Carries strict R R') (h : Mirrors R R' rest m m')
    (calls : List HostCall)
    (hok : strict ∨ ∀ reply ∈ (m.performAll calls).1, ∃ answer, reply = .ok answer) :
    (m'.performAll calls).1 = (m.performAll calls).1 ∧
      Option.Rel (Mirrors R R' rest) (m.performAll calls).2 (m'.performAll calls).2 := by
  induction calls generalizing m m' with
  | nil => exact ⟨rfl, .some h⟩
  | cons c cs ih =>
    have hfirst := perform_agrees hR h c
    rw [performAll] at hok ⊢
    rw [performAll]
    cases hc : m.perform c with
    | none =>
      rw [hc] at hfirst
      rw [hfirst.eq_none]
      exact ⟨rfl, .none⟩
    | some o =>
      obtain ⟨reply, t⟩ := o
      rw [hc] at hfirst hok
      have hreply := hok.imp_right fun hall => hall reply List.mem_cons_self
      have hlater := hok.imp_right fun hall reply hreply =>
        hall reply (List.mem_cons_of_mem _ hreply)
      obtain ⟨t', hc', ht⟩ := hfirst.exists_eq hreply
      obtain ⟨hreplies, hlast⟩ := ih ht hlater
      rw [hc']
      exact ⟨congrArg (List.cons reply) hreplies, hlast⟩

-- ---------------------------------------------------------------------------
-- Layouts
-- ---------------------------------------------------------------------------

/-- Machines over the two lists, with equal registers and sentinels, both asked to stop or neither,
and with equal contents of corresponding regions. -/
structure Alike (R R' : List Region) (m m' : Machine) : Prop where
  registers : m'.registers = m.registers
  sentinel : m'.sentinel = m.sentinel
  stop : m'.stop = m.stop
  memory : m.memory.SameContents R R' m'.memory

theorem Alike.mirrors (h : Alike R R' m m') : Mirrors R R' m'.memory.byte m m' :=
  ⟨⟨h.registers, h.memory, fun _ _ _ => rfl⟩, h.sentinel, h.stop⟩

theorem Mirrors.alike (h : Mirrors R R' rest m m') : Alike R R' m m' :=
  ⟨h.state.registers, h.sentinel, h.stop, h.state.memory.toSameContents⟩

/-- The regions of the list `R'` that stand in `extra` as well hold what they held. -/
def KeepsExtra (R' extra : List Region) (m t : Machine) : Prop :=
  ∀ j s, R'[j]? = some s → (∃ e ∈ extra, e.SamePlaces s) → ∀ offset,
    t.memory.byte ⟨j, offset⟩ = m.memory.byte ⟨j, offset⟩

theorem alike_ofMemory {memory memory' : Memory} (h : Memory.ofRegions R = .ok memory)
    (h' : Memory.ofRegions R' = .ok memory') : Alike R R' (ofMemory memory) (ofMemory memory') := by
  refine ⟨rfl, rfl, rfl, Memory.regions_ofRegions h, Memory.regions_ofRegions h', ?_⟩
  obtain ⟨l, -, rfl⟩ := map_ok.mp h
  obtain ⟨l', -, rfl⟩ := map_ok.mp h'
  intro i j r _ _ offset _
  simp [ofMemory, Memory.byte]

/-- A rearranged list is accepted, and which of the two lists a machine has is not seen in any
history. A list with further regions gives every history in which nothing fails, and leaves those
regions as they were. -/
theorem layout_independent (hR : ∃ memory, Memory.ofRegions R = .ok memory) :
    (∀ R', Rearranges R R' →
      (∃ memory, Memory.ofRegions R' = .ok memory) ∧
      ∀ m m', Alike R R' m m' → ∀ calls,
        (m'.performAll calls).1 = (m.performAll calls).1 ∧
          Option.Rel (Alike R R') (m.performAll calls).2 (m'.performAll calls).2) ∧
    ∀ extra R', Rearranges (R ++ extra) R' → (∃ memory, Memory.ofRegions R' = .ok memory) →
      ∀ m m', Alike R R' m m' → ∀ calls,
        (∀ reply ∈ (m.performAll calls).1, ∃ answer, reply = .ok answer) →
        (m'.performAll calls).1 = (m.performAll calls).1 ∧
          Option.Rel (fun t t' => Alike R R' t t' ∧ KeepsExtra R' extra m' t')
            (m.performAll calls).2 (m'.performAll calls).2 := by
  -- What stands in one list only makes the difference between a fault and an access, so with
  -- further regions faults are not compared.
  refine ⟨fun R' h => ⟨h.accepted hR, fun m m' hm calls => ?_⟩,
    fun extra R' h hR' m m' hm calls hcalls => ?_⟩
  · have hcarries : Carries True R R' := ⟨h.embeds, fun _ => h.symm.embeds⟩
    obtain ⟨hreplies, hlast⟩ := performAll_agrees hcarries hm.mirrors calls (.inl trivial)
    exact ⟨hreplies, option_rel_imp hlast fun _ _ => Mirrors.alike⟩
  · have hcarries : Carries False R R' := ⟨h.embeds.of_append, False.elim⟩
    obtain ⟨hreplies, hlast⟩ := performAll_agrees hcarries hm.mirrors calls (.inr hcalls)
    refine ⟨hreplies, option_rel_imp hlast fun t t' ht => ⟨ht.alike, ?_⟩⟩
    intro j s hs hextra offset
    exact ht.state.memory.rest j (fun i => not_corresponds_of_extra h hR' hs hextra) offset

/-- The regions of `Memory.touching` in the other order, the aliases of one exchanged. -/
def exchanged : List Region := [⟨0xFFFFF000, 0x80001000, 0x1000⟩, ⟨0x80000000, 0xC0000000, 0x1000⟩]

def further : Region := ⟨0x10000000, 0x20000000, 0x100⟩

/-- Call a function that stores r3 at the end of the address space and runs into the sentinel, and
look at the word through the other alias. There is no instruction at the sentinel. -/
def storingCalls : List HostCall :=
  [.change (.write32 0x80000000 0x90610000),
    .setRegisters ((({} : Registers).setGpr 1 0xFFFFFFFC).setGpr 3 0x01020304),
    .setSentinel 0x80000004, .runFunction 1 0x80000000, .read32 0x80001FFC]

theorem layout_independent_exchanged :
    ∃ m m' m'', Memory.ofRegions Memory.touching.regions = .ok m ∧
      Memory.ofRegions exchanged = .ok m' ∧ Memory.ofRegions (further :: exchanged) = .ok m'' ∧
      ((ofMemory m).performAll (storingCalls ++ [.step])).1[4]? = some (.ok (.word 0x01020304)) ∧
      ((ofMemory m).performAll (storingCalls ++ [.step])).1[5]? =
        some (.error (.unsupportedOpcode 0)) ∧
      ((ofMemory m').performAll (storingCalls ++ [.step])).1 =
        ((ofMemory m).performAll (storingCalls ++ [.step])).1 ∧
      ((ofMemory m'').performAll storingCalls).1 = ((ofMemory m).performAll storingCalls).1 := by
  have hR : Memory.ofRegions Memory.touching.regions = .ok { layout := Memory.touching } := rfl
  have hexchanged : Rearranges Memory.touching.regions exchanged :=
    ⟨_, .swap .., .cons (.inr rfl) (.cons (.inl rfl) .nil)⟩
  have hfurther : Rearranges (Memory.touching.regions ++ [further]) (further :: exchanged) :=
    ⟨further :: [⟨0x80001000, 0xFFFFF000, 0x1000⟩, ⟨0x80000000, 0xC0000000, 0x1000⟩], by decide,
      .cons (.inl rfl) (.cons (.inr rfl) (.cons (.inl rfl) .nil))⟩
  obtain ⟨hsame, hadded⟩ := layout_independent ⟨_, hR⟩
  obtain ⟨⟨m', hm'⟩, hcalls⟩ := hsame _ hexchanged
  have hm'' : Memory.ofRegions (further :: exchanged) = .ok _ := rfl
  refine ⟨_, m', _, hR, hm', hm'', rfl, rfl, (hcalls _ _ (alike_ofMemory hR hm') _).1, ?_⟩
  refine (hadded _ _ hfurther ⟨_, hm''⟩ _ _ (alike_ofMemory hR hm'') _ fun reply hreply => ?_).1
  have hreplies : ((ofMemory { layout := Memory.touching }).performAll storingCalls).1 =
    [.done, .done, .done, .done, .word 0x01020304].map .ok := rfl
  obtain ⟨answer, -, rfl⟩ := List.mem_map.mp (hreplies ▸ hreply)
  exact ⟨answer, rfl⟩

end Machine

end PowerPC
