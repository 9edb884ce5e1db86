import PowerPC.Proofs.CallLaws
import PowerPC.Proofs.HostLaws

/-!
# Stop requests

A request to stop waits while nothing is run. The first run that would execute an instruction ends
at once instead, and from there on the machine is one that was never asked to stop.
-/

namespace PowerPC.Machine

-- ---------------------------------------------------------------------------
-- The flag
-- ---------------------------------------------------------------------------

def raise (m : Machine) : Machine := { m with stop := true }

def lower (m : Machine) : Machine := { m with stop := false }

variable {m m₁ t : Machine} {n fuel : Nat} {a : Word} {i : Instruction}

@[simp] theorem raise_stop (m : Machine) : m.raise.stop = true := rfl

@[simp] theorem raise_raise (m : Machine) : m.raise.raise = m.raise := rfl

theorem raise_eq (h : m.stop = true) : m.raise = m := by
  cases m
  cases h
  rfl

theorem step_raise (m : Machine) : step m.raise = ((step m).1, (step m).2.raise) := by
  rcases step_cases m with ⟨f, hi, hm⟩ | ⟨i, f, hi, hx, hm⟩ | ⟨i, s, hi, hx, hm⟩
  · rw [hm, step_of_fetch_error (m := m.raise) hi]
  · rw [hm, step_of_execute_error (m := m.raise) hi hx]
  · rw [hm, step_of_execute_ok (m := m.raise) hi hx]
    rfl

theorem step_stop (m : Machine) : (step m).2.stop = m.stop := by
  cases hstep : step m with
  | mk result t =>
    cases result with
    | ok i => exact (step_ok_settings hstep).2
    | error f => rw [step_error_machine hstep]

theorem execute_stop (i : Instruction) (m : Machine) : (execute i m).2.stop = m.stop := rfl

-- ---------------------------------------------------------------------------
-- Runs of a machine that is asked to stop
-- ---------------------------------------------------------------------------

theorem run_raise (m : Machine) : run fuel m.raise = some (.ok (), m.lower) :=
  run_of_stop (raise_stop m)

theorem runFor_raise (m : Machine) (hn : n ≠ 0) : runFor n m.raise = (.ok 0, m.lower) := by
  obtain ⟨k, rfl⟩ := Nat.exists_eq_succ_of_ne_zero hn
  exact runFor_go_of_stop (raise_stop m)

theorem runFunction_raise (m : Machine) (ha : a ≠ m.sentinel) :
    runFunction fuel a m.raise = some (.ok (), (m.enter a).lower) :=
  runToSentinel_of_stop (m := m.raise.enter a) ha rfl

theorem runFunction_sentinel (m : Machine) :
    runFunction fuel m.sentinel m = some (.ok (), m.enter m.sentinel) :=
  runToSentinel_of_atSentinel (m := m.enter m.sentinel) rfl

-- ---------------------------------------------------------------------------
-- Calls
-- ---------------------------------------------------------------------------

/-- The calls of a host, with those that set PC and that execute an instruction out of turn. -/
inductive Call where
  | host (c : HostCall)
  | setPc (a : Word)
  | execute (i : Instruction)
deriving Repr

def make (m : Machine) : Call → Option (Reply × Machine)
  | .host c => m.perform c
  | .setPc a => some (.ok .done, { m with toState := setPc m.toState a })
  | .execute i => some (.ofRun (execute i m).1, (execute i m).2)

def makeAll (m : Machine) : List Call → List Reply × Option Machine
  | [] => ([], some m)
  | c :: cs =>
    match m.make c with
    | some (reply, m) => (reply :: (m.makeAll cs).1, (m.makeAll cs).2)
    | none => ([], none)

theorem makeAll_cons {c : Call} {cs : List Call} {reply : Reply} (h : m.make c = some (reply, m₁)) :
    m.makeAll (c :: cs) = (reply :: (m₁.makeAll cs).1, (m₁.makeAll cs).2) := by
  rw [makeAll, h]

namespace Call

def requestStop : Call := .host .requestStop

/-- The call would execute an instruction before all else if nobody asked the machine to stop. -/
def Attempts (m : Machine) : Call → Prop
  | .host (.run _) => True
  | .host (.runFor n) => n ≠ 0
  | .host (.runFunction _ a) => a ≠ m.sentinel
  | _ => False

def stoppedReply : Call → Reply
  | .host (.runFor _) => .ok (.count 0)
  | _ => .ok .done

/-- What such a run leaves. A function has been entered. -/
def stopped (m : Machine) : Call → Machine
  | .host (.runFunction _ a) => (m.enter a).lower
  | _ => m.lower

variable {c : Call}

theorem stopped_stop (c : Call) : (c.stopped m).stop = false := by
  cases c with
  | host c => cases c <;> rfl
  | setPc a | execute i => rfl

theorem attempts_raise : c.Attempts m.raise ↔ c.Attempts m := by
  cases c with
  | host c => cases c <;> exact Iff.rfl
  | setPc a | execute i => exact Iff.rfl

theorem make_raise_of_attempts (h : c.Attempts m) :
    m.raise.make c = some (c.stoppedReply, c.stopped m) := by
  cases c with
  | host c =>
    cases c with
    | run fuel =>
      show (run fuel m.raise).map _ = _
      rw [run_raise]
      rfl
    | runFor n =>
      show some ((runFor n m.raise).1.map _, (runFor n m.raise).2) = _
      rw [runFor_raise m h]
      rfl
    | runFunction fuel a =>
      show (runFunction fuel a m.raise).map _ = _
      rw [runFunction_raise m h]
      rfl
    | _ => cases h
  | _ => cases h

/-- A call that attempts nothing has an end, and neither sees the flag nor lowers it. -/
theorem make_raise_of_not_attempts (h : ¬ c.Attempts m) :
    ∃ reply t, m.make c = some (reply, t) ∧ m.raise.make c = some (reply, t.raise) := by
  cases c with
  | host c =>
    cases c with
    | step =>
      refine ⟨_, _, rfl, ?_⟩
      show some ((step m.raise).1.map _, (step m.raise).2) = _
      rw [step_raise]
    | run fuel => exact absurd trivial h
    | runFor n =>
      obtain rfl : n = 0 := Decidable.not_not.mp h
      exact ⟨_, _, rfl, rfl⟩
    | runFunction fuel a =>
      obtain rfl : a = m.sentinel := Decidable.not_not.mp h
      refine ⟨.ok .done, m.enter m.sentinel, ?_, ?_⟩
      · show (runFunction fuel m.sentinel m).map _ = _
        rw [runFunction_sentinel]
        rfl
      · show (runFunction fuel m.raise.sentinel m.raise).map _ = _
        rw [runFunction_sentinel]
        rfl
    | _ => exact ⟨_, _, rfl, rfl⟩
  | setPc a | execute i => exact ⟨_, _, rfl, rfl⟩

end Call

-- ---------------------------------------------------------------------------
-- Histories
-- ---------------------------------------------------------------------------

open Call (requestStop)

/-- None of the calls attempts an instruction in its turn; these are their replies, and the machine
that they leave. -/
inductive Waits : List Call → Machine → List Reply → Machine → Prop
  | nil (m : Machine) : Waits [] m [] m
  | cons {c : Call} {cs : List Call} {m m₁ t : Machine} {reply : Reply} {replies : List Reply} :
      ¬ c.Attempts m → m.make c = some (reply, m₁) → Waits cs m₁ replies t →
      Waits (c :: cs) m (reply :: replies) t

variable {calls : List Call} {replies : List Reply}

theorem Waits.makeAll_append (h : Waits calls m replies t) (after : List Call) :
    m.makeAll (calls ++ after) = (replies ++ (t.makeAll after).1, (t.makeAll after).2) := by
  induction h with
  | nil m => rfl
  | cons _ hmake _ ih =>
    rw [List.cons_append, makeAll_cons hmake, ih]
    rfl

theorem Waits.raise (h : Waits calls m replies t) : Waits calls m.raise replies t.raise := by
  induction h with
  | nil m => exact .nil m.raise
  | @cons c cs m m₁ t reply replies hattempts hmake _ ih =>
    obtain ⟨reply', m₁', hmake', hraised⟩ := Call.make_raise_of_not_attempts hattempts
    -- Without the request the call has the one outcome that the history already has.
    rw [hmake] at hmake'
    cases hmake'
    exact .cons (mt Call.attempts_raise.mp hattempts) hraised ih

theorem waits_or_attempts (calls : List Call) (m : Machine) :
    (∃ replies t, Waits calls m replies t) ∨
      ∃ before d after replies t, calls = before ++ d :: after ∧ Waits before m replies t ∧
        Call.Attempts t d := by
  induction calls generalizing m with
  | nil => exact .inl ⟨[], m, .nil m⟩
  | cons c cs ih =>
    by_cases hattempts : c.Attempts m
    · exact .inr ⟨[], c, cs, [], m, rfl, .nil m, hattempts⟩
    · obtain ⟨reply, m₁, hmake, -⟩ := Call.make_raise_of_not_attempts hattempts
      rcases ih m₁ with ⟨replies, t, h⟩ | ⟨before, d, after, replies, t, rfl, h, hd⟩
      · exact .inl ⟨reply :: replies, t, .cons hattempts hmake h⟩
      · exact .inr ⟨c :: before, d, after, reply :: replies, t, rfl, .cons hattempts hmake h, hd⟩

theorem makeAll_requestStop (m : Machine) (calls : List Call) :
    m.makeAll (requestStop :: calls) =
      (.ok .done :: (m.raise.makeAll calls).1, (m.raise.makeAll calls).2) := rfl

theorem makeAll_replicate_requestStop (m : Machine) (k : Nat) (calls : List Call) :
    m.makeAll (List.replicate (k + 1) requestStop ++ calls) =
      (List.replicate k (.ok .done) ++ (m.makeAll (requestStop :: calls)).1,
        (m.makeAll (requestStop :: calls)).2) := by
  induction k generalizing m with
  | zero => rfl
  | succ k ih =>
    have honce : m.raise.makeAll (requestStop :: calls) = m.makeAll (requestStop :: calls) := by
      rw [makeAll_requestStop, makeAll_requestStop, raise_raise]
    rw [List.replicate_succ, List.cons_append, makeAll_requestStop, ih, honce]
    rfl

/-- A request to stop is seen by one run and by no other. It waits for the first run that would
execute an instruction, which ends at once and lowers the flag; requests made meanwhile are the same
request; and what is done afterwards starts from a machine that nobody asks to stop. -/
theorem stop_request_honoured_once (m : Machine) :
    (m.stop = true →
      (∀ fuel, run fuel m = some (.ok (), m.lower)) ∧
      (∀ n, n ≠ 0 → runFor n m = (.ok 0, m.lower)) ∧
      (∀ fuel a, a ≠ m.sentinel → runFunction fuel a m = some (.ok (), (m.enter a).lower)) ∧
      runFor 0 m = (.ok 0, m) ∧
      ∀ fuel, runFunction fuel m.sentinel m = some (.ok (), m.enter m.sentinel)) ∧
    (step m).2.stop = m.stop ∧ (∀ i, (execute i m).2.stop = m.stop) ∧
    (∀ calls,
      (∃ replies t, Waits calls m replies t ∧
        m.makeAll (requestStop :: calls) = (.ok .done :: replies, some t.raise)) ∨
      ∃ before d after replies t, calls = before ++ d :: after ∧ Waits before m replies t ∧
        d.Attempts t ∧ (d.stopped t).stop = false ∧
        m.makeAll (requestStop :: calls) =
          (.ok .done :: replies ++ d.stoppedReply :: ((d.stopped t).makeAll after).1,
            ((d.stopped t).makeAll after).2)) ∧
    ∀ k calls, m.makeAll (List.replicate (k + 1) requestStop ++ calls) =
      (List.replicate k (.ok .done) ++ (m.makeAll (requestStop :: calls)).1,
        (m.makeAll (requestStop :: calls)).2) := by
  refine ⟨fun hstop => ?_, step_stop m, fun i => execute_stop i m, fun calls => ?_,
    makeAll_replicate_requestStop m⟩
  · -- A machine with the flag up is the raised one of itself.
    rw [← raise_eq hstop]
    exact ⟨fun fuel => run_raise _, fun n hn => runFor_raise _ hn,
      fun fuel a ha => runFunction_raise _ ha, rfl, fun fuel => runFunction_sentinel _⟩
  · rcases waits_or_attempts calls m with
      ⟨replies, t, h⟩ | ⟨before, d, after, replies, t, rfl, h, hd⟩
    · refine .inl ⟨replies, t, h, ?_⟩
      rw [makeAll_requestStop, ← List.append_nil calls, h.raise.makeAll_append]
      simp [makeAll]
    · refine .inr ⟨before, d, after, replies, t, rfl, h, hd, d.stopped_stop, ?_⟩
      rw [makeAll_requestStop, h.raise.makeAll_append, makeAll_cons (d.make_raise_of_attempts hd)]
      rfl

/-- A faulting step, runs that execute nothing and a second request leave the request pending. The
run for four instructions uses it up, and the one after that goes on. -/
theorem stop_request_honoured_once_runningOut :
    let m := runningOut.raise
    let waiting : List Call :=
      [.host (.runFor 0), .setPc 0x80000008, .host .step, requestStop,
        .host (.runFunction 3 m.sentinel), .setPc 0x80000000]
    m.stop = true ∧ run 7 m = some (.ok (), m.lower) ∧ runFor 5 m = (.ok 0, m.lower) ∧
      runFunction 7 0x80000000 m = some (.ok (), (m.enter 0x80000000).lower) ∧
      runFor 0 m = (.ok 0, m) ∧
      (runningOut.makeAll (requestStop :: waiting ++ [.host (.runFor 4), .host (.runFor 2)])).1 =
        [.ok .done, .ok (.count 0), .ok .done, .error (.unsupportedOpcode 0), .ok .done, .ok .done,
          .ok .done, .ok (.count 0), .ok (.count 2)] := by
  obtain ⟨hraised, -⟩ := stop_request_honoured_once runningOut.raise
  obtain ⟨hrun, hfor, hfunction, hzero, -⟩ := hraised rfl
  exact ⟨rfl, hrun 7, hfor 5 (by decide), hfunction 7 _ (by decide), hzero, rfl⟩

end PowerPC.Machine
