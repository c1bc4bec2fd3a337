import LibIrcBot.Threads.StartHandoff

/-! # No start signal is lost

The worker waits for `start` without a predicate, so that a signal it does not wait for is lost.
Once it has taken `startlock` for the first time, it holds the mutex whenever it does not wait;
until then, `startThreadJob` may come first.
-/
namespace LibIrcBot.Handoff

variable {s : Handoff} {l : Label}

/-- A job is assigned and not executed, and the worker waits for a signal that nobody will send. -/
def Lost (s : Handoff) : Prop :=
  s.job.map (·.executed) = some false ∧ s.worker = .parked ∧ starting s.main = false

def Booted (s : Handoff) : Prop := s.worker ≠ .boot ∧ s.worker ≠ .lockStart

/-- `startThreadJob` locks `startlock` only after the worker has. -/
def BootsFirst (l : Label) (s : Handoff) : Prop := ∀ queued, l = .main queued → s.main = .lockStart → s.Booted

/-- The worker is in front of its wait, or parked. -/
inductive Rests : WorkerPc → Option Party → Prop where
  | wait : Rests .wait (some .worker)
  | parked : Rests .parked none

inductive Free : MainPc → Prop where
  | idle : Free .idle
  | lockStart : Free .lockStart

/-- The configurations that the two threads pass through. -/
inductive Phase : Handoff → Prop where
  -- The worker starts, or restarts after a failure.
  | boot {main : MainPc} (startlock : Option Party) (failed : Bool) : Free main → startlock ≠ some .main →
      Phase ⟨main,.boot,startlock,none,none,failed,0⟩
  | lockStart {main : MainPc} (startlock : Option Party) : Free main → startlock ≠ some .main →
      Phase ⟨main,.lockStart,startlock,none,none,false,0⟩
  | setup {main : MainPc} : Free main → Phase ⟨main,.setup,some .worker,none,none,false,0⟩
  | report {main : MainPc} : Free main → Phase ⟨main,.report,some .worker,none,none,true,0⟩
  | exited {main : MainPc} : Free main → Phase ⟨main,.exited,some .worker,none,none,true,1⟩
  | readFailed : Phase ⟨.read,.exited,some .worker,none,none,true,1⟩
  | checkFailed : Phase ⟨.checkFailed,.exited,some .worker,none,none,true,0⟩
  | restart : Phase ⟨.restart,.exited,some .worker,none,none,true,0⟩
  -- No job is assigned, and the worker waits for one.
  | rests {main : MainPc} {worker : WorkerPc} {startlock : Option Party} :
      Free main ∨ main = .dequeue ∨ main = .panicked → Rests worker startlock →
      Phase ⟨main,worker,startlock,none,none,false,0⟩
  | assign : Phase ⟨.assign,.parked,some .main,none,none,false,0⟩
  | signalStart : Phase ⟨.signalStart,.parked,some .main,none,some ⟨false,false⟩,false,0⟩
  | lockDone : Phase ⟨.lockDone,.woken,some .main,none,some ⟨false,false⟩,false,0⟩
  | unlockStart : Phase ⟨.unlockStart,.woken,some .main,some .main,some ⟨false,false⟩,false,0⟩
  -- The worker executes the job.
  | woken : Phase ⟨.idle,.woken,none,some .main,some ⟨false,false⟩,false,0⟩
  | run : Phase ⟨.idle,.run,some .worker,some .main,some ⟨false,false⟩,false,0⟩
  | write (panicmsg : Bool) : Phase ⟨.idle,.write,some .worker,some .main,some ⟨true,panicmsg⟩,false,0⟩
  | written (panicmsg : Bool) : Phase ⟨.idle,.lockDone,some .worker,some .main,some ⟨true,panicmsg⟩,false,1⟩
  -- The main thread waits for `done`.
  | read (panicmsg : Bool) : Phase ⟨.read,.lockDone,some .worker,some .main,some ⟨true,panicmsg⟩,false,1⟩
  | checkDone (panicmsg : Bool) : Phase ⟨.checkFailed,.lockDone,some .worker,some .main,some ⟨true,panicmsg⟩,false,0⟩
  | waitDone (panicmsg : Bool) : Phase ⟨.waitDone,.lockDone,some .worker,some .main,some ⟨true,panicmsg⟩,false,0⟩
  | parked (panicmsg : Bool) : Phase ⟨.parked,.lockDone,some .worker,none,some ⟨true,panicmsg⟩,false,0⟩
  | signalDone (panicmsg : Bool) : Phase ⟨.parked,.signalDone,some .worker,some .worker,some ⟨true,panicmsg⟩,false,0⟩
  | unlockWorker (panicmsg : Bool) : Phase ⟨.woken,.unlockDone,some .worker,some .worker,some ⟨true,panicmsg⟩,false,0⟩
  | signalled {worker : WorkerPc} {startlock : Option Party} (panicmsg : Bool) : Rests worker startlock →
      Phase ⟨.woken,worker,startlock,none,some ⟨true,panicmsg⟩,false,0⟩
  -- The main thread takes the job back.
  | finish {worker : WorkerPc} {startlock : Option Party} (panicmsg : Bool) : Rests worker startlock →
      Phase ⟨.finish,worker,startlock,some .main,some ⟨true,panicmsg⟩,false,0⟩
  | clear {worker : WorkerPc} {startlock : Option Party} (panic panicmsg : Bool) : Rests worker startlock →
      Phase ⟨.clear panic,worker,startlock,some .main,some ⟨true,panicmsg⟩,false,0⟩
  | unlockMain {worker : WorkerPc} {startlock : Option Party} (panic : Bool) : Rests worker startlock →
      Phase ⟨.unlockDone panic,worker,startlock,some .main,none,false,0⟩

namespace Phase

theorem not_lost (h : Phase s) : ¬s.Lost := by
  rintro ⟨hjob,hworker,hmain⟩
  cases h <;> simp_all [starting]

theorem stepMain {queued : Bool} {t : Handoff} (h : Phase s) (hboot : s.main = .lockStart → s.Booted)
    (he : s.stepMain queued = .ok t) : Phase t := by
  cases h with
  | boot startlock failed hmain hstart =>
    cases hmain with
    | idle => cases he
    | lockStart => exact absurd rfl (hboot rfl).1
  | lockStart startlock hmain hstart =>
    cases hmain with
    | idle => cases he
    | lockStart => exact absurd rfl (hboot rfl).2
  | setup hmain => cases hmain <;> cases he
  | report hmain => cases hmain <;> cases he
  | exited hmain => cases hmain <;> cases he
  | readFailed =>
    cases he
    exact .checkFailed
  | checkFailed =>
    cases he
    exact .restart
  | restart =>
    cases he
    exact .boot _ _ .idle nofun
  | rests hmain hrests =>
    rcases hmain with hmain | rfl | rfl
    · cases hmain with
      | idle => cases he
      | lockStart =>
        -- The mutex is free only while the worker is parked.
        cases hrests with
        | wait => cases he
        | parked =>
          cases he
          exact .assign
    · cases queued <;> cases he
      · exact .rests (.inl .idle) hrests
      · exact .rests (.inl .lockStart) hrests
    · cases he
  | assign =>
    cases he
    exact .signalStart
  | signalStart =>
    cases he
    exact .lockDone
  | lockDone =>
    cases he
    exact .unlockStart
  | unlockStart =>
    cases he
    exact .woken
  | woken => cases he
  | run => cases he
  | write panicmsg => cases he
  | written panicmsg => cases he
  | read panicmsg =>
    cases he
    exact .checkDone panicmsg
  | checkDone panicmsg =>
    cases he
    exact .waitDone panicmsg
  | waitDone panicmsg =>
    cases he
    exact .parked panicmsg
  | parked panicmsg => cases he
  | signalDone panicmsg => cases he
  | unlockWorker panicmsg => cases he
  | signalled panicmsg hrests =>
    cases he
    exact .finish panicmsg hrests
  | finish panicmsg hrests =>
    cases he
    exact .clear panicmsg panicmsg hrests
  | clear panic panicmsg hrests =>
    cases he
    exact .unlockMain panic hrests
  | unlockMain panic hrests =>
    cases panic <;> cases he
    · exact .rests (.inr (.inl rfl)) hrests
    · exact .rests (.inr (.inr rfl)) hrests

/-- A worker in front of its wait parks, and a parked one does nothing. -/
theorem rest_step {main : MainPc} {worker : WorkerPc} {startlock donelock : Option Party} {job : Option AssignedJob}
    {fault : Bool} {t : Handoff} (hrests : Rests worker startlock)
    (he : stepWorker ⟨main,worker,startlock,donelock,job,false,0⟩ fault = .ok t) :
    t = ⟨main,.parked,none,donelock,job,false,0⟩ := by
  cases hrests <;> cases he
  rfl

theorem stepWorker {fault : Bool} {t : Handoff} (h : Phase s) (he : s.stepWorker fault = .ok t) : Phase t := by
  cases h with
  | boot startlock failed hmain hstart =>
    cases he
    exact .lockStart startlock hmain hstart
  | lockStart startlock hmain hstart =>
    cases startlock with
    | none =>
      cases he
      exact .setup hmain
    | some owner => cases he
  | setup hmain =>
    cases fault <;> cases he
    · exact .rests (.inl hmain) .wait
    · exact .report hmain
  | report hmain =>
    cases he
    exact .exited hmain
  | exited hmain => cases he
  | readFailed => cases he
  | checkFailed => cases he
  | restart => cases he
  | rests hmain hrests =>
    rw [rest_step hrests he]
    exact .rests hmain .parked
  | assign => cases he
  | signalStart => cases he
  | lockDone => cases he
  | unlockStart => cases he
  | woken =>
    cases he
    exact .run
  | run =>
    cases he
    exact .write fault
  | write panicmsg =>
    cases he
    exact .written panicmsg
  | written panicmsg => cases he
  | read panicmsg => cases he
  | checkDone panicmsg => cases he
  | waitDone panicmsg => cases he
  | parked panicmsg =>
    cases he
    exact .signalDone panicmsg
  | signalDone panicmsg =>
    cases he
    exact .unlockWorker panicmsg
  | unlockWorker panicmsg =>
    cases he
    exact .signalled panicmsg .wait
  | signalled panicmsg hrests =>
    rw [rest_step hrests he]
    exact .signalled panicmsg .parked
  | finish panicmsg hrests =>
    rw [rest_step hrests he]
    exact .finish panicmsg .parked
  | clear panic panicmsg hrests =>
    rw [rest_step hrests he]
    exact .clear panic panicmsg .parked
  | unlockMain panic hrests =>
    rw [rest_step hrests he]
    exact .unlockMain panic .parked

/-- The main thread is given work only while no job is assigned. -/
theorem enqueue (h : Phase s) (hmain : s.main = .idle) (hjob : s.job = none) : Phase { s with main := .lockStart } := by
  cases h with
  | boot startlock failed _ hstart => exact .boot startlock failed .lockStart hstart
  | lockStart startlock _ hstart => exact .lockStart startlock .lockStart hstart
  | setup _ => exact .setup .lockStart
  | report _ => exact .report .lockStart
  | exited _ => exact .exited .lockStart
  | rests _ hrests => exact .rests (.inl .lockStart) hrests
  | woken | run | write | written => cases hjob
  | _ => cases hmain

theorem ready (h : Phase s) (hmain : s.main = .idle) (hpipe : 0 < s.pipe) : Phase { s with main := .read } := by
  cases h with
  | exited _ => exact .readFailed
  | written panicmsg => exact .read panicmsg
  | boot | lockStart | setup | report | rests | woken | run | write => exact absurd hpipe (Nat.lt_irrefl 0)
  | _ => cases hmain

theorem step {t : Handoff} (h : Phase s) (hboot : BootsFirst l s) (he : Handoff.step l s = .ok t) : Phase t := by
  cases l with
  | enqueue =>
    by_cases hc : s.main = .idle ∧ s.job = none
    · simp only [Handoff.step,if_pos hc,Except.ok.injEq] at he
      exact he ▸ h.enqueue hc.1 hc.2
    · simp [Handoff.step,if_neg hc] at he
  | ready =>
    by_cases hc : s.main = .idle ∧ 0 < s.pipe
    · simp only [Handoff.step,if_pos hc,Except.ok.injEq] at he
      exact he ▸ h.ready hc.1 hc.2
    · simp [Handoff.step,if_neg hc] at he
  | main queued => exact h.stepMain (hboot queued rfl) he
  | worker fault => exact h.stepWorker he

end Phase

/-- In every run in which `startThreadJob` locks `startlock` only after the worker has, no start
signal is lost. -/
theorem no_start_lost (h : s.Reached BootsFirst) : ¬s.Lost := by
  refine Phase.not_lost (h.invariant (fun t ht => ?_) fun l t u ht hboot he => ht.step hboot he)
  rw [ht]
  exact .boot none false .idle nofun

/-- The worker waits before the job is assigned, and the signal wakes it. -/
theorem no_start_lost_handed : ∃ s : Handoff, s.Reached BootsFirst ∧ s.job.map (·.executed) = some false ∧ ¬s.Lost := by
  have hboots : Reached BootsFirst ⟨.lockStart,.parked,none,none,none,false,0⟩ :=
    .next (.next (.next (.next (.next (.start rfl) (l := .worker false) nofun rfl) (l := .worker false) nofun rfl)
      (l := .worker false) nofun rfl) (l := .worker false) nofun rfl) (l := .enqueue) nofun rfl
  have hrun : Reached BootsFirst ⟨.lockDone,.woken,some .main,none,some ⟨false,false⟩,false,0⟩ :=
    .next (.next (.next hboots (l := .main false) (fun _ _ _ => ⟨nofun,nofun⟩) rfl) (l := .main false) nofun rfl)
      (l := .main false) nofun rfl
  exact ⟨_,hrun,rfl,no_start_lost hrun⟩

/-- The main thread hands over a job before the worker has taken `startlock`, and its signal is
without effect. -/
theorem first_start_lost : ¬ ∀ s : Handoff, s.Reached (fun _ _ => True) → ¬s.Lost := by
  intro hall
  have hrun : Reached (fun _ _ => True) ⟨.idle,.parked,none,some .main,some ⟨false,false⟩,false,0⟩ := by
    have hfold : ([.enqueue,.main false,.main false,.main false,.main false,.main false,.worker false,.worker false,
        .worker false,.worker false] : List Label).foldlM (fun s l => step l s) init =
        .ok ⟨.idle,.parked,none,some .main,some ⟨false,false⟩,false,0⟩ := rfl
    exact (Transitions.Run.ofFold (fun _ _ _ => trivial) hfold).reaches (.start rfl)
  exact hall _ hrun ⟨rfl,rfl,rfl⟩

end LibIrcBot.Handoff
