import LibIrcBot.Foundations.Transitions

/-! # The hand-over of a job to a worker

`startThreadJob`, `threadJobDone` and `worker` of `threadpool.c`, one atomic step after the
other, for the main thread and one worker. Each thread has a place in its code; a mutex knows
its owner; a thread that waits for a condition is parked, until a signal wakes it and it takes
the mutex again. Nothing else wakes a parked thread. `stopThreads` is left out, so that
`stoprq` stays 0.
-/
namespace LibIrcBot

inductive Party where
  | main | worker
deriving DecidableEq, Repr

inductive MainPc where
  /-- In the service loop, outside of the three functions. -/
  | idle
  -- startThreadJob
  | lockStart | assign | signalStart | lockDone | unlockStart
  -- threadJobDone
  | read | checkFailed | restart | waitDone | parked | woken | finish | clear (panic : Bool)
  | unlockDone (panic : Bool) | dequeue
  /-- `Service_panic` does not return. -/
  | panicked
deriving DecidableEq, Repr

inductive WorkerPc where
  | boot | lockStart | setup | report | exited
  | wait | parked | woken | run | write | lockDone | signalDone | unlockDone
deriving DecidableEq, Repr

/-- What matters of the job that is assigned to the worker. -/
structure AssignedJob where
  /-- Whether its procedure was executed. -/
  executed : Bool
  panicmsg : Bool
deriving DecidableEq, Repr

/-- A `Thread` with the places of both threads. -/
structure Handoff where
  main : MainPc
  worker : WorkerPc
  startlock : Option Party
  donelock : Option Party
  job : Option AssignedJob
  failed : Bool
  /-- The number of bytes in the pipe. -/
  pipe : ℕ
deriving DecidableEq, Repr

namespace Handoff

inductive Stop where
  /-- It is waiting. -/
  | blocked
  /-- It would dereference a null pointer. -/
  | crash
deriving DecidableEq, Repr

variable (self : Handoff)

/-- A step of the main thread. After a job, `queued` says whether the queue has another one. -/
def stepMain (queued : Bool) : Except Stop Handoff :=
  match self.main with
  | .idle => .error .blocked
  | .lockStart =>
    if self.startlock = none then .ok { self with startlock := some .main, main := .assign } else .error .blocked
  | .assign => .ok { self with job := some ⟨false,false⟩, main := .signalStart }
  | .signalStart =>
    .ok { self with worker := if self.worker = .parked then .woken else self.worker, main := .lockDone }
  | .lockDone =>
    if self.donelock = none then .ok { self with donelock := some .main, main := .unlockStart } else .error .blocked
  | .unlockStart => .ok { self with startlock := none, main := .idle }
  | .read => .ok { self with pipe := self.pipe - 2, main := .checkFailed }
  | .checkFailed => .ok { self with main := if self.failed then .restart else .waitDone }
  -- pthread_join, and pthread_create
  | .restart => if self.worker = .exited then .ok { self with worker := .boot, main := .idle } else .error .blocked
  | .waitDone => .ok { self with donelock := none, main := .parked }
  | .parked => .error .blocked
  | .woken =>
    if self.donelock = none then .ok { self with donelock := some .main, main := .finish } else .error .blocked
  | .finish =>
    match self.job with
    | some job => .ok { self with main := .clear job.panicmsg }
    | none => .error .crash
  | .clear panic => .ok { self with job := none, main := .unlockDone panic }
  | .unlockDone panic => .ok { self with donelock := none, main := if panic then .panicked else .dequeue }
  | .dequeue => .ok { self with main := if queued then .lockStart else .idle }
  | .panicked => .error .blocked

/-- A step of the worker. In its setup, `fault` says whether a call fails; in the procedure of the
job, whether it panics. -/
def stepWorker (fault : Bool) : Except Stop Handoff :=
  match self.worker with
  | .boot => .ok { self with failed := false, worker := .lockStart }
  | .lockStart =>
    if self.startlock = none then .ok { self with startlock := some .worker, worker := .setup } else .error .blocked
  | .setup =>
    if fault then .ok { self with failed := true, worker := .report } else .ok { self with worker := .wait }
  -- The thread ends without unlocking `startlock`.
  | .report => .ok { self with pipe := self.pipe + 1, worker := .exited }
  | .exited => .error .blocked
  | .wait => .ok { self with startlock := none, worker := .parked }
  | .parked => .error .blocked
  | .woken =>
    if self.startlock = none then .ok { self with startlock := some .worker, worker := .run } else .error .blocked
  | .run =>
    match self.job with
    | some _ => .ok { self with job := some ⟨true,fault⟩, worker := .write }
    | none => .error .crash
  | .write => .ok { self with pipe := self.pipe + 1, worker := .lockDone }
  | .lockDone =>
    if self.donelock = none then .ok { self with donelock := some .worker, worker := .signalDone } else .error .blocked
  | .signalDone => .ok { self with main := if self.main = .parked then .woken else self.main, worker := .unlockDone }
  | .unlockDone => .ok { self with donelock := none, worker := .wait }

inductive Label where
  /-- `ThreadPool_enqueue` calls `startThreadJob` on this worker. -/
  | enqueue
  /-- `readyRead` calls `threadJobDone`. -/
  | ready
  | main (queued : Bool)
  | worker (fault : Bool)
deriving DecidableEq, Repr

def step : Label → Handoff → Except Stop Handoff
  | .enqueue, self => if self.main = .idle ∧ self.job = none then .ok { self with main := .lockStart } else .error .blocked
  | .ready, self => if self.main = .idle ∧ 0 < self.pipe then .ok { self with main := .read } else .error .blocked
  | .main queued, self => self.stepMain queued
  | .worker fault, self => self.stepWorker fault

def init : Handoff := ⟨.idle,.boot,none,none,none,false,0⟩

abbrev Reached (C : Label → Handoff → Prop) : Handoff → Prop := Transitions.Reaches step C (· = init)

def starting : MainPc → Bool
  | .lockStart | .assign | .signalStart | .lockDone | .unlockStart => true
  | _ => false

end Handoff
end LibIrcBot
