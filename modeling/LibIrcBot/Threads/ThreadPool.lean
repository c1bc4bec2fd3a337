import LibIrcBot.Threads.JobQueue
import LibIrcBot.Foundations.Transitions
import Mathlib.Algebra.Group.Pi.Basic
import Mathlib.Data.Int.Notation

/-! # The thread pool

The functions of `threadpool.c` that hand jobs to the workers and take them back, as steps
that the main thread and the workers take in any order. All workers are past their first
wait, so that a job that is started runs.
-/
namespace LibIrcBot

structure ThreadJob where
  hasCompleted : Bool
  timeoutTicks : ℤ
deriving DecidableEq, Repr

structure Thread where
  job : Option JobId
  /-- Whether the worker is inside of the procedure of its job. -/
  running : Bool
deriving DecidableEq, Repr

/-- Ghost logs of the jobs, in the order of the calls. -/
structure JobLog where
  /-- `ThreadPool_enqueue` returned 0. -/
  accepted : List JobId
  /-- `startThreadJob` was called. -/
  started : List JobId
  /-- The event `finished` was raised. -/
  raised : List JobId
  destroyed : List JobId
deriving DecidableEq, Repr

structure ThreadPool where
  threads : List Thread
  queue : JobQueue
  jobs : JobId → ThreadJob
  njobs : ℕ
  ghost : JobLog

def ThreadJob.create (timeoutTicks : ℤ) : ThreadJob := ⟨true,timeoutTicks⟩

namespace ThreadPool
variable (self : ThreadPool)

def createJob (timeoutTicks : ℤ) : ThreadPool :=
  { self with jobs := Function.update self.jobs self.njobs (.create timeoutTicks), njobs := self.njobs + 1 }

def destroyJob (job : JobId) : ThreadPool := { self with ghost.destroyed := self.ghost.destroyed ++ [job] }

def availableThread : Option ℕ := self.threads.findIdx? (·.job.isNone)

def startThreadJob (i : ℕ) (job : JobId) : ThreadPool :=
  { self with threads := self.threads.set i ⟨some job,true⟩, ghost.started := self.ghost.started ++ [job] }

def enqueue (mainthread : Bool) (job : JobId) : ℤ × ThreadPool :=
  match if mainthread then self.availableThread else none with
  | some i => (0,self.startThreadJob i job)
  | none =>
    let (rc,queue) := self.queue.enqueueJob job
    (rc,{ self with queue := queue })

def Owned (job : JobId) : Prop := job < self.njobs ∧ job ∉ self.ghost.accepted

instance (job : JobId) : Decidable (self.Owned job) := inferInstanceAs (Decidable (_ ∧ _))

/-- A creator calls `ThreadPool_enqueue`, on a job that the pool has not accepted before. -/
def submit (mainthread : Bool) (job : JobId) : ThreadPool :=
  if self.Owned job then
    let (rc,pool) := self.enqueue mainthread job
    if rc = 0 then { pool with ghost.accepted := pool.ghost.accepted ++ [job] } else pool
  else self

/-- `Event_raise` on `finished`; the handlers submit some jobs. -/
def raiseFinished (job : JobId) (jobs : List JobId) : ThreadPool :=
  jobs.foldl (fun pool => pool.submit true) { self with ghost.raised := self.ghost.raised ++ [job] }

def startNext (i : ℕ) : ThreadPool :=
  let (next,queue) := self.queue.dequeueJob
  let self := { self with queue := queue }
  match next with
  | some next => self.startThreadJob i next
  | none => self

/-- `threadJobDone`, for a worker that has written to its pipe. -/
def threadJobDone (i : ℕ) (jobs : List JobId) : ThreadPool :=
  match self.threads[i]? with
  | some ⟨some job,false⟩ =>
    let self := (self.raiseFinished job jobs).destroyJob job
    startNext { self with threads := self.threads.set i ⟨none,false⟩ } i
  | _ => self

def checkThreadJob (t : Thread) : ThreadPool :=
  match t.job with
  | some job =>
    let timeoutTicks := (self.jobs job).timeoutTicks
    if timeoutTicks = 0 then self
    else
      let hasCompleted := (self.jobs job).hasCompleted && timeoutTicks - 1 ≠ 0
      { self with jobs := Function.update self.jobs job ⟨hasCompleted,timeoutTicks - 1⟩ }
  | none => self

def checkThreadJobs : ThreadPool := self.threads.foldl checkThreadJob self

def cancelJob (job : JobId) : ThreadPool :=
  { self with jobs := Function.update self.jobs job { self.jobs job with hasCompleted := false } }

/-- `ThreadPool_cancel`; the handlers of `finished` submit some jobs. -/
def cancel (job : JobId) (jobs : List JobId) : ThreadPool :=
  if self.threads.any (·.job = some job) then self.cancelJob job
  else
    match self.queue.findSlot job with
    | some i =>
      let self := ((self.cancelJob job).raiseFinished job jobs).destroyJob job
      { self with queue := self.queue.clear i }
    | none => self

/-- The worker leaves the procedure of its job, and writes to its pipe. -/
def complete (i : ℕ) : ThreadPool := { self with threads := self.threads.modify i fun t => { t with running := false } }

def submitFrom (i : ℕ) (job : JobId) : ThreadPool :=
  if (self.threads[i]?.map Thread.running).getD false then self.submit false job else self

/-- The steps of the main thread and of the workers. -/
inductive Label where
  | create (timeoutTicks : ℤ)
  | enqueue (job : JobId)
  | enqueueFrom (i : ℕ) (job : JobId)
  | complete (i : ℕ)
  | threadJobDone (i : ℕ) (jobs : List JobId)
  | checkThreadJobs
  | cancel (job : JobId) (jobs : List JobId)

def step : Label → ThreadPool → ThreadPool
  | .create timeoutTicks, self => self.createJob timeoutTicks
  | .enqueue job, self => self.submit true job
  | .enqueueFrom i job, self => self.submitFrom i job
  | .complete i, self => self.complete i
  | .threadJobDone i jobs, self => self.threadJobDone i jobs
  | .checkThreadJobs, self => self.checkThreadJobs
  | .cancel job jobs, self => self.cancel job jobs

/-- The state after `ThreadPool_init`: there are workers, and none has a job. -/
structure Initial (pool : ThreadPool) : Prop where
  threads : ∃ n, pool.threads = List.replicate (n + 1) ⟨none,false⟩
  queue : ∃ queuesize, pool.queue = .create queuesize
  njobs : pool.njobs = 0
  ghost : pool.ghost = ⟨[],[],[],[]⟩

/-- The states of all runs until a panic or `ThreadPool_done`. -/
abbrev Reachable : ThreadPool → Prop :=
  Transitions.Reaches (fun l pool => (.ok (step l pool) : Except Empty ThreadPool)) (fun _ _ => True) Initial

def init (nthreads queuesize : ℕ) : ThreadPool where
  threads := List.replicate nthreads ⟨none,false⟩
  queue := .create queuesize
  jobs := fun _ => .create 0
  njobs := 0
  ghost := ⟨[],[],[],[]⟩

theorem init_initial (n queuesize : ℕ) : (init (n + 1) queuesize).Initial := ⟨⟨n,rfl⟩,⟨queuesize,rfl⟩,rfl,rfl⟩

def after (labels : List Label) (pool : ThreadPool) : ThreadPool := labels.foldl (fun pool l => step l pool) pool

theorem Reachable.after {pool : ThreadPool} (h : pool.Reachable) (labels : List Label) : (after labels pool).Reachable :=
  List.foldlRecOn labels _ h fun _ ht _ _ => .next ht trivial rfl

end ThreadPool
end LibIrcBot
