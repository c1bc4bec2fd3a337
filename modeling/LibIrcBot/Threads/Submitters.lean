import LibIrcBot.Threads.ThreadPool
import LibIrcBot.System.State

/-! # Who submits jobs

`executeHandler` of `ircbot.c` and `IBLog_msg` of `log.c`: each creates a job with an argument
on the heap, hands it to the thread pool, and does not look at what `ThreadPool_enqueue` returns.
A job whose procedure panics is destroyed, and so are the waiting jobs when the pool is shut down,
without the event that would release their arguments.
-/
namespace LibIrcBot
open CString

inductive IBLogLevel where
  | L_FATAL | L_ERROR | L_WARNING | L_INFO | L_DEBUG
deriving DecidableEq, Repr

def IBLogLevel.value : IBLogLevel → ℕ
  | .L_FATAL => 0
  | .L_ERROR => 1
  | .L_WARNING => 2
  | .L_INFO => 3
  | .L_DEBUG => 4

/-- The settings of the log; the writer itself is left out. -/
structure IBLog where
  currentwriter : Bool
  maxlevel : IBLogLevel
  logsilent : Bool
  logasync : Bool
deriving DecidableEq, Repr

def IBLog.passes (self : IBLog) (level : IBLogLevel) : Bool :=
  self.currentwriter && !(self.logsilent && IBLogLevel.L_ERROR.value < level.value) &&
    !(self.maxlevel.value < level.value)

abbrev EventId := ℕ

/-- The argument of a job: a `HandlerThreadProcArg` or a `LogJobArgs`. -/
inductive JobArg where
  | handler (hdl : IrcBotEventHandler) (e : EventId)
  | log (level : IBLogLevel) (message : Bytes)
deriving DecidableEq, Repr

/-- The thread pool with the jobs' arguments, the events of the bot and the log. -/
structure Submitters where
  pool : ThreadPool
  args : JobId → JobArg
  /-- The message of a panic in the procedure of a job. -/
  panicmsg : JobId → Option Bytes
  /-- `Service_run` has not left its loop. -/
  running : Bool
  /-- `ThreadPool_active`. -/
  active : Bool
  events : EventId → IrcBotEvent
  nevents : ℕ
  log : IBLog
  /-- The lines that were written without a job. -/
  written : List (IBLogLevel × Bytes)
  /-- The events that `destroyBotEvent` was called on. -/
  destroyedEvents : List EventId
  /-- The jobs that were destroyed after a panic, a ghost. -/
  panicked : List JobId

namespace Submitters
variable (self : Submitters)

/-- `ThreadJob_create` and `ThreadPool_enqueue`, whose result is ignored. -/
def submit (mainthread : Bool) (arg : JobArg) (timeoutTicks : ℤ) : Submitters :=
  { self with
    args := Function.update self.args self.pool.njobs arg
    panicmsg := Function.update self.panicmsg self.pool.njobs none
    pool := (self.pool.createJob timeoutTicks).submit mainthread self.pool.njobs }

def executeHandler (hdl : IrcBotEventHandler) (e : IrcBotEvent) : Submitters :=
  submit { self with events := Function.update self.events self.nevents e, nevents := self.nevents + 1 } true
    (.handler hdl self.nevents) 30

def logMsg (mainthread : Bool) (level : IBLogLevel) (message : Bytes) : Submitters :=
  if self.log.passes level then
    if self.log.logasync && self.active then self.submit mainthread (.log level message) 8
    else { self with written := self.written ++ [(level,message)] }
  else self

def destroyBotEvent (e : EventId) : Submitters := { self with destroyedEvents := self.destroyedEvents ++ [e] }

/-- The lines that `handlerJobFinished` logs: those of `IrcServer_sendMsg`, or a warning. -/
def finishedLines (job : JobId) (lines : List (IBLogLevel × Bytes)) : List (IBLogLevel × Bytes) :=
  if (self.pool.jobs job).hasCompleted then lines else [(.L_WARNING,lit "IrcBot: a handler timed out.")]

def handlerJobFinished (job : JobId) (e : EventId) (lines : List (IBLogLevel × Bytes)) : Submitters :=
  ((self.finishedLines job lines).foldl (fun self line => self.logMsg true line.1 line.2) self).destroyBotEvent e

/-- `Event_raise` on `finished`, on which only the bot registers. -/
def raiseFinished (job : JobId) (lines : List (IBLogLevel × Bytes)) : Submitters :=
  let self := { self with pool.ghost.raised := self.pool.ghost.raised ++ [job] }
  match self.args job with
  | .handler _ e => self.handlerJobFinished job e lines
  | .log _ _ => self

/-- `Service_panic` on the main thread, where the pool's handler does nothing: the loop is left. -/
def servicePanic (msg : Bytes) : Submitters :=
  let self := { self with log.logasync := false }
  { self.logMsg true .L_FATAL msg with running := false }

/-- The branch of `threadJobDone` for a job that has panicked. -/
def jobPanicked (i : ℕ) (job : JobId) (msg : Bytes) : Submitters :=
  servicePanic { self with
    pool := { self.pool.destroyJob job with threads := self.pool.threads.set i ⟨none,false⟩ }
    panicked := self.panicked ++ [job] } msg

/-- The end of `threadJobDone`, for a job that has not panicked. -/
def retire (i : ℕ) (job : JobId) (lines : List (IBLogLevel × Bytes)) : Submitters :=
  let self := self.raiseFinished job lines
  let pool := self.pool.destroyJob job
  { self with pool := ThreadPool.startNext { pool with threads := pool.threads.set i ⟨none,false⟩ } i }

def threadJobDone (i : ℕ) (lines : List (IBLogLevel × Bytes)) : Submitters :=
  match self.pool.threads[i]? with
  | some ⟨some job,false⟩ =>
    match self.panicmsg job with
    | some msg => self.jobPanicked i job msg
    | none => self.retire i job lines
  | _ => self

def logFrom (i : ℕ) (level : IBLogLevel) (message : Bytes) : Submitters :=
  if (self.pool.threads[i]?.map Thread.running).getD false then self.logMsg false level message else self

/-- `Service_panic` on a worker: the pool's handler leaves the procedure of the job. -/
def panicFrom (i : ℕ) (msg : Bytes) : Submitters :=
  match self.pool.threads[i]? with
  | some ⟨some job,true⟩ =>
    { self with pool := self.pool.complete i, panicmsg := Function.update self.panicmsg job (some msg) }
  | _ => self

/-- The loop was left, and the pool has waited for the workers inside of a procedure. -/
def drained : Bool := !self.running && self.active && self.pool.threads.all (!·.running)

def threadPoolDone : Submitters :=
  { self with
    active := false
    pool := { self.pool with
      threads := []
      queue := { self.pool.queue with jobQueue := [], queueAvail := 0 }
      ghost.destroyed := self.pool.ghost.destroyed ++ self.pool.queue.jobQueue.filterMap id } }

inductive Label where
  | event (hdl : IrcBotEventHandler) (e : IrcBotEvent)
  | log (level : IBLogLevel) (message : Bytes)
  | logFrom (i : ℕ) (level : IBLogLevel) (message : Bytes)
  | complete (i : ℕ)
  | panicFrom (i : ℕ) (msg : Bytes)
  | threadJobDone (i : ℕ) (lines : List (IBLogLevel × Bytes))
  | checkThreadJobs
  | configure (log : IBLog)
  | leave
  | threadPoolDone

/-- One step. Events of the bot, jobs that are done and ticks belong to the loop of `Service_run`. -/
def step : Label → Submitters → Submitters
  | .event hdl e, self => if self.running then self.executeHandler hdl e else self
  | .log level message, self => self.logMsg true level message
  | .logFrom i level message, self => self.logFrom i level message
  | .complete i, self => { self with pool := self.pool.complete i }
  | .panicFrom i msg, self => self.panicFrom i msg
  | .threadJobDone i lines, self => if self.running then self.threadJobDone i lines else self
  | .checkThreadJobs, self => if self.running then { self with pool := self.pool.checkThreadJobs } else self
  | .configure log, self => { self with log := log }
  | .leave, self => { self with running := false }
  | .threadPoolDone, self => if self.drained then self.threadPoolDone else self

structure Initial (s : Submitters) : Prop where
  pool : s.pool.Initial
  running : s.running = true
  active : s.active = true
  nevents : s.nevents = 0
  destroyedEvents : s.destroyedEvents = []
  panicked : s.panicked = []

abbrev Reached (C : Label → Submitters → Prop) : Submitters → Prop :=
  Transitions.Reaches (fun l s => (.ok (step l s) : Except Empty Submitters)) C Initial

def init (nthreads queuesize : ℕ) (log : IBLog) : Submitters where
  pool := .init nthreads queuesize
  args := fun _ => .log .L_DEBUG []
  panicmsg := fun _ => none
  running := true
  active := true
  events := fun _ => ⟨none,none,none,none,.IBET_CONNECTED⟩
  nevents := 0
  log := log
  written := []
  destroyedEvents := []
  panicked := []

theorem init_initial (n queuesize : ℕ) (log : IBLog) : (init (n + 1) queuesize log).Initial :=
  ⟨ThreadPool.init_initial n queuesize,rfl,rfl,rfl,rfl,rfl⟩

end Submitters
end LibIrcBot
