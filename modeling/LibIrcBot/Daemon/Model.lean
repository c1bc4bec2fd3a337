import LibIrcBot.Foundations.CString
import LibIrcBot.Foundations.FileLocks
import LibIrcBot.Foundations.Transitions

/-! # Launching daemons

`daemon_run` in any number of processes, with any pidfiles. A process is at a phase, which names the next call that
it makes; the call is made on the files that all processes share, and its result leads to the next phase. A
process forks twice: the first one only waits for what the launch prints, the second one writes the pid of the
third one, which is the daemon.
-/
namespace LibIrcBot.Daemon
open CString

/-- The digits that `%d` prints. -/
def decimal (n : ℕ) : Bytes := (Nat.toDigits 10 n).map fun c => UInt8.ofNat c.toNat

def pidLine (pid : ℕ) : Bytes := decimal pid ++ [LF]

def isspace (c : UInt8) : Bool := c = SPACE || 0x09 ≤ c && c ≤ 0x0d

/-- `fscanf` with the format `%d`; `none` when no number is read. -/
def scanInt (s : Bytes) : Option ℤ :=
  let digits (s : Bytes) : Option ℕ := if s.takeWhile isdigit = [] then none else some (atoi (s.takeWhile isdigit))
  match s.dropWhile isspace with
  | 0x2d :: s => (digits s).map fun n => -(n : ℤ)
  | 0x2b :: s => (digits s).map fun n => (n : ℤ)
  | s => (digits s).map fun n => (n : ℤ)

inductive Report where
  | lockInfo
  | stale
  | cannotRemove
  | disagree (pid : ℤ) (owner : ℕ)
  | alreadyRunning (pid : ℤ)
  | cannotOpen
  | lockFailed
  | forkFailed (n : ℕ)
  | setsidFailed
  | chdirFailed
  | background
deriving DecidableEq, Repr

def Report.message (pidfile : String) : Report → String
  | .lockInfo => s!"error getting lock info on `{pidfile}'"
  | .stale => s!"removing stale pidfile `{pidfile}'"
  | .cannotRemove => s!"cannot remove `{pidfile}'"
  | .disagree pid owner => s!"pidfile `{pidfile}' content (pid {pid}) and lock owner (pid {owner}) disagree! " ++
      "This should never happen, giving up!"
  | .alreadyRunning pid => s!"daemon already running with pid {pid}"
  | .cannotOpen => s!"cannot open pidfile `{pidfile}' for writing"
  | .lockFailed => s!"locking own pidfile `{pidfile}' failed"
  | .forkFailed n => s!"failed to fork ({n})"
  | .setsidFailed => "setsid() failed"
  | .chdirFailed => "chdir(\"/\") failed"
  | .background => "forked into background"

/-- Where a process is in `daemon_run`. The file is `pf`; there is none without a pidfile. -/
inductive Phase where
  -- `openpidfile`
  | fopenRead
  | getLock (pf : ℕ)
  | setRead (pf : ℕ)
  | getLockAgain (pf : ℕ)
  | unlinkStale (pf : ℕ)
  | closeStale (pf : ℕ)
  | scan (pf owner : ℕ)
  | closeRefused (pf : ℕ)
  | fopenWrite
  | setWrite (pf : ℕ)
  | closeUnlocked (pf : ℕ)
  -- the process that was called
  | fork1 (pf : Option ℕ)
  | closeParent (pf : Option ℕ)
  | relay
  -- the second process
  | wait1 (pf : Option ℕ)
  | setsid (pf : Option ℕ)
  | fork2 (pf : Option ℕ)
  | printPid (pf : Option ℕ) (child : ℕ)
  -- `fclose` writes what `fprintf` has left in the buffer, and closes the file
  | writePid (pf : Option ℕ) (child : ℕ)
  | closePid (pf : Option ℕ) (child : ℕ)
  -- the daemon
  | wait2 (pf : Option ℕ)
  | chdir (pf : Option ℕ)
  | main (pf : Option ℕ)
  | closeMain (pf : Option ℕ) (rc : ℤ)
  | unlinkMain (rc : ℤ)
  | done (pf : Option ℕ)
  | returned (rc : ℤ)
deriving DecidableEq, Repr

def EXIT_SUCCESS : ℤ := 0
def EXIT_FAILURE : ℤ := 1

/-- The calls. Those that only succeed or fail without an effect on the files are `other`; `step` is a step
without a call. -/
inductive Call where
  | fopenRead (name : String)
  | fopenWrite (name : String)
  | fclose (pf : ℕ)
  | getlk (pf : ℕ)
  | setlk (mode : LockMode) (pf : ℕ)
  | setlkw (pf : ℕ)
  | unlink (name : String)
  | fscanf (pf : ℕ)
  | fprintf (pf : ℕ) (cs : Bytes)
  | write (pf : ℕ) (cs : Bytes)
  | fork
  | other
  | dmain
  | relay
  | step
deriving DecidableEq, Repr

inductive Result where
  | ok
  | failed
  | interrupted
  | opened (pf : ℕ)
  | owner (pid : Option ℕ)
  | scanned (pid : Option ℤ)
  | child (pid : ℕ)
  | inChild
  | code (rc : ℤ)
deriving DecidableEq, Repr

/-- A process in `daemon_run`, with what it has logged. -/
structure Process where
  pidfile : Option String
  phase : Phase
  reports : List Report
deriving DecidableEq, Repr

namespace Process

def call (P : Process) : Option Call :=
  match P.phase with
  | .fopenRead => P.pidfile.map .fopenRead
  | .getLock pf | .getLockAgain pf => some (.getlk pf)
  | .setRead pf => some (.setlk .shared pf)
  | .unlinkStale _ => P.pidfile.map .unlink
  | .closeStale pf | .closeRefused pf | .closeUnlocked pf => some (.fclose pf)
  | .scan pf _ => some (.fscanf pf)
  | .fopenWrite => P.pidfile.map .fopenWrite
  | .setWrite pf => some (.setlk .exclusive pf)
  | .fork1 _ | .fork2 _ => some .fork
  | .relay => some .relay
  | .wait1 pf | .wait2 pf => some (pf.elim .step .setlkw)
  | .setsid _ | .chdir _ => some .other
  | .printPid pf child => some (pf.elim .step fun pf => .fprintf pf (pidLine child))
  | .writePid pf child => some (pf.elim .step fun pf => .write pf (pidLine child))
  | .closeParent pf | .closePid pf _ | .closeMain pf _ | .done pf => some (pf.elim .step .fclose)
  | .main _ => some .dmain
  | .unlinkMain _ => some (P.pidfile.elim .step .unlink)
  | .returned _ => none

def goto (P : Process) (phase : Phase) : Process := { P with phase := phase }

def log (P : Process) (report : Report) : Process := { P with reports := P.reports ++ [report] }

/-- What follows a result. A result that the call does not give changes nothing. -/
def next (P : Process) (result : Result) : Process :=
  match P.phase, result with
  | .fopenRead, .opened pf => P.goto (.getLock pf)
  | .fopenRead, .failed => P.goto .fopenWrite
  | .getLock _, .failed => (P.log .lockInfo).goto (.returned EXIT_FAILURE)
  | .getLock pf, .owner none => P.goto (.setRead pf)
  | .getLock pf, .owner (some pid) => P.goto (.scan pf pid)
  | .setRead pf, .failed => P.goto (.getLockAgain pf)
  | .setRead pf, .ok => (P.log .stale).goto (.unlinkStale pf)
  -- the result of the call is not checked; the pid is 0 when nothing is stored
  | .getLockAgain pf, .failed => P.goto (.scan pf 0)
  | .getLockAgain pf, .owner pid => P.goto (.scan pf (pid.getD 0))
  | .unlinkStale _, .failed => (P.log .cannotRemove).goto (.returned EXIT_FAILURE)
  | .unlinkStale pf, .ok => P.goto (.closeStale pf)
  | .closeStale _, .ok => P.goto .fopenWrite
  | .scan pf owner, .scanned pid =>
    (P.log (if pid = some (owner : ℤ) then .alreadyRunning owner else .disagree (pid.getD (-1)) owner)).goto
      (.closeRefused pf)
  | .closeRefused _, .ok => P.goto (.returned EXIT_FAILURE)
  | .fopenWrite, .opened pf => P.goto (.setWrite pf)
  | .fopenWrite, .failed => (P.log .cannotOpen).goto (.returned EXIT_FAILURE)
  | .setWrite pf, .ok => P.goto (.fork1 (some pf))
  | .setWrite pf, .failed => P.goto (.closeUnlocked pf)
  | .closeUnlocked _, .ok => (P.log .lockFailed).goto (.returned EXIT_FAILURE)
  | .fork1 pf, .failed => (P.log (.forkFailed 1)).goto (.done pf)
  | .fork1 pf, .child _ => P.goto (.closeParent pf)
  | .fork1 pf, .inChild => P.goto (.wait1 pf)
  | .closeParent _, .ok => P.goto .relay
  | .relay, .code rc => P.goto (.returned rc)
  | .wait1 pf, .ok => P.goto (.setsid pf)
  | .wait1 pf, .failed | .wait2 pf, .failed => (P.log .lockFailed).goto (.done pf)
  | .setsid pf, .ok => P.goto (.fork2 pf)
  | .setsid pf, .failed => (P.log .setsidFailed).goto (.done pf)
  | .fork2 pf, .failed => (P.log (.forkFailed 2)).goto (.done pf)
  | .fork2 pf, .child pid => P.goto (.printPid pf pid)
  | .fork2 pf, .inChild => P.goto (.wait2 pf)
  | .printPid pf child, .ok => P.goto (.writePid pf child)
  | .writePid pf child, .ok => P.goto (.closePid pf child)
  | .closePid _ _, .ok => P.goto (.returned EXIT_SUCCESS)
  | .wait2 pf, .ok => P.goto (.chdir pf)
  | .chdir pf, .ok => (P.log .background).goto (.main pf)
  | .chdir pf, .failed => (P.log .chdirFailed).goto (.done pf)
  | .main pf, .code rc => P.goto (.closeMain pf rc)
  | .closeMain _ rc, .ok => P.goto (.unlinkMain rc)
  | .unlinkMain rc, .ok | .unlinkMain rc, .failed => P.goto (.returned rc)
  | .done _, .ok => P.goto (.returned EXIT_FAILURE)
  | _, _ => P

def start (pidfile : Option String) : Process where
  pidfile := pidfile
  phase := pidfile.elim (.fork1 none) fun _ => .fopenRead
  reports := []

end Process

/-- What the environment decides about a call. -/
inductive Answer where
  | succeed
  | fail
  | interrupt
  | fork (child : ℕ)
  | write (n : ℕ)
  | code (rc : ℤ)
deriving DecidableEq, Repr

abbrev PidFiles := Files String ℕ UInt8

/-- A call of a process, unless it cannot end this way. A lock that is not granted fails or, in `F_SETLKW`, is
waited for. -/
def kernel (p : ℕ) : Call → Answer → PidFiles → Option (Result × PidFiles)
  | .fopenRead name, .succeed, F => (F.named name).map fun pf => (.opened pf,F)
  | .fopenWrite name, .succeed, F => some (.opened (F.create name).1,(F.create name).2)
  | .fclose pf, .succeed, F => some (.ok,F.close p pf)
  | .getlk pf, .succeed, F => some (.owner (F.blocker p .shared pf),F)
  | .setlk mode pf, .succeed, F => (F.lock p mode pf).map fun F => (.ok,F)
  | .setlkw pf, .succeed, F => (F.lock p .exclusive pf).map fun F => (.ok,F)
  | .setlkw _, .interrupt, F => some (.interrupted,F)
  | .unlink name, .succeed, F => if F.named name = none then none else some (.ok,F.unlink name)
  | .fscanf pf, .succeed, F => some (.scanned (scanInt (F.text pf)),F)
  -- the stream is fully buffered
  | .fprintf _ _, .succeed, F => some (.ok,F)
  | .write pf cs, .write n, F => some (.ok,F.write pf (cs.take n))
  | .fork, .fork child, F => some (.child child,F)
  | .dmain, .code rc, F | .relay, .code rc, F => some (.code rc,F)
  | .other, .succeed, F | .step, .succeed, F => some (.ok,F)
  | .fopenRead _, .fail, F | .fopenWrite _, .fail, F | .getlk _, .fail, F | .setlk _ _, .fail, F
  | .setlkw _, .fail, F | .unlink _, .fail, F | .fork, .fail, F | .other, .fail, F => some (.failed,F)
  | _, _, _ => none

/-- The files, the processes in `daemon_run` and the numbers of all processes there were. -/
structure Host where
  files : PidFiles
  procs : ℕ → Option Process
  pids : List ℕ

inductive Label where
  /-- A process calls `daemon_run`. -/
  | launch (p : ℕ) (pidfile : Option String)
  /-- The next call of a process returns. -/
  | call (p : ℕ) (answer : Answer)
  /-- A process exits or is killed. -/
  | leave (p : ℕ)
deriving DecidableEq, Repr

inductive Impossible where
  | impossible
deriving DecidableEq, Repr

namespace Host

def set (H : Host) (p : ℕ) (P : Option Process) : Host :=
  { H with procs := Function.update H.procs p P, pids := p :: H.pids }

def free (H : Host) (p : ℕ) : Bool :=
  match H.procs p with
  | none => true
  | some P => P.phase matches .returned _

/-- What a process does with the result of a call. A process that is started is a copy of the one that starts it,
with a number that no process has. -/
def resume (H : Host) (p : ℕ) (P : Process) : Result → Option Host
  | .child c => if H.procs c = none ∧ c ≠ 0 then
      some ((H.set p (some (P.next (.child c)))).set c (some (P.next .inChild))) else none
  | result => some (H.set p (some (P.next result)))

def step : Label → Host → Except Impossible Host
  | .launch p pidfile, H =>
    if H.free p ∧ p ≠ 0 then .ok (H.set p (some (.start pidfile))) else .error .impossible
  | .call p answer, H =>
    let next := do
      let P ← H.procs p
      let call ← P.call
      let (result,files) ← kernel p call answer H.files
      { H with files := files }.resume p P result
    next.elim (.error .impossible) .ok
  | .leave p, H =>
    if H.procs p = none then .error .impossible
    else .ok ({ H with files := H.files.leave p }.set p none)

/-- Nothing is locked and no process is in `daemon_run`; there may be files of any contents. -/
structure Initial (H : Host) : Prop where
  procs : ∀ p, H.procs p = none
  locks : H.files.locks = []
  named : H.files.Distinct

end Host
end LibIrcBot.Daemon
