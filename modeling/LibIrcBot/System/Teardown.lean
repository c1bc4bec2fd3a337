import LibIrcBot.System.Fleet
import LibIrcBot.System.ChannelTable

/-! # The teardown of the program

What `daemonrun` does to events when `Service_run` has returned: in the order of the
source, each registration, each raise and each destruction. An event is alive from its
creation until it is destroyed.
-/
namespace LibIrcBot

/-- The events of the program: those of the service, of jobs, and of each server with its
connections and channels. -/
inductive EventRef where
  | eventsDone | tick | shutdown | startup | readyWrite | readyRead
  | finished (job : ℕ)
  | serverConnected (i : ℕ) | serverDisconnected (i : ℕ) | msgReceived (i : ℕ)
  | serverJoined (i : ℕ) | serverParted (i : ℕ)
  | connected (i : ℕ) (self : ConnId) | closed (i : ℕ) (self : ConnId)
  | dataReceived (i : ℕ) (self : ConnId) | dataSent (i : ℕ) (self : ConnId)
  | joined (i : ℕ) (self : ChanId) | parted (i : ℕ) (self : ChanId) | entered (i : ℕ) (self : ChanId)
  | left (i : ℕ) (self : ChanId) | failed (i : ℕ) (self : ChanId)
deriving DecidableEq, Repr

inductive Touch where
  | register (e : EventRef) | unregister (e : EventRef) | raise (e : EventRef) | destroy (e : EventRef)
deriving DecidableEq, Repr

namespace Touch

/-- The event has to be alive for anything but its destruction. -/
def uses : Touch → Option EventRef
  | .register e | .unregister e | .raise e => some e
  | .destroy _ => none

def after (alive : EventRef → Bool) : Touch → EventRef → Bool
  | .destroy e => Function.update alive e false
  | _ => alive

/-- No event is registered on, unregistered from or raised that is destroyed. -/
def safe (alive : EventRef → Bool) : List Touch → Bool
  | [] => true
  | t :: ts => t.uses.all alive && safe (t.after alive) ts

theorem safe_append (alive : EventRef → Bool) (xs ys : List Touch) :
    safe alive (xs ++ ys) = (safe alive xs && safe (xs.foldl after alive) ys) := by
  induction xs generalizing alive with
  | nil => rfl
  | cons t ts ih => rw [List.cons_append,safe,safe,ih,List.foldl_cons,Bool.and_assoc]

theorem safe_of_destroys {alive : EventRef → Bool} {ts : List Touch} (h : ∀ t ∈ ts, t.uses = none) : safe alive ts := by
  induction ts generalizing alive with
  | nil => rfl
  | cons t ts ih =>
    rw [safe,h t List.mem_cons_self]
    exact ih fun u hu => h u (List.mem_cons_of_mem _ hu)

/-- A destroyed event stays destroyed. -/
theorem dead_foldl {alive : EventRef → Bool} {e : EventRef} (h : alive e = false) (ts : List Touch) :
    ts.foldl after alive e = false := by
  induction ts generalizing alive with
  | nil => exact h
  | cons t ts ih =>
    refine ih ?_
    cases t with
    | destroy d =>
      rw [after]
      by_cases hd : e = d
      · rw [hd,Function.update_self]
      · rwa [Function.update_of_ne hd]
    | _ => exact h

theorem dead_of_destroy {alive : EventRef → Bool} {e : EventRef} {ts : List Touch} (h : .destroy e ∈ ts) :
    ts.foldl after alive e = false := by
  obtain ⟨xs,ys,rfl⟩ := List.append_of_mem h
  rw [List.foldl_append,List.foldl_cons]
  exact dead_foldl (Function.update_self _ _ _) ys

/-- What is done to a destroyed event is not safe. -/
theorem unsafe_of_use {alive : EventRef → Bool} {e : EventRef} {t : Touch} {ts : List Touch} (h : alive e = false)
    (hu : t.uses = some e) (ht : t ∈ ts) : safe alive ts = false := by
  obtain ⟨xs,ys,rfl⟩ := List.append_of_mem ht
  rw [safe_append,safe,hu,Option.all_some,dead_foldl h xs,Bool.false_and,Bool.and_false]

/-- An event that is used behind its destruction. -/
theorem unsafe_append {alive : EventRef → Bool} {e : EventRef} {t : Touch} {xs ys : List Touch} (hd : .destroy e ∈ xs)
    (hu : t.uses = some e) (ht : t ∈ ys) : safe alive (xs ++ ys) = false := by
  rw [safe_append,unsafe_of_use (dead_of_destroy hd) hu ht,Bool.and_false]

end Touch

/-- `ThreadPool_done` destroys the jobs that are left in the queue. -/
def ThreadPool.doneTouches (jobs : List ℕ) : List Touch := jobs.map fun job => .destroy (.finished job)

def Service.doneTouches : List Touch :=
  [.destroy .eventsDone,.destroy .tick,.destroy .shutdown,.destroy .startup,.destroy .readyWrite,.destroy .readyRead]

/-- `Connection_close` of a connection on which nobody is registered. -/
def Connection.closeTouches (i : ℕ) (self : ConnId) (deleteScheduled : ℕ) : List Touch :=
  .raise (.closed i self) :: if deleteScheduled = 0 then [.register .eventsDone] else []

namespace IrcServer

/-- `IrcServer_disconnect`; the command `QUIT` concerns no event. -/
def disconnectTouches (i : ℕ) (conn : ConnId) (w : World) : List Touch :=
  [.unregister .tick,.unregister .tick] ++
    if w.server.connst > 0 then [] else Connection.closeTouches i conn (w.conns conn).deleteScheduled

/-- The part of `IrcServer_destroy` for a server with a connection. -/
def dropConnTouches (i : ℕ) (conn : ConnId) (w : World) : List Touch :=
  [.unregister (.dataReceived i conn),.unregister (.dataSent i conn),.unregister (.connected i conn),
    .unregister (.closed i conn)] ++ disconnectTouches i conn w ++
    Connection.closeTouches i conn (if w.server.connst > 0 then (w.conns conn).deleteScheduled else 1)

end IrcServer

def IrcChannel.destroyTouches (i : ℕ) (self : ChanId) : List Touch :=
  msgCommands.reverse.map (fun _ => .unregister (.msgReceived i)) ++
    [.destroy (.failed i self),.destroy (.left i self),.destroy (.entered i self),.destroy (.parted i self),
      .destroy (.joined i self)]

namespace IrcServer

def leaveTouches (i : ℕ) (w : World) : List Touch :=
  (match w.server.conn with
    | none => []
    | some conn => dropConnTouches i conn w) ++
    [.destroy (.serverConnected i),.destroy (.serverDisconnected i),.destroy (.msgReceived i),
      .destroy (.serverJoined i),.destroy (.serverParted i)]

def channelTouches (i : ℕ) (w : World) : List Touch :=
  w.server.channels.destroy.flatMap fun call =>
    match call with
    | (.destroyIrcChannel,chan) => IrcChannel.destroyTouches i chan
    | _ => []

def destroyTouches (i : ℕ) (w : World) : List Touch := leaveTouches i w ++ channelTouches i w

end IrcServer

namespace Fleet

def serverTouches (members : List (Member × ℕ)) : List Touch :=
  members.flatMap fun m => IrcServer.destroyTouches m.2 m.1.world

/-- What `daemonrun` does behind `Service_run`, with some jobs left in the queue. -/
def teardown (jobs : List ℕ) (F : Fleet) : List Touch :=
  ThreadPool.doneTouches jobs ++ Service.doneTouches ++ serverTouches F.members.zipIdx

def alive (jobs : List ℕ) (F : Fleet) : EventRef → Bool
  | .eventsDone | .tick | .shutdown | .startup | .readyWrite | .readyRead => true
  | .finished job => job ∈ jobs
  | .serverConnected i | .serverDisconnected i | .msgReceived i | .serverJoined i | .serverParted i =>
    i < F.members.length
  | .connected i self | .closed i self | .dataReceived i self | .dataSent i self =>
    F.members[i]?.any fun m => self < m.world.nconns && (m.world.conns self).deleteScheduled ≠ 2
  | .joined i self | .parted i self | .entered i self | .left i self | .failed i self =>
    F.members[i]?.any fun m => self < m.world.nchans && self ∉ m.world.ghost.destroyed

end Fleet
end LibIrcBot
