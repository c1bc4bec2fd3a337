import Mathlib.Data.Finset.Max
import Mathlib.Data.Int.Notation
import Mathlib.Order.Lattice
import Mathlib.Tactic.Common

/-! # The descriptor sets of the service

The two sets of watched descriptors with their counters, and the bound `nfds` that the
dispatch loops run to. The handlers of an event change all of these while a loop runs.
-/
namespace LibIrcBot

inductive FdSet where
  | read
  | write
deriving DecidableEq, Repr

/-- `readfds` and `writefds`, `nread` and `nwrite`, and `nfds`. -/
structure Watch where
  fds : FdSet → Finset ℕ
  count : FdSet → ℤ
  nfds : ℕ

namespace Watch

def init : Watch := ⟨fun _ => ∅,fun _ => 0,0⟩

def Watched (self : Watch) (fd : ℕ) : Prop := fd ∈ self.fds .read ∨ fd ∈ self.fds .write

instance (self : Watch) (fd : ℕ) : Decidable (self.Watched fd) := inferInstanceAs (Decidable (_ ∨ _))

/-- The scan of `tryReduceNfds` downwards, with the `nfds` it comes to. -/
def scan (self : Watch) : ℕ → ℕ
  | 0 => if self.Watched 0 then 1 else 0
  | fd + 1 => if self.Watched (fd + 1) then fd + 2 else scan self fd

def tryReduceNfds (id : ℕ) (self : Watch) : Watch :=
  if self.count .read = 0 ∧ self.count .write = 0 then { self with nfds := 0 }
  else if id + 1 ≥ self.nfds then { self with nfds := self.scan id }
  else self

def register (set : FdSet) (id : ℕ) (self : Watch) : Watch :=
  if id ∈ self.fds set then self
  else
    { fds := Function.update self.fds set (insert id (self.fds set))
      count := Function.update self.count set (self.count set + 1)
      nfds := if id ≥ self.nfds then id + 1 else self.nfds }

def unregister (set : FdSet) (id : ℕ) (self : Watch) : Watch :=
  if id ∉ self.fds set then self
  else
    tryReduceNfds id { self with
      fds := Function.update self.fds set ((self.fds set).erase id)
      count := Function.update self.count set (self.count set - 1) }

/-- `Service_registerRead`, `Service_unregisterRead`, `Service_registerWrite` and `Service_unregisterWrite`. -/
def registerRead : ℕ → Watch → Watch := register .read
def unregisterRead : ℕ → Watch → Watch := unregister .read
def registerWrite : ℕ → Watch → Watch := register .write
def unregisterWrite : ℕ → Watch → Watch := unregister .write

inductive Call where
  | registerRead (id : ℕ)
  | unregisterRead (id : ℕ)
  | registerWrite (id : ℕ)
  | unregisterWrite (id : ℕ)
deriving DecidableEq, Repr

def step (self : Watch) : Call → Watch
  | .registerRead id => self.registerRead id
  | .unregisterRead id => self.unregisterRead id
  | .registerWrite id => self.registerWrite id
  | .unregisterWrite id => self.unregisterWrite id

def run (self : Watch) (calls : List Call) : Watch := calls.foldl step self

end Watch

abbrev ReadyFd := FdSet × ℕ

/-- The state of an iteration of the service loop: the sets, what is left of the result of `pselect`, and a ghost log
of the events raised. -/
structure Dispatch where
  watch : Watch
  src : ℤ
  raised : List ReadyFd

namespace Dispatch

/-- `Event_raise` on one of the two events; what the handlers call depends on all that was raised before. -/
def raise (handlers : List ReadyFd → List Watch.Call) (fd : ReadyFd) (self : Dispatch) : Dispatch :=
  { watch := self.watch.run (handlers (self.raised ++ [fd]))
    src := self.src - 1
    raised := self.raised ++ [fd] }

def loop (handlers : List ReadyFd → List Watch.Call) (set : FdSet) (ready : Finset ℕ) (i : ℕ) (self : Dispatch) :
    Dispatch :=
  if h : self.src > 0 ∧ i < self.watch.nfds then
    if i ∈ ready then loop handlers set ready (i + 1) (self.raise handlers (set,i))
    else loop handlers set ready (i + 1) self
  else self
termination_by (self.src.toNat,self.watch.nfds - i)
decreasing_by
  · apply Prod.Lex.left
    exact (Int.toNat_lt_toNat h.1).mpr (Int.sub_one_lt_of_le le_rfl)
  · apply Prod.Lex.right
    exact Nat.sub_succ_lt_self _ _ h.2

/-- The part of an iteration that follows `pselect`, with its two results. A set that was empty before `pselect` is not
passed to it. -/
def iteration (handlers : List ReadyFd → List Watch.Call) (wfds rfds : Finset ℕ) (watch : Watch) :
    Dispatch × Dispatch :=
  let start : Dispatch := ⟨watch,wfds.card + rfds.card,[]⟩
  let written := if watch.count .write ≠ 0 then start.loop handlers .write wfds 0 else start
  let read := if watch.count .read ≠ 0 then written.loop handlers .read rfds 0 else written
  (written,read)

end Dispatch
end LibIrcBot
