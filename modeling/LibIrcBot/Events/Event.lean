import LibIrcBot.Foundations.Outcome
import Mathlib.Data.List.Basic
import Mathlib.Data.Int.Notation

/-! # The event of `event.c`

Slots are kept in registration order. Unregistering clears the handler of a slot and
marks the array dirty; the next registration removes all cleared slots. Each slot
also carries, as a ghost, the number of the `Event_register` call that wrote it.
-/
namespace LibIrcBot

structure EvHandler (ρ η : Type*) where
  receiver : ρ
  handler : Option η
  id : ℤ
  serial : ℕ
deriving DecidableEq, Repr

structure Event (ρ η : Type*) where
  handlers : List (EvHandler ρ η)
  capa : ℕ
  dirty : Bool
  registrations : ℕ

namespace Event
variable {ρ η : Type*}

def EVCHUNKSIZE : ℕ := 4

def create : Event ρ η where
  handlers := []
  capa := 0
  dirty := false
  registrations := 0

abbrev size (self : Event ρ η) : ℕ := self.handlers.length

/-- The compaction loop of `Event_register`, with the number of slots still to visit as
fuel. After a removal the index stays where it is: the source decrements it first. -/
def compact : ℕ → ℕ → List (EvHandler ρ η) → List (EvHandler ρ η)
  | 0, _, handlers => handlers
  | n + 1, pos, handlers =>
    match handlers[pos]? with
    | none => handlers
    | some slot =>
      if slot.handler.isNone then compact n pos (handlers.eraseIdx pos) else compact n (pos + 1) handlers

def register (self : Event ρ η) (receiver : ρ) (handler : η) (id : ℤ) : Event ρ η :=
  let handlers := if self.dirty then compact self.size 0 self.handlers else self.handlers
  { handlers := handlers ++ [⟨receiver,some handler,id,self.registrations⟩]
    capa := if handlers.length = self.capa then self.capa + EVCHUNKSIZE else self.capa
    dirty := false
    registrations := self.registrations + 1 }

variable [DecidableEq ρ] [DecidableEq η]

def Matches (receiver : ρ) (handler : η) (id : ℤ) (slot : EvHandler ρ η) : Bool :=
  slot.receiver = receiver && slot.handler = some handler && slot.id = id

def clearFirst (p : EvHandler ρ η → Bool) : List (EvHandler ρ η) → List (EvHandler ρ η)
  | [] => []
  | slot :: rest => if p slot then { slot with handler := none } :: rest else slot :: clearFirst p rest

def unregister (self : Event ρ η) (receiver : ρ) (handler : η) (id : ℤ) : Event ρ η :=
  { self with
    handlers := clearFirst (Matches receiver handler id) self.handlers
    dirty := self.dirty || self.handlers.any (Matches receiver handler id) }

/-- The number of registrations of a handler for a receiver under an id. -/
def count (self : Event ρ η) (receiver : ρ) (handler : η) (id : ℤ) : ℕ :=
  self.handlers.countP (Matches receiver handler id)

end Event

namespace Event
variable {ρ η σ ε : Type*}

/-- The loop of `Event_raise` from slot `i` on. `event` reads the array out of the
state in every pass, since a handler may change it; `call` runs one handler. The fuel
bounds the number of passes, and `stuck` is the outcome when it does not suffice. -/
def raiseFrom (event : σ → Event ρ η) (call : ρ → η → σ → Except ε σ) (stuck : σ → ε) (id : ℤ) :
    ℕ → ℕ → σ → Except ε σ
  | 0, i, s => if i < (event s).size then .error (stuck s) else .ok s
  | n + 1, i, s =>
    match (event s).handlers[i]? with
    | none => .ok s
    | some slot =>
      match slot.handler with
      | none => raiseFrom event call stuck id n (i + 1) s
      | some handler =>
        if slot.id = id then do
          let s ← call slot.receiver handler s
          raiseFrom event call stuck id n (i + 1) s
        else raiseFrom event call stuck id n (i + 1) s

def raise (event : σ → Event ρ η) (call : ρ → η → σ → Except ε σ) (stuck : σ → ε) (id : ℤ) (fuel : ℕ)
    (s : σ) : Except ε σ := raiseFrom event call stuck id fuel 0 s

/-- Raising an event whose handlers do nothing changes nothing. -/
theorem raiseFrom_const {event : σ → Event ρ η} {call : ρ → η → σ → Except ε σ} {stuck : σ → ε} {i : ℤ} {n k : ℕ} {s : σ}
    (hcall : ∀ r h, call r h s = .ok s) (hn : (event s).size ≤ n + k) : raiseFrom event call stuck i n k s = .ok s := by
  induction n generalizing k with
  | zero => rw [raiseFrom,if_neg (by omega)]
  | succ n ih =>
    rw [raiseFrom]
    split
    · rfl
    · split
      · exact ih (by omega)
      · split
        · rw [hcall]
          exact ih (by omega)
        · exact ih (by omega)

end Event
end LibIrcBot
