import LibIrcBot.Foundations.ObjectMemory
import LibIrcBot.Foundations.Ring
import Mathlib.Data.List.ReduceOption

/-! # The growing ring of `queue.c`

The entries are kept as raw bytes, so that the `memcpy` of `expand` copies the
number of bytes the source passes and not a number of entries. A `QueueEntry` is
two pointers of eight bytes, the object first and its deleter second.
-/
namespace LibIrcBot
open ObjectMemory

/-- The pointer values an entry holds. A null deleter is a value of its own. -/
inductive QueuePtr (α δ : Type*) where
  | obj (a : α)
  | deleter (d : Option δ)
deriving DecidableEq, Repr

structure IBQueue (α δ : Type*) where
  entries : Memory (QueuePtr α δ)
  count : ℕ
  capa : ℕ
  front : ℕ
  back : ℕ

namespace IBQueue
variable {α δ : Type*}

def QUEUEINITIALCAPA : ℕ := 8
/-- `sizeof (void *)` and `sizeof (QueueEntry)`. -/
def ptrSize : ℕ := 8
def entrySize : ℕ := 16

def create : IBQueue α δ where
  entries := List.replicate (QUEUEINITIALCAPA * entrySize) none
  count := 0
  capa := QUEUEINITIALCAPA
  front := 0
  back := 0

/-- `expand`, with the byte count `capa - front` that the source passes to `memcpy`. -/
def expand (self : IBQueue α δ) : IBQueue α δ :=
  let newcapa := 2 * self.capa
  let entries := realloc self.entries (newcapa * entrySize)
  if self.front ≠ 0 then
    { self with
      entries := memcpy entries ((self.front + self.capa) * entrySize) (self.front * entrySize)
        (self.capa - self.front)
      front := self.front + self.capa
      capa := newcapa }
  else
    { self with entries := entries, back := self.capa, capa := newcapa }

def writeEntry (entries : Memory (QueuePtr α δ)) (i : ℕ) (obj : α) (deleter : Option δ) :
    Memory (QueuePtr α δ) :=
  store (store entries (i * entrySize) (encode ptrSize (.obj obj)))
    (i * entrySize + ptrSize) (encode ptrSize (.deleter deleter))

def enqueue (self : IBQueue α δ) (obj : α) (deleter : Option δ) : IBQueue α δ :=
  let self := if self.count = self.capa then self.expand else self
  { self with
    entries := writeEntry self.entries self.back obj deleter
    back := Ring.advance self.capa self.back
    count := self.count + 1 }

variable [DecidableEq α] [DecidableEq δ]

/-- `entries[i].obj`; `none` when the pointer is indeterminate. -/
def objAt (entries : Memory (QueuePtr α δ)) (i : ℕ) : Option α :=
  match load ptrSize entries (i * entrySize) with
  | some (.obj a) => some a
  | _ => none

/-- `entries[i].deleter`; `none` when the pointer is indeterminate. -/
def deleterAt (entries : Memory (QueuePtr α δ)) (i : ℕ) : Option (Option δ) :=
  match load ptrSize entries (i * entrySize + ptrSize) with
  | some (.deleter d) => some d
  | _ => none

/-- `IBQueue_dequeue`: `none` is a null result, `some none` an indeterminate pointer. -/
def dequeue (self : IBQueue α δ) : Option (Option α) × IBQueue α δ :=
  if self.count = 0 then (none,self)
  else (some (objAt self.entries self.front),
    { self with front := Ring.advance self.capa self.front, count := self.count - 1 })

/-- The entry of one slot, provided both of its pointers are determinate. -/
def entryAt (entries : Memory (QueuePtr α δ)) (i : ℕ) : Option (α × Option δ) :=
  match objAt entries i, deleterAt entries i with
  | some a, some d => some (a,d)
  | _, _ => none

/-- What the destruction of one slot calls: nothing for a null deleter, `none` when
the call goes through an indeterminate pointer. -/
def destroyEntry (entries : Memory (QueuePtr α δ)) (i : ℕ) : List (Option (δ × α)) :=
  match deleterAt entries i with
  | some none => []
  | some (some d) => [(objAt entries i).map (fun a => (d,a))]
  | none => [none]

/-- The loop of `IBQueue_destroy` over the remaining `n` entries. -/
def destroyFrom (self : IBQueue α δ) : ℕ → ℕ → List (Option (δ × α))
  | 0, _ => []
  | n + 1, pos => destroyEntry self.entries pos ++ destroyFrom self n (Ring.advance self.capa pos)

/-- `IBQueue_destroy`: the deleter calls in the order they are made. -/
def destroy (self : IBQueue α δ) : List (Option (δ × α)) := self.destroyFrom self.count self.front

/-- The entries in queue order, as a reader of the ring sees them. -/
def slots (self : IBQueue α δ) : List (Option (α × Option δ)) :=
  Ring.window (entryAt self.entries) self.capa self.front self.count

/-- No pointer of an occupied slot is indeterminate. -/
def Determinate (self : IBQueue α δ) : Prop := none ∉ self.slots

def contents (self : IBQueue α δ) : List (α × Option δ) := self.slots.reduceOption

instance (self : IBQueue α δ) : Decidable self.Determinate := inferInstanceAs (Decidable (none ∉ _))

end IBQueue
end LibIrcBot
