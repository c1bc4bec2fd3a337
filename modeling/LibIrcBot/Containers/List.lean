import LibIrcBot.Foundations.Cursor
import LibIrcBot.Foundations.Outcome

/-! # The list of `list.c`

An array of items that doubles when it is full. An index is a `size_t` of 64 bits, so that
the decrement after a removal wraps at the first item.
-/
namespace LibIrcBot
universe u

structure IBListItem (α δ : Type u) where
  obj : α
  deleter : Option δ
deriving DecidableEq, Repr

/-- A slot that was never written is `none`. -/
structure IBList (α δ : Type u) where
  items : List (Option (IBListItem α δ))
  capa : ℕ
  count : ℕ

inductive ListFault where
  /-- `IB_xrealloc` finds no memory. -/
  | memory
  /-- A slot is read that was never written. -/
  | indeterminate
  /-- A loop does not end. -/
  | endless
deriving DecidableEq, Repr

/-- The call of the deleter, where there is one. -/
def IBListItem.call {α δ : Type u} (item : IBListItem α δ) : Option (δ × α) := item.deleter.map (·,item.obj)

namespace IBList
variable {α δ : Type u}

def INITIALCAPA : ℕ := 8
/-- `sizeof (IBListItem)`. -/
def ITEMSIZE : ℕ := 16
/-- No object is larger. -/
def PTRDIFF_MAX : ℕ := 2 ^ 63 - 1

/-- `++i` and `--i` on a `size_t`. -/
def incr (i : ℕ) : ℕ := (i + 1) % 2 ^ 64
def decr (i : ℕ) : ℕ := (i + (2 ^ 64 - 1)) % 2 ^ 64

def memmove {β : Type*} (items : List β) (dst src n : ℕ) : List β :=
  items.take dst ++ ((items.drop src).take n ++ items.drop (dst + n))

def create : IBList α δ where
  items := List.replicate INITIALCAPA none
  capa := INITIALCAPA
  count := 0

def size (self : IBList α δ) : ℕ := self.count

def item (self : IBList α δ) (i : ℕ) : Except ListFault (IBListItem α δ) :=
  match self.items[i]? with
  | some (some item) => .ok item
  | _ => .error .indeterminate

def itemAt (self : IBList α δ) (idx : ℕ) : Except ListFault (Option α) :=
  if idx ≥ self.count then .ok none else (fun item => some item.obj) <$> self.item idx

/-- The doubling of the array, by `IB_xrealloc`. -/
def expand (self : IBList α δ) : Except ListFault (IBList α δ) :=
  let capa := self.capa * 2
  if capa * ITEMSIZE ≤ PTRDIFF_MAX then
    .ok { self with items := self.items ++ List.replicate (capa - self.items.length) none, capa := capa }
  else .error .memory

def append (self : IBList α δ) (obj : α) (deleter : Option δ) : Except ListFault (IBList α δ) := do
  let self ← if self.count = self.capa then self.expand else .ok self
  .ok { self with items := self.items.set self.count (some ⟨obj,deleter⟩), count := self.count + 1 }

/-- `removeAt`, with the deleter call it makes. -/
def removeAt (self : IBList α δ) (i : ℕ) (delete : Bool) : Except ListFault (List (δ × α) × IBList α δ) := do
  let calls ← if delete then (fun item => item.call.toList) <$> self.item i else .ok []
  let items := if i < self.count - 1 then memmove self.items i (i + 1) (self.count - i - 1) else self.items
  .ok (calls,{ self with items := items, count := self.count - 1 })

section Identity
variable [DecidableEq α]

/-- The loop of `IBList_remove` over the `n` items that are left. -/
def removeLoop (self : IBList α δ) (obj : α) : ℕ → ℕ → Except ListFault (IBList α δ)
  | 0, _ => .ok self
  | n + 1, i => do
    let item ← self.item i
    if item.obj = obj then Prod.snd <$> self.removeAt i false else removeLoop self obj n (incr i)

def remove (self : IBList α δ) (obj : α) : Except ListFault (IBList α δ) := self.removeLoop obj self.count 0

end Identity

/-- The loop of `IBList_removeAll`, with a bound on its passes. -/
def removeAllLoop (matcher : α → Bool) : ℕ → ℕ → IBList α δ → Except ListFault (List (δ × α) × IBList α δ)
  | 0, i, self => if i < self.count then .error .endless else .ok ([],self)
  | n + 1, i, self =>
    if i < self.count then do
      let item ← self.item i
      if matcher item.obj then
        let (calls,self) ← self.removeAt i true
        let (more,self) ← removeAllLoop matcher n (incr (decr i)) self
        .ok (calls ++ more,self)
      else removeAllLoop matcher n (incr i) self
    else .ok ([],self)

/-- `IBList_removeAll`, with the deleter calls in their order. -/
def removeAll (self : IBList α δ) (matcher : α → Bool) : Except ListFault (List (δ × α) × IBList α δ) :=
  removeAllLoop matcher self.count 0 self

/-- The loop of `IBList_destroy` over the `n` items that are left. -/
def destroyLoop (self : IBList α δ) : ℕ → ℕ → Except ListFault (List (δ × α))
  | 0, _ => .ok []
  | n + 1, i => do
    let item ← self.item i
    let calls ← destroyLoop self n (incr i)
    .ok (item.call.toList ++ calls)

/-- `IBList_destroy`: the deleter calls in the order they are made. -/
def destroy (self : IBList α δ) : Except ListFault (List (δ × α)) := self.destroyLoop self.count 0

def iterator (self : IBList α δ) : Cursor (Option (IBListItem α δ)) where
  count := self.count
  pos := self.count
  items := self.items.take self.count

def iteratorMoveNext (iter : Cursor (Option (IBListItem α δ))) : Bool × Cursor (Option (IBListItem α δ)) :=
  iter.moveNext

def iteratorCurrent (iter : Cursor (Option (IBListItem α δ))) : Option α := iter.current.join.map IBListItem.obj

end IBList
end LibIrcBot
