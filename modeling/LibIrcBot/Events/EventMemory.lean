import LibIrcBot.Events.EventArray
import LibIrcBot.Foundations.Allocation

/-! # The array of an event in memory

`Event_register` and `Event_unregister` with their accesses to the slots. The compaction counts the
size down, moves the slots behind a cleared one over it and takes its index back by one, from slot 0 to
the largest `size_t`.
-/
namespace LibIrcBot
open Blocks Event

structure EventMemory (ρ η : Type*) where
  handlers : Block (EvHandler ρ η)
  size : ℕ
  capa : ℕ
  dirty : Bool
  registrations : ℕ

namespace EventMemory
variable {ρ η : Type*}

/-- `sizeof (EvHandler)`. -/
def HANDLERSIZE : ℕ := 24

def create : EventMemory ρ η where
  handlers := []
  size := 0
  capa := 0
  dirty := false
  registrations := 0

def drop (self : EventMemory ρ η) (pos : ℕ) : Allocating (EventMemory ρ η) :=
  let size := sizeT (self.size - 1)
  if pos < size then do
    let handlers ← access (memcpy self.handlers pos self.handlers (pos + 1) (size - pos))
    .ok { self with handlers := handlers, size := size }
  else .ok { self with size := size }

/-- The compaction loop, with a bound on its passes. -/
def compact : ℕ → ℕ → EventMemory ρ η → Allocating (EventMemory ρ η)
  | 0, pos, self => if pos < self.size then .error (.access .outOfFuel) else .ok self
  | n + 1, pos, self =>
    if pos < self.size then do
      let slot ← access (load self.handlers pos)
      if slot.handler.isNone then do
        let self ← self.drop pos
        compact n (sizeT (sizeT (pos - 1) + 1)) self
      else compact n (sizeT (pos + 1)) self
    else .ok self

def clean (self : EventMemory ρ η) : Allocating (EventMemory ρ η) :=
  if self.dirty then do
    let self ← compact self.size 0 self
    .ok { self with dirty := false }
  else .ok self

def reserve (self : EventMemory ρ η) : Allocating (EventMemory ρ η) :=
  if self.size = self.capa then do
    let capa := sizeT (self.capa + EVCHUNKSIZE)
    let handlers ← resize self.handlers (sizeT (capa * HANDLERSIZE)) HANDLERSIZE
    .ok { self with handlers := handlers, capa := capa }
  else .ok self

def register (self : EventMemory ρ η) (receiver : ρ) (handler : η) (id : ℤ) : Allocating (EventMemory ρ η) := do
  let self ← self.clean
  let self ← self.reserve
  let handlers ← access (store self.handlers self.size ⟨receiver,some handler,id,self.registrations⟩)
  .ok { self with handlers := handlers, size := sizeT (self.size + 1), registrations := self.registrations + 1 }

def slots (self : EventMemory ρ η) : Block (EvHandler ρ η) := self.handlers.take self.size

section Identity
variable [DecidableEq ρ] [DecidableEq η]

/-- The loop of `Event_unregister`, with a bound on its passes. -/
def unregisterFrom (receiver : ρ) (handler : η) (id : ℤ) :
    ℕ → ℕ → EventMemory ρ η → Allocating (EventMemory ρ η)
  | 0, pos, self => if pos < self.size then .error (.access .outOfFuel) else .ok self
  | n + 1, pos, self =>
    if pos < self.size then do
      let slot ← access (load self.handlers pos)
      if Matches receiver handler id slot then
        let handlers ← access (store self.handlers pos { slot with handler := none })
        .ok { self with handlers := handlers, dirty := true }
      else unregisterFrom receiver handler id n (sizeT (pos + 1)) self
    else .ok self

def unregister (self : EventMemory ρ η) (receiver : ρ) (handler : η) (id : ℤ) : Allocating (EventMemory ρ η) :=
  unregisterFrom receiver handler id self.size 0 self

def change (self : EventMemory ρ η) : Change ρ η → Allocating (EventMemory ρ η)
  | .register receiver handler id => self.register receiver handler id
  | .unregister receiver handler id => self.unregister receiver handler id

/-- The array after a sequence of calls from `Event_create` on. -/
def run (changes : List (Change ρ η)) : Allocating (EventMemory ρ η) := changes.foldlM change create

end Identity

/-- The memory of an event: its slots are the first cells, and the array has room for them. -/
structure Holds (m : EventMemory ρ η) (e : Event ρ η) : Prop where
  starts : Starts m.handlers e.handlers
  size : m.size = e.handlers.length
  length : m.handlers.length = m.capa
  capa : m.capa = e.capa
  dirty : m.dirty = e.dirty
  registrations : m.registrations = e.registrations
  memory : m.capa * HANDLERSIZE ≤ PTRDIFF_MAX
  ahead : m.capa ≤ e.registrations + 3
  count : e.handlers.length ≤ e.registrations

variable {m : EventMemory ρ η} {e : Event ρ η}

theorem create_holds : Holds (create : EventMemory ρ η) Event.create where
  starts := starts_nil _
  size := rfl
  length := rfl
  capa := rfl
  dirty := rfl
  registrations := rfl
  memory := Nat.zero_le _
  ahead := Nat.zero_le _
  count := Nat.zero_le _

theorem Holds.room (h : Holds m e) : e.handlers.length ≤ m.capa := h.length ▸ h.starts.length_le

/-- An index of a slot is far from the end of `size_t`. -/
theorem Holds.small (h : Holds m e) : m.capa < 1152921504606846976 := by
  have hmem := h.memory
  simp only [HANDLERSIZE,PTRDIFF_MAX] at hmem
  omega

theorem sizeT_back {pos : ℕ} (h : pos < 1152921504606846976) : sizeT (sizeT (pos - 1) + 1) = pos := by
  unfold sizeT
  omega

theorem drop_starts {l₁ l₂ : List (EvHandler ρ η)} {slot : EvHandler ρ η}
    (hs : Starts m.handlers (l₁ ++ slot :: l₂)) (hsize : m.size = l₁.length + (l₂.length + 1))
    (hsmall : m.size < 1152921504606846976) :
    ∃ handlers, m.drop l₁.length = .ok { m with handlers := handlers, size := l₁.length + l₂.length } ∧
      Starts handlers (l₁ ++ l₂) ∧ handlers.length = m.handlers.length := by
  have hback : sizeT (m.size - 1) = l₁.length + l₂.length := sizeT_of_lt (by omega) (by omega)
  unfold drop
  dsimp only
  rw [hback]
  by_cases hlast : 0 < l₂.length
  · obtain ⟨b,hb,hstarts,hlen⟩ := hs.close
    rw [if_pos (by omega),Nat.add_sub_cancel_left,hb]
    exact ⟨b,rfl,hstarts,hlen⟩
  · obtain rfl : l₂ = [] := List.eq_nil_of_length_eq_zero (by omega)
    rw [if_neg (by simp)]
    refine ⟨m.handlers,rfl,?_,rfl⟩
    obtain ⟨rest,hrest⟩ := hs
    exact ⟨holding [slot] ++ rest,by rw [hrest,List.append_nil,holding_append,List.append_assoc]⟩

/-- The loop leaves what is before its index alone and removes the cleared slots behind it. -/
theorem compact_starts {l₁ l₂ : List (EvHandler ρ η)} (hs : Starts m.handlers (l₁ ++ l₂))
    (hsize : m.size = l₁.length + l₂.length) (hsmall : m.size < 1152921504606846976) :
    ∃ handlers, compact l₂.length l₁.length m =
        .ok { m with handlers := handlers, size := l₁.length + (l₂.filter Live).length } ∧
      Starts handlers (l₁ ++ l₂.filter Live) ∧ handlers.length = m.handlers.length := by
  induction l₂ generalizing l₁ m with
  | nil =>
    refine ⟨m.handlers,?_,hs,rfl⟩
    rw [List.length_nil,compact,if_neg (by rw [hsize,List.length_nil]; omega)]
    obtain ⟨handlers,size,capa,dirty,registrations⟩ := m
    rw [show size = l₁.length from hsize]
    rfl
  | cons slot l₂ ih =>
    rw [List.length_cons] at hsize
    rw [List.length_cons,compact,if_pos (by omega),hs.load,access_ok,allocated_bind]
    cases hlive : slot.handler with
    | none =>
      obtain ⟨b,hdrop,hstarts,hlen⟩ := drop_starts hs hsize hsmall
      obtain ⟨handlers,hrun,hstarts',hlen'⟩ :=
        @ih { m with handlers := b, size := l₁.length + l₂.length } l₁ hstarts rfl (by dsimp only; omega)
      rw [if_pos Option.isNone_none,hdrop,allocated_bind,sizeT_back (by omega),hrun,List.filter_cons_of_neg (by simp [Live,hlive])]
      exact ⟨handlers,rfl,hstarts',hlen'.trans hlen⟩
    | some handler =>
      have hnext : sizeT (l₁.length + 1) = (l₁ ++ [slot]).length := by
        rw [List.length_append]
        exact sizeT_of_lt rfl (by simp; omega)
      obtain ⟨handlers,hrun,hstarts,hlen⟩ := @ih m (l₁ ++ [slot]) (by simpa using hs)
        (by rw [hsize]; simp; omega) hsmall
      rw [if_neg (by simp),hnext,hrun,List.filter_cons_of_pos (by simp [Live,hlive])]
      refine ⟨handlers,?_,by simpa using hstarts,hlen⟩
      rw [List.length_append,List.length_cons,List.length_cons,List.length_nil,Nat.add_assoc,Nat.add_comm 1]

theorem Holds.clean (h : Holds m e) (receiver : ρ) (handler : η) (id : ℤ) : ∃ handlers kept, (e.register receiver handler id).handlers =
      kept ++ [⟨receiver,some handler,id,e.registrations⟩] ∧ kept.length ≤ e.handlers.length ∧
    m.clean = .ok { m with handlers := handlers, size := kept.length, dirty := false } ∧
      Starts handlers kept ∧ handlers.length = m.handlers.length ∧
      (e.register receiver handler id).capa = if kept.length = e.capa then e.capa + EVCHUNKSIZE else e.capa := by
  have hsize := h.size
  have hdirty := h.dirty
  unfold EventMemory.clean Event.register
  cases hd : e.dirty with
  | true =>
    have hsmall : m.size < 1152921504606846976 := by
      have := h.small
      have := h.room
      omega
    obtain ⟨handlers,hrun,hstarts,hlen⟩ := @compact_starts _ _ m [] _ (by simpa using h.starts) (by simpa using hsize) hsmall
    have hkept : Event.compact e.size 0 e.handlers = e.handlers.filter Live := by
      rw [compact_eq _ _ _ (Nat.le_refl _)]
      rfl
    rw [← hsize,List.length_nil] at hrun
    rw [if_pos rfl,if_pos (by rw [hdirty,hd]),hkept,hrun]
    refine ⟨handlers,e.handlers.filter Live,rfl,List.length_filter_le _ _,?_,hstarts,hlen,rfl⟩
    rw [allocated_bind,Nat.zero_add]
  | false =>
    rw [if_neg Bool.false_ne_true,if_neg (by rw [hdirty,hd]; exact Bool.false_ne_true)]
    refine ⟨m.handlers,e.handlers,rfl,Nat.le_refl _,?_,h.starts,rfl,rfl⟩
    rw [← hsize,← hd,← hdirty]

/-- A full array grows, as long as memory lets it. -/
theorem reserve_starts {l : List (EvHandler ρ η)} (hs : Starts m.handlers l) (hsize : m.size = l.length)
    (hlen : m.handlers.length = m.capa) (hmem : m.capa * HANDLERSIZE ≤ PTRDIFF_MAX) :
    (∃ handlers capa, m.reserve = .ok { m with handlers := handlers, capa := capa } ∧ Starts handlers l ∧
      handlers.length = capa ∧ capa = (if l.length = m.capa then m.capa + EVCHUNKSIZE else m.capa) ∧
      l.length < capa ∧ capa * HANDLERSIZE ≤ PTRDIFF_MAX) ∨
    (m.reserve = .error .memory ∧ l.length = m.capa ∧ PTRDIFF_MAX < (m.capa + EVCHUNKSIZE) * HANDLERSIZE) := by
  have hle := hs.length_le
  unfold reserve
  rw [hsize]
  by_cases hfull : l.length = m.capa
  · have hcapa : sizeT (m.capa + EVCHUNKSIZE) = m.capa + EVCHUNKSIZE := by
      simp only [HANDLERSIZE,PTRDIFF_MAX] at hmem
      exact sizeT_of_lt rfl (by simp only [EVCHUNKSIZE]; omega)
    have hbytes : sizeT (((m.capa + EVCHUNKSIZE : ℕ) : ℤ) * HANDLERSIZE) = (m.capa + EVCHUNKSIZE) * HANDLERSIZE := by
      simp only [HANDLERSIZE,PTRDIFF_MAX] at hmem
      exact sizeT_of_lt (Int.natCast_mul _ _).symm (by simp only [EVCHUNKSIZE,HANDLERSIZE]; omega)
    rw [if_pos hfull,if_pos hfull,hcapa]
    dsimp only
    rw [hbytes]
    by_cases hroom : (m.capa + EVCHUNKSIZE) * HANDLERSIZE ≤ PTRDIFF_MAX
    · refine .inl ⟨m.handlers ++ malloc (m.capa + EVCHUNKSIZE - m.handlers.length),_,?_,hs.append _,?_,rfl,?_,hroom⟩
      · rw [resize_grow (by omega) (by decide) hroom]
        rfl
      · rw [List.length_append,length_malloc]
        omega
      · simp only [EVCHUNKSIZE]
        omega
    · rw [resize_error (Nat.not_le.mp hroom)]
      exact .inr ⟨rfl,hfull,Nat.not_le.mp hroom⟩
  · rw [if_neg hfull,if_neg hfull]
    exact .inl ⟨m.handlers,m.capa,by rw [← hsize],hs,hlen,rfl,by omega,hmem⟩

/-- Registering does to the array what it does to the event, or there is no memory for it. -/
theorem Holds.register (h : Holds m e) (receiver : ρ) (handler : η) (id : ℤ) :
    (∃ m', m.register receiver handler id = .ok m' ∧ Holds m' (e.register receiver handler id)) ∨
      (m.register receiver handler id = .error .memory ∧ 288230376151711744 ≤ e.registrations) := by
  obtain ⟨handlers,kept,hslots,hkept,hclean,hstarts,hlen,hcapa⟩ := h.clean receiver handler id
  have hcount := h.count
  have hahead := h.ahead
  unfold EventMemory.register
  rw [hclean,allocated_bind]
  rcases reserve_starts (m := { m with handlers := handlers, size := kept.length, dirty := false }) hstarts rfl
      (hlen.trans h.length) h.memory with ⟨b,capa,hres,hb,hblen,hgrow,hroom,hmem⟩ | ⟨hres,hfull,hlarge⟩
  · obtain ⟨b',hstore,hb',hblen'⟩ := hb.store (hblen.symm ▸ hroom) ⟨receiver,some handler,id,e.registrations⟩
    rw [hres,allocated_bind]
    dsimp only
    rw [h.registrations,hstore,access_ok,allocated_bind]
    dsimp only at hgrow
    refine .inl ⟨_,rfl,?_⟩
    exact {
      starts := by rw [hslots]; exact hb'
      size := by
        rw [hslots,List.length_append]
        refine sizeT_of_lt rfl ?_
        simp only [HANDLERSIZE,PTRDIFF_MAX] at hmem
        simp
        omega
      length := hblen'.trans hblen
      capa := by rw [hcapa,← h.capa]; exact hgrow
      dirty := rfl
      registrations := rfl
      memory := hmem
      ahead := by
        change capa ≤ e.registrations + 1 + 3
        rw [hgrow]
        simp only [EVCHUNKSIZE]
        split <;> omega
      count := by
        rw [hslots,List.length_append]
        change kept.length + 1 ≤ e.registrations + 1
        omega }
  · rw [hres]
    refine .inr ⟨rfl,?_⟩
    simp only [EVCHUNKSIZE,HANDLERSIZE,PTRDIFF_MAX] at hfull hlarge
    omega

section Identity
variable [DecidableEq ρ] [DecidableEq η]

/-- The search clears the first slot that matches behind its index. -/
theorem unregisterFrom_starts {l₁ l₂ : List (EvHandler ρ η)} (receiver : ρ) (handler : η) (id : ℤ)
    (hs : Starts m.handlers (l₁ ++ l₂)) (hsize : m.size = l₁.length + l₂.length)
    (hsmall : m.size < 1152921504606846976) :
    ∃ handlers, unregisterFrom receiver handler id l₂.length l₁.length m = .ok { m with
        handlers := handlers, dirty := m.dirty || l₂.any (Matches receiver handler id) } ∧
      Starts handlers (l₁ ++ clearFirst (Matches receiver handler id) l₂) ∧
      handlers.length = m.handlers.length := by
  induction l₂ generalizing l₁ with
  | nil =>
    refine ⟨m.handlers,?_,hs,rfl⟩
    rw [List.length_nil,unregisterFrom,if_neg (by rw [hsize,List.length_nil]; omega),List.any_nil,Bool.or_false]
  | cons slot l₂ ih =>
    rw [List.length_cons] at hsize
    rw [List.length_cons,unregisterFrom,if_pos (by omega),hs.load,access_ok,allocated_bind,clearFirst,List.any_cons]
    by_cases hm : Matches receiver handler id slot = true
    · obtain ⟨b,hstore,hb,hlen⟩ := hs.replace { slot with handler := none }
      rw [if_pos hm,if_pos hm,hstore,hm,Bool.true_or,Bool.or_true]
      exact ⟨b,rfl,hb,hlen⟩
    · have hnext : sizeT (l₁.length + 1) = (l₁ ++ [slot]).length := by
        rw [List.length_append]
        exact sizeT_of_lt rfl (by simp; omega)
      obtain ⟨handlers,hrun,hstarts,hlen⟩ := @ih (l₁ ++ [slot]) (by simpa using hs) (by rw [hsize]; simp; omega)
      rw [if_neg hm,if_neg hm,hnext,hrun,Bool.eq_false_iff.mpr hm,Bool.false_or]
      exact ⟨handlers,rfl,by simpa using hstarts,hlen⟩

/-- Unregistering does to the array what it does to the event. -/
theorem Holds.unregister (h : Holds m e) (receiver : ρ) (handler : η) (id : ℤ) :
    ∃ m', m.unregister receiver handler id = .ok m' ∧ Holds m' (e.unregister receiver handler id) := by
  have hsmall : m.size < 1152921504606846976 := by
    have := h.small
    have := h.room
    have := h.size
    omega
  obtain ⟨handlers,hrun,hstarts,hlen⟩ := @unregisterFrom_starts _ _ m _ _ [] _ receiver handler id
    (by simpa using h.starts) (by simpa using h.size) hsmall
  rw [← h.size] at hrun
  refine ⟨_,hrun,?_⟩
  exact {
    starts := hstarts
    size := h.size.trans (clearFirst_length _ _).symm
    length := hlen.trans h.length
    capa := h.capa
    dirty := by
      dsimp only
      rw [h.dirty]
      rfl
    registrations := h.registrations
    memory := h.memory
    ahead := h.ahead
    count := Nat.le_trans (Nat.le_of_eq (clearFirst_length _ _)) h.count }

theorem Holds.change (h : Holds m e) (c : Change ρ η) : (∃ m', m.change c = .ok m' ∧ Holds m' (e.change c)) ∨
    (m.change c = .error .memory ∧ 288230376151711744 ≤ e.registrations) := by
  cases c with
  | register receiver handler id => exact h.register receiver handler id
  | unregister receiver handler id => exact .inl (h.unregister receiver handler id)

theorem registrations_change (e : Event ρ η) (c : Change ρ η) : (e.change c).registrations ≤ e.registrations + 1 := by
  cases c with
  | register receiver handler id => exact Nat.le_refl _
  | unregister receiver handler id => exact Nat.le_succ _

theorem Holds.changes (h : Holds m e) (changes : List (Change ρ η)) :
    (∃ m', changes.foldlM EventMemory.change m = .ok m' ∧ Holds m' (changes.foldl Event.change e)) ∨
      (changes.foldlM EventMemory.change m = .error .memory ∧ 288230376151711744 < e.registrations + changes.length) := by
  induction changes generalizing m e with
  | nil => exact .inl ⟨m,rfl,h⟩
  | cons c changes ih =>
    have hreg := registrations_change e c
    rw [List.foldlM_cons,List.foldl_cons,List.length_cons]
    rcases h.change c with ⟨m',hm,hh⟩ | ⟨herr,hlarge⟩
    · rw [hm,allocated_bind]
      rcases ih hh with hok | ⟨herr,hlarge⟩
      · exact .inl hok
      · exact .inr ⟨herr,by omega⟩
    · rw [herr]
      exact .inr ⟨rfl,by omega⟩

/-- Every sequence of calls has the effect on the array that it has on the event. -/
theorem run_holds (changes : List (Change ρ η)) : (∃ m, run changes = .ok m ∧ Holds m (after changes)) ∨
    (run changes = .error .memory ∧ 288230376151711744 < changes.length) := by
  have h := create_holds.changes changes
  rwa [show (Event.create : Event ρ η).registrations = 0 from rfl,Nat.zero_add] at h

end Identity

end EventMemory
end LibIrcBot
