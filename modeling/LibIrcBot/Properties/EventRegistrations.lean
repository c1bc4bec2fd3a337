import LibIrcBot.Events.EventMemory

/-! # An event as a list of registrations

The array of an event is cleaned only when the next handler is registered. Without its cleared slots it
is the list that grows at its end and loses the first equal entry.
-/
namespace LibIrcBot
open Blocks Event
variable {ρ η : Type*}

/-- What a slot registers, if its handler has not been cleared. -/
def EvHandler.registration (slot : EvHandler ρ η) : Option (ρ × η × ℤ) :=
  slot.handler.map fun handler => (slot.receiver,handler,slot.id)

namespace EventMemory

/-- The registrations in the slots that may be read, in their order. -/
def registered (self : EventMemory ρ η) : List (ρ × η × ℤ) :=
  self.slots.filterMap fun cell => cell.bind EvHandler.registration

def Clean (self : EventMemory ρ η) : Prop := ∀ cell ∈ self.slots, ∃ slot, cell = some slot ∧ slot.handler ≠ none

variable {m : EventMemory ρ η} {e : Event ρ η}

theorem Holds.slots (h : Holds m e) : m.slots = holding e.handlers := by
  rw [EventMemory.slots,h.size]
  exact h.starts.take

theorem Holds.registered (h : Holds m e) : m.registered = e.handlers.filterMap EvHandler.registration := by
  rw [EventMemory.registered,h.slots,holding,List.filterMap_map]
  rfl

theorem Holds.clean_iff (h : Holds m e) : m.Clean ↔ ∀ slot ∈ e.handlers, Live slot := by
  rw [Clean,h.slots,holding]
  simp [Live,Option.isSome_iff_ne_none]

end EventMemory

namespace Event

theorem registration_live (l : List (EvHandler ρ η)) :
    (l.filter Live).filterMap EvHandler.registration = l.filterMap EvHandler.registration := by
  rw [List.filterMap_filter]
  refine List.filterMap_congr (fun slot _ => ?_)
  cases h : slot.handler <;> simp [Live,EvHandler.registration,h]

variable [DecidableEq ρ] [DecidableEq η]

theorem matches_iff {receiver : ρ} {handler : η} {id : ℤ} {slot : EvHandler ρ η} :
    Matches receiver handler id slot = true ↔ slot.registration = some (receiver,handler,id) := by
  cases h : slot.handler <;> simp [Matches,EvHandler.registration,h,and_assoc]

/-- Clearing the first slot that matches erases the first entry. -/
theorem registration_clearFirst (receiver : ρ) (handler : η) (id : ℤ) (l : List (EvHandler ρ η)) :
    (clearFirst (Matches receiver handler id) l).filterMap EvHandler.registration =
      (l.filterMap EvHandler.registration).erase (receiver,handler,id) := by
  induction l with
  | nil => rfl
  | cons slot l ih =>
    rw [clearFirst]
    by_cases hm : Matches receiver handler id slot = true
    · have hslot := matches_iff.mp hm
      have hnone : ({ slot with handler := none } : EvHandler ρ η).registration = none := rfl
      rw [if_pos hm,List.filterMap_cons_none hnone,List.filterMap_cons_some hslot,List.erase_cons_head]
    · rw [if_neg hm]
      cases hslot : slot.registration with
      | none => rw [List.filterMap_cons_none hslot,List.filterMap_cons_none hslot,ih]
      | some entry =>
        have hne : entry ≠ (receiver,handler,id) := fun he => hm (matches_iff.mpr (he ▸ hslot))
        rw [List.filterMap_cons_some hslot,List.filterMap_cons_some hslot,ih,
          List.erase_cons_tail (by simpa using hne)]

def Change.apply (l : List (ρ × η × ℤ)) : Change ρ η → List (ρ × η × ℤ)
  | .register receiver handler id => l ++ [(receiver,handler,id)]
  | .unregister receiver handler id => l.erase (receiver,handler,id)

def registrationsOf (changes : List (Change ρ η)) : List (ρ × η × ℤ) := changes.foldl Change.apply []

theorem registration_change {e : Event ρ η} (h : e.Wf) (c : Change ρ η) :
    (e.change c).handlers.filterMap EvHandler.registration =
      Change.apply (e.handlers.filterMap EvHandler.registration) c := by
  cases c with
  | register receiver handler id =>
    rw [change,register_handlers h,List.filterMap_append,registration_live]
    rfl
  | unregister receiver handler id => exact registration_clearFirst receiver handler id e.handlers

theorem registration_after (changes : List (Change ρ η)) :
    (after changes).handlers.filterMap EvHandler.registration = registrationsOf changes := by
  induction changes using List.reverseRecOn with
  | nil => rfl
  | append_singleton changes c ih =>
    rw [registrationsOf,List.foldl_append,← registrationsOf,← ih,after,List.foldl_append,← after]
    exact registration_change (after_wf changes) c

/-- The array is clean behind every registration. -/
theorem dirty_register (changes : List (Change ρ η)) (receiver : ρ) (handler : η) (id : ℤ) :
    (after (changes ++ [.register receiver handler id])).dirty = false := by
  rw [after,List.foldl_append]
  rfl

end Event

namespace EventMemory
variable [DecidableEq ρ] [DecidableEq η]

/-- The array after any calls that memory suffices for holds the registrations of a plain list. It does not
outgrow its capacity, it is clean after every registration, and clean whenever it is not marked dirty. -/
theorem run_registrations (changes : List (Change ρ η)) :
    (changes.length ≤ 288230376151711744 → ∃ m, run changes = .ok m) ∧
    (∀ failure, run changes = .error failure → failure = .memory) ∧
    ∀ m, run changes = .ok m →
      m.registered = registrationsOf changes ∧ m.size ≤ m.capa ∧
      (∀ calls receiver handler id, changes = calls ++ [.register receiver handler id] → m.dirty = false ∧ m.Clean) ∧
      (m.dirty = false → m.Clean) := by
  rcases run_holds changes with ⟨m,hm,h⟩ | ⟨herr,hlarge⟩
  · refine ⟨fun _ => ⟨m,hm⟩,fun failure hf => absurd (hm.symm.trans hf) (by simp),fun m' hm' => ?_⟩
    obtain rfl : m = m' := Except.ok.inj (hm.symm.trans hm')
    have hclean : m.dirty = false → m.Clean := fun hd => h.clean_iff.mpr ((after_wf changes).clean (h.dirty ▸ hd))
    refine ⟨h.registered.trans (registration_after changes),h.size ▸ h.room,?_,hclean⟩
    rintro calls receiver handler id rfl
    have hd : m.dirty = false := h.dirty.trans (dirty_register calls receiver handler id)
    exact ⟨hd,hclean hd⟩
  · exact ⟨fun hle => by omega,fun failure hf => (Except.error.inj (herr.symm.trans hf)).symm,
      fun m hm => absurd (herr.symm.trans hm) (by simp)⟩

end EventMemory
end LibIrcBot
