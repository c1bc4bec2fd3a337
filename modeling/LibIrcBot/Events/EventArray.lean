import LibIrcBot.Events.Event
import Mathlib.Data.List.Induction
import Mathlib.Tactic.Common

/-! # What the event array holds

Compaction removes exactly the cleared slots, unregistering clears exactly the first
matching one, and both keep the remaining slots in registration order.
-/
namespace LibIrcBot.Event
variable {ρ η : Type*}

def Live (slot : EvHandler ρ η) : Bool := slot.handler.isSome

theorem compact_eq (n pos : ℕ) (handlers : List (EvHandler ρ η)) (h : handlers.length ≤ n + pos) :
    compact n pos handlers = handlers.take pos ++ (handlers.drop pos).filter Live := by
  induction n generalizing pos handlers with
  | zero => simp [compact,List.take_of_length_le (by omega : handlers.length ≤ pos),
      List.drop_of_length_le (by omega : handlers.length ≤ pos)]
  | succ n ih =>
    rw [compact]
    split
    · next hn =>
      rw [List.getElem?_eq_none_iff] at hn
      simp [List.take_of_length_le hn,List.drop_of_length_le hn]
    · next slot hs =>
      obtain ⟨hlt,hget⟩ := List.getElem?_eq_some_iff.mp hs
      have hdrop : handlers.drop pos = slot :: handlers.drop (pos + 1) := by
        rw [List.drop_eq_getElem_cons hlt,hget]
      split
      · next hnone =>
        have hdead : Live slot = false := by simpa [Live] using hnone
        have hlen : (handlers.take pos).length = pos := by rw [List.length_take]; omega
        rw [ih _ _ (by rw [List.length_eraseIdx_of_lt hlt]; omega),List.eraseIdx_eq_take_drop_succ,
          List.take_left' hlen,List.drop_left' hlen,hdrop,List.filter_cons_of_neg (by simp [hdead])]
      · next hsome =>
        have hlive : Live slot = true := by simpa [Live,Option.isSome_iff_ne_none] using hsome
        rw [ih _ _ (by omega),hdrop,List.filter_cons_of_pos hlive,List.take_succ_eq_append_getElem hlt,hget,
          List.append_assoc]
        rfl

/-- The layout kept by every call: a clean array has no cleared slot, and the ghost
numbers grow from slot to slot. -/
structure Wf (e : Event ρ η) : Prop where
  clean : e.dirty = false → ∀ slot ∈ e.handlers, Live slot
  sorted : e.handlers.Pairwise (fun a b => a.serial < b.serial)
  bound : ∀ slot ∈ e.handlers, slot.serial < e.registrations

theorem create_wf : (create : Event ρ η).Wf := by
  constructor <;> simp [create]

theorem register_handlers {e : Event ρ η} (h : e.Wf) (receiver : ρ) (handler : η) (id : ℤ) :
    (e.register receiver handler id).handlers =
      e.handlers.filter Live ++ [⟨receiver,some handler,id,e.registrations⟩] := by
  unfold register
  cases hd : e.dirty with
  | true => simp [compact_eq]
  | false =>
    have hf : e.handlers.filter Live = e.handlers := List.filter_eq_self.mpr (h.clean hd)
    simp [hf]

theorem register_wf {e : Event ρ η} (h : e.Wf) (receiver : ρ) (handler : η) (id : ℤ) :
    (e.register receiver handler id).Wf := by
  have hh := register_handlers h receiver handler id
  refine ⟨?_,?_,?_⟩
  · intro _ slot hs
    rw [hh,List.mem_append,List.mem_singleton] at hs
    rcases hs with hs | rfl
    · exact (List.mem_filter.mp hs).2
    · rfl
  · rw [hh,List.pairwise_append]
    refine ⟨h.sorted.filter _,List.pairwise_singleton _ _,?_⟩
    intro a ha b hb
    rw [List.mem_singleton.mp hb]
    exact h.bound a (List.mem_of_mem_filter ha)
  · intro slot hs
    rw [hh,List.mem_append,List.mem_singleton] at hs
    have hr : (e.register receiver handler id).registrations = e.registrations + 1 := rfl
    rw [hr]
    rcases hs with hs | rfl
    · exact Nat.lt_succ_of_lt (h.bound slot (List.mem_of_mem_filter hs))
    · exact Nat.lt_succ_self _

section Unregister
variable {p : EvHandler ρ η → Bool}

/-- Either no slot matches, or the first matching one is cleared. -/
theorem clearFirst_cases (p : EvHandler ρ η → Bool) (l : List (EvHandler ρ η)) :
    (clearFirst p l = l ∧ l.find? p = none) ∨
    ∃ a slot b, l = a ++ slot :: b ∧ p slot ∧ l.find? p = some slot ∧
      clearFirst p l = a ++ { slot with handler := none } :: b := by
  induction l with
  | nil => exact Or.inl ⟨rfl,rfl⟩
  | cons x l ih =>
    by_cases hx : p x
    · exact Or.inr ⟨[],x,l,rfl,hx,by simp [hx],by simp [clearFirst,hx]⟩
    · rcases ih with ⟨hc,hf⟩ | ⟨a,slot,b,rfl,hs,hf,hc⟩
      · exact Or.inl ⟨by simp [clearFirst,hx,hc],by simp [hx,hf]⟩
      · exact Or.inr ⟨x :: a,slot,b,rfl,hs,by simpa [hx] using hf,by simp [clearFirst,hx,hc]⟩

theorem clearFirst_map_serial (p : EvHandler ρ η → Bool) (l : List (EvHandler ρ η)) :
    (clearFirst p l).map EvHandler.serial = l.map EvHandler.serial := by
  rcases clearFirst_cases p l with ⟨hc,_⟩ | ⟨a,slot,b,rfl,_,_,hc⟩
  · rw [hc]
  · rw [hc]
    simp

@[simp] theorem clearFirst_length (p : EvHandler ρ η → Bool) (l : List (EvHandler ρ η)) :
    (clearFirst p l).length = l.length := by
  simpa using congrArg List.length (clearFirst_map_serial p l)

end Unregister

theorem unregister_wf [DecidableEq ρ] [DecidableEq η] {e : Event ρ η} (h : e.Wf) (receiver : ρ)
    (handler : η) (id : ℤ) : (e.unregister receiver handler id).Wf := by
  have hm := clearFirst_map_serial (Matches receiver handler id) e.handlers
  refine ⟨?_,?_,?_⟩
  · intro hd slot hs
    simp only [unregister,Bool.or_eq_false_iff] at hd
    rcases clearFirst_cases (Matches receiver handler id) e.handlers with ⟨hc,_⟩ | ⟨a,x,b,hl,hx,_,_⟩
    · exact h.clean hd.1 slot (by simpa only [unregister,hc] using hs)
    · have hmem : x ∈ e.handlers := by rw [hl]; simp
      have hno := List.any_eq_false.mp hd.2 x hmem
      exact absurd hx hno
  · have hs : (e.handlers.map EvHandler.serial).Pairwise (· < ·) := List.pairwise_map.mpr h.sorted
    rw [← hm] at hs
    exact List.pairwise_map.mp hs
  · intro slot hs
    have hs := List.mem_map_of_mem (f := EvHandler.serial) hs
    rw [show (e.unregister receiver handler id).handlers = clearFirst (Matches receiver handler id) e.handlers
      from rfl,hm] at hs
    obtain ⟨x,hx,he⟩ := List.mem_map.mp hs
    exact he ▸ h.bound x hx

/-- The calls that change the registrations of an event. -/
inductive Change (ρ η : Type*) where
  | register (receiver : ρ) (handler : η) (id : ℤ)
  | unregister (receiver : ρ) (handler : η) (id : ℤ)
deriving Repr

section Changes
variable [DecidableEq ρ] [DecidableEq η]

def change (e : Event ρ η) : Change ρ η → Event ρ η
  | .register receiver handler id => e.register receiver handler id
  | .unregister receiver handler id => e.unregister receiver handler id

/-- The event after a sequence of calls from `Event_create` on. -/
def after (changes : List (Change ρ η)) : Event ρ η := changes.foldl change create

theorem change_wf {e : Event ρ η} (h : e.Wf) (c : Change ρ η) : (e.change c).Wf := by
  cases c with
  | register receiver handler id => exact register_wf h receiver handler id
  | unregister receiver handler id => exact unregister_wf h receiver handler id

theorem after_wf (changes : List (Change ρ η)) : (after changes).Wf := by
  induction changes using List.reverseRecOn with
  | nil => exact create_wf
  | append_singleton changes c ih =>
    rw [after,List.foldl_append]
    exact change_wf ih c

end Changes

/-- Cutting a prefix off a filtered list leaves a suffix of the filtered tail. -/
theorem drop_filter_suffix (p : EvHandler ρ η → Bool) (n : ℕ) (l : List (EvHandler ρ η)) :
    (l.filter p).drop n <:+ (l.drop n).filter p := by
  induction n generalizing l with
  | zero => simp
  | succ n ih =>
    cases l with
    | nil => simp
    | cons x l =>
      cases hx : p x with
      | true => simpa [hx] using ih l
      | false =>
        rw [List.filter_cons_of_neg (by simp [hx]),List.drop_succ_cons]
        exact (List.drop_suffix_drop_left _ (Nat.le_succ n)).trans (ih l)

theorem mem_drop_iff {n : ℕ} {l : List (EvHandler ρ η)} {slot : EvHandler ρ η} :
    slot ∈ l.drop n ↔ ∃ a b, l = a ++ slot :: b ∧ n ≤ a.length := by
  constructor
  · intro h
    obtain ⟨a,b,hab⟩ := List.append_of_mem h
    refine ⟨l.take n ++ a,b,?_,?_⟩
    · rw [List.append_assoc,← hab,List.take_append_drop]
    · have hn : n < l.length := by
        by_contra hge
        rw [List.drop_of_length_le (by omega)] at h
        simp at h
      rw [List.length_append,List.length_take]
      omega
  · rintro ⟨a,b,rfl,hn⟩
    rw [List.drop_append_of_le_length hn]
    simp

/-- What lies behind the slot after `a` is in the tail. -/
theorem mem_tail_of_mem_drop {n : ℕ} {a b : List (EvHandler ρ η)} {slot x : EvHandler ρ η}
    (hn : a.length < n) (h : x ∈ (a ++ slot :: b).drop n) : x ∈ b := by
  obtain ⟨m,rfl⟩ : ∃ m, n = a.length + (m + 1) := ⟨n - a.length - 1,by omega⟩
  rw [← List.drop_drop,List.drop_left' rfl,List.drop_succ_cons] at h
  exact List.mem_of_mem_drop h

/-- Replacing one slot changes the tail of the array at that slot only. -/
theorem mem_drop_replace (slot : EvHandler ρ η) {n : ℕ} {a b : List (EvHandler ρ η)} {slot' x : EvHandler ρ η}
    (h : x ∈ (a ++ slot' :: b).drop n) :
    x ∈ (a ++ slot :: b).drop n ∨ (x = slot' ∧ slot ∈ (a ++ slot :: b).drop n) := by
  by_cases hn : n ≤ a.length
  · rw [List.drop_append_of_le_length hn] at h
    rw [List.drop_append_of_le_length hn]
    rcases List.mem_append.mp h with h | h
    · exact Or.inl (List.mem_append_left _ h)
    · rcases List.mem_cons.mp h with h | h
      · exact Or.inr ⟨h,by simp⟩
      · exact Or.inl (List.mem_append_right _ (List.mem_cons_of_mem _ h))
  · obtain ⟨m,hm⟩ : ∃ m, n = a.length + (m + 1) := ⟨n - a.length - 1,by omega⟩
    left
    rw [hm,← List.drop_drop,List.drop_left' rfl,List.drop_succ_cons] at h ⊢
    exact h

end LibIrcBot.Event
