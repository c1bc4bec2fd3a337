import LibIrcBot.Events.EventArray
import LibIrcBot.Foundations.Transitions
import Mathlib.Data.Nat.Basic

/-! # Raising an event whose handlers change it

One pass of `Event_raise` over the slots, interleaved with the registrations and
unregistrations that the handler running at the moment makes on the same event. A
registration compacts the array; the slots behind the running one then move towards
the front, and one that slides to or below the running index is never visited.
-/
namespace LibIrcBot.Event
variable {ρ η : Type*}

/-- What a raise does to the registrations, by the ghost number of each. -/
inductive Notice where
  | invoked (serial : ℕ)
  | unregistered (serial : ℕ)
deriving DecidableEq, Repr

/-- The event, the loop index, whether the handler of that slot is running, and the history. -/
structure Raising (ρ η : Type*) where
  event : Event ρ η
  i : ℕ
  running : Bool
  history : List Notice

/-- The loop of `Event_raise` advances or a handler returns; a running handler may
register and unregister. -/
inductive RaiseAct (ρ η : Type*) where
  | advance
  | finish
  | register (receiver : ρ) (handler : η) (id : ℤ)
  | unregister (receiver : ρ) (handler : η) (id : ℤ)
deriving Repr

namespace Raising

def start (e : Event ρ η) : Raising ρ η where
  event := e
  i := 0
  running := false
  history := []

def ahead (s : Raising ρ η) : ℕ := if s.running then s.i + 1 else s.i

def pending (s : Raising ρ η) : List (EvHandler ρ η) := s.event.handlers.drop s.ahead

def Finished (s : Raising ρ η) : Prop := s.running = false ∧ s.event.size ≤ s.i

variable [DecidableEq ρ] [DecidableEq η]

/-- One act under a raise with the given id; an act that cannot happen is an error. -/
def step (id : ℤ) : RaiseAct ρ η → Raising ρ η → Except Unit (Raising ρ η)
  | .advance, s =>
    if s.running then .error ()
    else match s.event.handlers[s.i]? with
      | none => .error ()
      | some slot =>
        if slot.id = id && Live slot then
          .ok { s with running := true, history := s.history ++ [.invoked slot.serial] }
        else .ok { s with i := s.i + 1 }
  | .finish, s => if s.running then .ok { s with running := false, i := s.i + 1 } else .error ()
  | .register receiver handler k, s =>
    if s.running then .ok { s with event := s.event.register receiver handler k } else .error ()
  | .unregister receiver handler k, s =>
    if s.running then
      .ok { s with
        event := s.event.unregister receiver handler k
        history := s.history ++ ((s.event.handlers.find? (Matches receiver handler k)).map
          (fun slot => Notice.unregistered slot.serial)).toList }
    else .error ()

end Raising

open Raising

/-- The registrations that a raise of `e` with this id has to serve. -/
def due (id : ℤ) (e : Event ρ η) : List ℕ :=
  (e.handlers.filter (fun slot => Live slot && slot.id = id)).map EvHandler.serial

/-- The raise serves its registrations: invocations happen in registration order and never
twice, none follows an unregistration, and a due registration that has been neither invoked
nor unregistered is still ahead of the loop. -/
structure Serves (id : ℤ) (e : Event ρ η) (s : Raising ρ η) : Prop where
  order : s.history.Pairwise (fun a b => ∀ m n, a = .invoked m → b = .invoked n → m < n)
  live : s.history.Pairwise (fun a b => ∀ n, a = .unregistered n → b ≠ .invoked n)
  waiting : ∀ n ∈ due id e, .invoked n ∈ s.history ∨ .unregistered n ∈ s.history ∨
    ∃ slot ∈ s.pending, slot.serial = n ∧ Live slot

/-- When the loop has ended every due registration was invoked, unless it was unregistered first. -/
theorem Serves.complete {id : ℤ} {e : Event ρ η} {s : Raising ρ η} (h : Serves id e s)
    (hf : s.Finished) : ∀ n ∈ due id e, .invoked n ∈ s.history ∨ .unregistered n ∈ s.history := by
  intro n hn
  rcases h.waiting n hn with hi | hu | ⟨slot,hs,_⟩
  · exact Or.inl hi
  · exact Or.inr hu
  · simp [pending,ahead,hf.1,List.drop_of_length_le hf.2] at hs

/-- A registration made while slot `i` runs moves no due slot from behind `i` to `i` or
below: at least `i + 1` live slots stay in front of each of them. -/
def Keeps (id : ℤ) (e : Event ρ η) (s : Raising ρ η) : RaiseAct ρ η → Prop
  | .register _ _ _ => s.event.dirty → ∀ a slot b, s.event.handlers = a ++ slot :: b →
      Live slot → slot.id = id → slot.serial < e.registrations → s.i < a.length →
      s.i < (a.filter Live).length
  | _ => True

/-- What holds throughout a raise, whatever the handlers do. -/
structure RaiseInv (id : ℤ) (e : Event ρ η) (s : Raising ρ η) : Prop where
  wf : s.event.Wf
  old : ∀ n ∈ due id e, n < e.registrations
  grows : e.registrations ≤ s.event.registrations
  /-- An old slot still stands for a registration that was there at the start. -/
  origin : ∀ slot ∈ s.event.handlers, slot.serial < e.registrations → Live slot →
    slot.id = id → slot.serial ∈ due id e
  kept : ∀ slot ∈ s.event.handlers, slot.serial ∈ due id e → slot.id = id
  /-- Everything invoked was registered before everything still ahead. -/
  passed : ∀ n, .invoked n ∈ s.history → n < s.event.registrations ∧ ∀ slot ∈ s.pending, n < slot.serial
  gone : ∀ n, .unregistered n ∈ s.history → n < s.event.registrations ∧
    ∀ slot ∈ s.event.handlers, slot.serial = n → Live slot = false
  order : s.history.Pairwise (fun a b => ∀ m n, a = .invoked m → b = .invoked n → m < n)
  live : s.history.Pairwise (fun a b => ∀ n, a = .unregistered n → b ≠ .invoked n)

theorem Wf.serial_inj {e : Event ρ η} (h : e.Wf) {x y : EvHandler ρ η} (hx : x ∈ e.handlers)
    (hy : y ∈ e.handlers) (he : x.serial = y.serial) : x = y := by
  by_contra hne
  have hs := List.pairwise_iff_getElem.mp h.sorted
  obtain ⟨i,hi,rfl⟩ := List.mem_iff_getElem.mp hx
  obtain ⟨j,hj,rfl⟩ := List.mem_iff_getElem.mp hy
  rcases lt_trichotomy i j with hij | rfl | hij
  · exact absurd he (Nat.ne_of_lt (hs i j hi hj hij))
  · exact hne rfl
  · exact absurd he (Nat.ne_of_gt (hs j i hj hi hij))

theorem due_lt {id : ℤ} {e : Event ρ η} (h : e.Wf) {n : ℕ} (hn : n ∈ due id e) : n < e.registrations := by
  obtain ⟨slot,hs,rfl⟩ := List.mem_map.mp hn
  exact h.bound slot (List.mem_of_mem_filter hs)

theorem raiseInv_start (id : ℤ) {e : Event ρ η} (h : e.Wf) : RaiseInv id e (start e) where
  wf := h
  old _ hn := due_lt h hn
  grows := le_rfl
  origin slot hs _ hl hid := List.mem_map.mpr ⟨slot,List.mem_filter.mpr ⟨hs,by simp [hl,hid]⟩,rfl⟩
  kept slot hs hd := by
    obtain ⟨x,hx,he⟩ := List.mem_map.mp hd
    obtain ⟨hx,hp⟩ := List.mem_filter.mp hx
    simp only [Bool.and_eq_true,decide_eq_true_eq] at hp
    exact h.serial_inj hx hs he ▸ hp.2
  passed n hn := by simp [start] at hn
  gone n hn := by simp [start] at hn
  order := by simp [start]
  live := by simp [start]

theorem serves_start (id : ℤ) (e : Event ρ η) : Serves id e (start e) where
  order := by simp [start]
  live := by simp [start]
  waiting n hn := by
    obtain ⟨slot,hs,rfl⟩ := List.mem_map.mp hn
    obtain ⟨hs,hp⟩ := List.mem_filter.mp hs
    simp only [Bool.and_eq_true] at hp
    exact Or.inr (Or.inr ⟨slot,by simpa [pending,ahead,start] using hs,rfl,hp.1⟩)

/-- Moving on in the same array keeps everything about the slots that stay ahead. -/
theorem RaiseInv.move {id : ℤ} {e : Event ρ η} {s t : Raising ρ η} (h : RaiseInv id e s)
    (he : t.event = s.event) (hh : t.history = s.history) (hp : ∀ slot ∈ t.pending, slot ∈ s.pending) :
    RaiseInv id e t where
  wf := he ▸ h.wf
  old := h.old
  grows := he ▸ h.grows
  origin := he ▸ h.origin
  kept := he ▸ h.kept
  passed n hn := by
    rw [hh] at hn
    exact ⟨he ▸ (h.passed n hn).1,fun slot hs => (h.passed n hn).2 slot (hp slot hs)⟩
  gone := by rw [he,hh]; exact h.gone
  order := hh ▸ h.order
  live := hh ▸ h.live

section Steps
variable [DecidableEq ρ] [DecidableEq η] {id : ℤ} {e : Event ρ η} {s t : Raising ρ η}

/-- The loop comes to slot `i`: it either runs the handler there or goes on. -/
theorem advance_cases (hs : step id .advance s = .ok t) :
    s.running = false ∧ ∃ slot, s.event.handlers[s.i]? = some slot ∧
      ((slot.id = id ∧ Live slot ∧
          t = { s with running := true, history := s.history ++ [.invoked slot.serial] }) ∨
        (¬ (slot.id = id ∧ Live slot) ∧ t = { s with i := s.i + 1 })) := by
  cases hr : s.running with
  | true => simp [step,hr] at hs
  | false =>
    refine ⟨rfl,?_⟩
    simp only [step,hr,Bool.false_eq_true,↓reduceIte] at hs
    cases hg : s.event.handlers[s.i]? with
    | none => simp [hg] at hs
    | some slot =>
      refine ⟨slot,rfl,?_⟩
      simp only [hg] at hs
      by_cases hm : slot.id = id ∧ Live slot
      · rw [if_pos (by simp [hm.1,hm.2])] at hs
        exact Or.inl ⟨hm.1,hm.2,(Except.ok.inj hs).symm⟩
      · rw [if_neg (by simpa using hm)] at hs
        exact Or.inr ⟨hm,(Except.ok.inj hs).symm⟩

theorem finish_cases (hs : step id .finish s = .ok t) :
    s.running = true ∧ t = { s with running := false, i := s.i + 1 } := by
  cases hr : s.running with
  | true =>
    simp only [step,hr,↓reduceIte] at hs
    exact ⟨rfl,(Except.ok.inj hs).symm⟩
  | false => simp [step,hr] at hs

theorem register_cases {receiver : ρ} {handler : η} {k : ℤ} (hs : step id (.register receiver handler k) s = .ok t) :
    s.running = true ∧ t = { s with event := s.event.register receiver handler k } := by
  cases hr : s.running with
  | true =>
    simp only [step,hr,↓reduceIte] at hs
    exact ⟨rfl,(Except.ok.inj hs).symm⟩
  | false => simp [step,hr] at hs

theorem unregister_cases {receiver : ρ} {handler : η} {k : ℤ}
    (hs : step id (.unregister receiver handler k) s = .ok t) :
    s.running = true ∧ t.i = s.i ∧ t.running = true ∧
      t.event = s.event.unregister receiver handler k ∧
      ((s.event.handlers.find? (Matches receiver handler k) = none ∧ t.event.handlers = s.event.handlers ∧
          t.history = s.history) ∨
        ∃ a slot b, s.event.handlers = a ++ slot :: b ∧ Live slot ∧
          t.event.handlers = a ++ { slot with handler := none } :: b ∧
          t.history = s.history ++ [.unregistered slot.serial]) := by
  cases hr : s.running with
  | false => simp [step,hr] at hs
  | true =>
    simp only [step,hr,↓reduceIte] at hs
    have ht := (Except.ok.inj hs).symm
    subst ht
    refine ⟨rfl,rfl,rfl,rfl,?_⟩
    rcases clearFirst_cases (Matches receiver handler k) s.event.handlers with
      ⟨hc,hf⟩ | ⟨a,slot,b,hl,hm,hf,hc⟩
    · exact Or.inl ⟨hf,hc,by simp [hf]⟩
    · refine Or.inr ⟨a,slot,b,hl,?_,hc,by simp [hf]⟩
      simp only [Matches,Bool.and_eq_true,decide_eq_true_eq] at hm
      simp [Live,hm.1.2]

omit [DecidableEq ρ] [DecidableEq η] in
theorem pending_of_running (hr : s.running = true) : s.pending = s.event.handlers.drop (s.i + 1) := by
  simp [pending,ahead,hr]

omit [DecidableEq ρ] [DecidableEq η] in
theorem pending_of_idle (hr : s.running = false) : s.pending = s.event.handlers.drop s.i := by
  simp [pending,ahead,hr]

omit [DecidableEq ρ] [DecidableEq η] in
/-- The slot the loop comes to and the ones behind it. -/
theorem pending_cons (hr : s.running = false) {slot : EvHandler ρ η}
    (hg : s.event.handlers[s.i]? = some slot) : s.pending = slot :: s.event.handlers.drop (s.i + 1) := by
  obtain ⟨hlt,hg⟩ := List.getElem?_eq_some_iff.mp hg
  rw [pending_of_idle hr,List.drop_eq_getElem_cons hlt,hg]

omit [DecidableEq ρ] [DecidableEq η] in
theorem RaiseInv.invoke (h : RaiseInv id e s) (hr : s.running = false) {slot : EvHandler ρ η}
    (hg : s.event.handlers[s.i]? = some slot) (hl : Live slot) :
    RaiseInv id e { s with running := true, history := s.history ++ [.invoked slot.serial] } := by
  have hp := pending_cons hr hg
  have hmem : slot ∈ s.event.handlers := List.mem_of_getElem? hg
  have hnew : ∀ n, .invoked n ∈ s.history ++ [Notice.invoked slot.serial] →
      .invoked n ∈ s.history ∨ n = slot.serial := by
    intro n hn
    rcases List.mem_append.mp hn with hn | hn
    · exact Or.inl hn
    · exact Or.inr (Notice.invoked.inj (List.mem_singleton.mp hn))
  refine ⟨h.wf,h.old,h.grows,h.origin,h.kept,?_,?_,?_,?_⟩
  · intro n hn
    have hsub : s.event.handlers.drop (s.i + 1) ⊆ s.pending := by rw [hp]; exact List.subset_cons_self _ _
    rw [pending_of_running rfl]
    rcases hnew n hn with hn | rfl
    · exact ⟨(h.passed n hn).1,fun x hx => (h.passed n hn).2 x (hsub hx)⟩
    · refine ⟨h.wf.bound slot hmem,?_⟩
      have hsorted := h.wf.sorted.sublist (List.drop_sublist s.i s.event.handlers)
      rw [← pending_of_idle hr,hp] at hsorted
      exact (List.pairwise_cons.mp hsorted).1
  · intro n hn
    refine h.gone n ?_
    rcases List.mem_append.mp hn with hn | hn
    · exact hn
    · simp at hn
  · refine List.pairwise_append.mpr ⟨h.order,List.pairwise_singleton _ _,?_⟩
    intro a ha b hb m n hm hn
    rw [List.mem_singleton.mp hb] at hn
    rw [← Notice.invoked.inj hn]
    exact (h.passed m (hm ▸ ha)).2 slot (by rw [hp]; exact List.mem_cons_self)
  · refine List.pairwise_append.mpr ⟨h.live,List.pairwise_singleton _ _,?_⟩
    intro a ha b hb n hn
    rw [List.mem_singleton.mp hb]
    intro he
    have hdead := (h.gone n (hn ▸ ha)).2 slot hmem (Notice.invoked.inj he)
    rw [hl] at hdead
    cases hdead

omit [DecidableEq ρ] [DecidableEq η] in
/-- Slots ahead of the running one after a registration were ahead of it before. -/
theorem pending_register (h : RaiseInv id e s) (hr : s.running = true) (receiver : ρ) (handler : η) (k : ℤ)
    {slot : EvHandler ρ η}
    (hs : slot ∈ ({ s with event := s.event.register receiver handler k } : Raising ρ η).pending) :
    slot ∈ s.pending ∨ slot.serial = s.event.registrations := by
  rw [pending_of_running (s := s) hr]
  rw [pending_of_running (by exact hr)] at hs
  dsimp only at hs
  rw [register_handlers h.wf,List.drop_append,List.mem_append] at hs
  rcases hs with hs | hs
  · exact Or.inl (List.mem_of_mem_filter ((drop_filter_suffix Live _ _).subset hs))
  · exact Or.inr (by rw [List.mem_singleton.mp (List.mem_of_mem_drop hs)])

omit [DecidableEq ρ] [DecidableEq η] in
theorem RaiseInv.register (h : RaiseInv id e s) (hr : s.running = true) (receiver : ρ) (handler : η) (k : ℤ) :
    RaiseInv id e { s with event := s.event.register receiver handler k } := by
  have hmem : ∀ slot ∈ (s.event.register receiver handler k).handlers,
      slot ∈ s.event.handlers ∨ slot.serial = s.event.registrations := by
    intro slot hs
    rw [register_handlers h.wf,List.mem_append,List.mem_singleton] at hs
    rcases hs with hs | rfl
    · exact Or.inl (List.mem_of_mem_filter hs)
    · exact Or.inr rfl
  have hgrow : (s.event.register receiver handler k).registrations = s.event.registrations + 1 := rfl
  refine ⟨register_wf h.wf receiver handler k,h.old,by dsimp only; rw [hgrow]; exact Nat.le_succ_of_le h.grows,
    ?_,?_,?_,?_,h.order,h.live⟩
  · intro slot hs hlt hl hid
    rcases hmem slot hs with hs | hs
    · exact h.origin slot hs hlt hl hid
    · exact absurd hlt (by rw [hs]; exact h.grows.not_gt)
  · intro slot hs hd
    rcases hmem slot hs with hs | hs
    · exact h.kept slot hs hd
    · exact absurd (h.old _ hd) (by rw [hs]; exact h.grows.not_gt)
  · intro n hn
    refine ⟨by dsimp only; rw [hgrow]; exact Nat.lt_succ_of_lt (h.passed n hn).1,?_⟩
    intro slot hs
    rcases pending_register h hr receiver handler k hs with hs | hs
    · exact (h.passed n hn).2 slot hs
    · rw [hs]
      exact (h.passed n hn).1
  · intro n hn
    refine ⟨by dsimp only; rw [hgrow]; exact Nat.lt_succ_of_lt (h.gone n hn).1,?_⟩
    intro slot hs he
    rcases hmem slot hs with hs | hs
    · exact (h.gone n hn).2 slot hs he
    · exact absurd (he ▸ hs) (Nat.ne_of_lt (h.gone n hn).1)

omit [DecidableEq ρ] [DecidableEq η] in
/-- Clearing one live slot and noting its number. -/
theorem RaiseInv.clear (h : RaiseInv id e s) (hw : t.event.Wf) (hi : t.ahead = s.ahead)
    (hg : t.event.registrations = s.event.registrations) {a b : List (EvHandler ρ η)} {slot : EvHandler ρ η}
    (hl : s.event.handlers = a ++ slot :: b) (hc : t.event.handlers = a ++ { slot with handler := none } :: b)
    (hh : t.history = s.history ++ [.unregistered slot.serial]) : RaiseInv id e t := by
  have hslot : slot ∈ s.event.handlers := by rw [hl]; simp
  have hmem : ∀ x ∈ t.event.handlers, x ∈ s.event.handlers ∨ x = { slot with handler := none } := by
    intro x hx
    rw [hc] at hx
    have hd := mem_drop_replace slot (n := 0) hx
    rw [List.drop_zero,← hl] at hd
    exact hd.imp_right And.left
  refine ⟨hw,h.old,hg ▸ h.grows,?_,?_,?_,?_,?_,?_⟩
  · intro x hx hlt hlive hid
    rcases hmem x hx with hx | rfl
    · exact h.origin x hx hlt hlive hid
    · cases hlive
  · intro x hx hd
    rcases hmem x hx with hx | rfl
    · exact h.kept x hx hd
    · exact h.kept slot hslot hd
  · intro n hn
    rw [hh,List.mem_append,List.mem_singleton] at hn
    rcases hn with hn | hn
    · refine ⟨hg ▸ (h.passed n hn).1,fun x hx => ?_⟩
      rw [pending,hi,hc] at hx
      have hd := mem_drop_replace slot hx
      rw [← hl] at hd
      rcases hd with hd | ⟨rfl,hd⟩
      · exact (h.passed n hn).2 x hd
      · exact (h.passed n hn).2 slot hd
    · cases hn
  · intro n hn
    rw [hh,List.mem_append,List.mem_singleton] at hn
    rcases hn with hn | hn
    · refine ⟨hg ▸ (h.gone n hn).1,fun x hx he => ?_⟩
      rcases hmem x hx with hx | rfl
      · exact (h.gone n hn).2 x hx he
      · rfl
    · rw [Notice.unregistered.inj hn]
      refine ⟨hg ▸ h.wf.bound slot hslot,fun x hx he => ?_⟩
      have hc' : ({ slot with handler := none } : EvHandler ρ η) ∈ t.event.handlers := by rw [hc]; simp
      rw [hw.serial_inj hx hc' he]
      rfl
  · rw [hh]
    refine List.pairwise_append.mpr ⟨h.order,List.pairwise_singleton _ _,?_⟩
    intro x _ y hy m n _ hn
    rw [List.mem_singleton.mp hy] at hn
    cases hn
  · rw [hh]
    refine List.pairwise_append.mpr ⟨h.live,List.pairwise_singleton _ _,?_⟩
    intro x _ y hy n _ hn
    rw [List.mem_singleton.mp hy] at hn
    cases hn

/-- Every act keeps the invariant, whether or not a due slot is lost. -/
theorem raiseInv_step {act : RaiseAct ρ η} (h : RaiseInv id e s) (hs : step id act s = .ok t) :
    RaiseInv id e t := by
  cases act with
  | advance =>
    obtain ⟨hr,slot,hg,⟨_,hl,rfl⟩ | ⟨_,rfl⟩⟩ := advance_cases hs
    · exact h.invoke hr hg hl
    · refine h.move rfl rfl (fun x hx => ?_)
      rw [pending_cons hr hg]
      exact List.mem_cons_of_mem _ (by rwa [pending_of_idle (by exact hr)] at hx)
  | finish =>
    obtain ⟨hr,rfl⟩ := finish_cases hs
    exact h.move rfl rfl (fun x hx => by rwa [pending_of_running hr])
  | register receiver handler k =>
    obtain ⟨hr,rfl⟩ := register_cases hs
    exact h.register hr receiver handler k
  | unregister receiver handler k =>
    obtain ⟨hr,hi,hr',he,⟨_,hl,hh⟩ | ⟨a,slot,b,hl,_,hc,hh⟩⟩ := unregister_cases hs
    · have hw : t.event.Wf := he ▸ unregister_wf h.wf receiver handler k
      have hg : t.event.registrations = s.event.registrations := by rw [he]; rfl
      have hp : t.pending = s.pending := by rw [pending_of_running hr,pending_of_running hr',hl,hi]
      refine ⟨hw,h.old,hg ▸ h.grows,hl ▸ h.origin,hl ▸ h.kept,?_,?_,hh ▸ h.order,hh ▸ h.live⟩
      · rw [hh,hp,hg]
        exact h.passed
      · rw [hh,hl,hg]
        exact h.gone
    · refine h.clear (he ▸ unregister_wf h.wf receiver handler k) ?_ (by rw [he]; rfl) hl hc hh
      simp [ahead,hr,hr',hi]

/-- An act that meets the condition leaves every due registration served or ahead. -/
theorem waiting_step {act : RaiseAct ρ η} (h : RaiseInv id e s) (hk : Keeps id e s act)
    (hw : ∀ n ∈ due id e, .invoked n ∈ s.history ∨ .unregistered n ∈ s.history ∨
      ∃ slot ∈ s.pending, slot.serial = n ∧ Live slot) (hs : step id act s = .ok t) :
    ∀ n ∈ due id e, .invoked n ∈ t.history ∨ .unregistered n ∈ t.history ∨
      ∃ slot ∈ t.pending, slot.serial = n ∧ Live slot := by
  intro n hn
  cases act with
  | advance =>
    obtain ⟨hr,slot,hg,⟨hid,hl,rfl⟩ | ⟨hno,rfl⟩⟩ := advance_cases hs
    · rcases hw n hn with hi | hu | ⟨x,hx,rfl,hxl⟩
      · exact Or.inl (List.mem_append_left _ hi)
      · exact Or.inr (Or.inl (List.mem_append_left _ hu))
      · rw [pending_cons hr hg] at hx
        rcases List.mem_cons.mp hx with rfl | hx
        · exact Or.inl (by simp)
        · exact Or.inr (Or.inr ⟨x,by rwa [pending_of_running rfl],rfl,hxl⟩)
    · rcases hw n hn with hi | hu | ⟨x,hx,rfl,hxl⟩
      · exact Or.inl hi
      · exact Or.inr (Or.inl hu)
      · have hid : x.id = id := h.kept x (List.mem_of_mem_drop hx) hn
        rw [pending_cons hr hg] at hx
        rcases List.mem_cons.mp hx with rfl | hx
        · exact absurd ⟨hid,hxl⟩ hno
        · exact Or.inr (Or.inr ⟨x,by rwa [pending_of_idle (by exact hr)],rfl,hxl⟩)
  | finish =>
    obtain ⟨hr,rfl⟩ := finish_cases hs
    rw [pending_of_running hr] at hw
    exact hw n hn
  | register receiver handler k =>
    obtain ⟨hr,rfl⟩ := register_cases hs
    rcases hw n hn with hi | hu | ⟨x,hx,rfl,hxl⟩
    · exact Or.inl hi
    · exact Or.inr (Or.inl hu)
    · refine Or.inr (Or.inr ⟨x,?_,rfl,hxl⟩)
      have hid : x.id = id := h.kept x (List.mem_of_mem_drop hx) hn
      rw [pending_of_running hr] at hx
      rw [pending_of_running (by exact hr)]
      dsimp only
      obtain ⟨a,b,hab,ha⟩ := mem_drop_iff.mp hx
      -- The live slots in front of `x` decide where the compaction puts it.
      have hroom : s.i < (a.filter Live).length := by
        cases hd : s.event.dirty with
        | true => exact hk hd a x b hab hxl hid (h.old _ hn) ha
        | false =>
          have hall : a.filter Live = a := List.filter_eq_self.mpr (fun y hy =>
            h.wf.clean hd y (by rw [hab]; exact List.mem_append_left _ hy))
          rw [hall]
          exact ha
      rw [register_handlers h.wf,hab,List.filter_append,List.filter_cons_of_pos hxl,List.append_assoc]
      exact mem_drop_iff.mpr ⟨_,_,rfl,hroom⟩
  | unregister receiver handler k =>
    obtain ⟨hr,hi,hr',he,⟨_,hl,hh⟩ | ⟨a,slot,b,hl,_,hc,hh⟩⟩ := unregister_cases hs
    · have hp : t.pending = s.pending := by rw [pending_of_running hr,pending_of_running hr',hl,hi]
      rw [hh,hp]
      exact hw n hn
    · rw [hh]
      rcases hw n hn with hin | hu | ⟨x,hx,rfl,hxl⟩
      · exact Or.inl (List.mem_append_left _ hin)
      · exact Or.inr (Or.inl (List.mem_append_left _ hu))
      · rw [pending_of_running hr,hl] at hx
        rw [pending_of_running hr',hc,hi]
        rcases mem_drop_replace { slot with handler := none } hx with hx | ⟨rfl,_⟩
        · exact Or.inr (Or.inr ⟨x,hx,rfl,hxl⟩)
        · exact Or.inr (Or.inl (by simp))

/-- Breaking the condition loses a due registration: afterwards it is neither served nor ahead. -/
theorem not_serves_of_not_keeps {act : RaiseAct ρ η} (h : RaiseInv id e s) (hk : ¬ Keeps id e s act)
    (hs : step id act s = .ok t) : ¬ Serves id e t := by
  cases act with
  | advance => exact absurd trivial hk
  | finish => exact absurd trivial hk
  | unregister receiver handler k => exact absurd trivial hk
  | register receiver handler k =>
    obtain ⟨hr,rfl⟩ := register_cases hs
    simp only [Keeps,not_forall] at hk
    obtain ⟨_,a,x,b,hab,hxl,hid,hlt,ha,hroom⟩ := hk
    have hmem : x ∈ s.event.handlers := by rw [hab]; simp
    have hahead : x ∈ s.pending := by
      rw [pending_of_running hr]
      exact mem_drop_iff.mpr ⟨a,b,hab,ha⟩
    intro hserves
    rcases hserves.waiting x.serial (h.origin x hmem hlt hxl hid) with hi | hu | ⟨y,hy,he,_⟩
    · exact lt_irrefl _ ((h.passed _ hi).2 x hahead)
    · have hdead := (h.gone _ hu).2 x hmem rfl
      rw [hxl] at hdead
      cases hdead
    · -- `x` now has at most `i` slots in front of it, so it is not behind the running one.
      have hw' := register_wf h.wf receiver handler k
      have hh := register_handlers h.wf receiver handler k
      rw [hab,List.filter_append,List.filter_cons_of_pos hxl,List.append_assoc,List.cons_append] at hh
      rw [pending_of_running (by exact hr)] at hy
      dsimp only at hy
      rw [hh] at hy
      have hsorted := hw'.sorted
      rw [hh] at hsorted
      have hlater := (List.pairwise_cons.mp (List.pairwise_append.mp hsorted).2.1).1
      have hlt := hlater y (mem_tail_of_mem_drop (by omega) hy)
      rw [he] at hlt
      exact lt_irrefl _ hlt

end Steps

/-! ## Whole raises -/

section Raises
variable [DecidableEq ρ] [DecidableEq η]

def raising (id : ℤ) (e : Event ρ η) (acts : List (RaiseAct ρ η)) : Except Unit (Raising ρ η) :=
  acts.foldlM (fun s act => step id act s) (start e)

theorem raising_concat (id : ℤ) (e : Event ρ η) (acts : List (RaiseAct ρ η)) (act : RaiseAct ρ η) :
    raising id e (acts ++ [act]) = (raising id e acts >>= step id act) := by
  simp [raising]

theorem raising_concat_ok {id : ℤ} {e : Event ρ η} {acts : List (RaiseAct ρ η)} {act : RaiseAct ρ η}
    {t : Raising ρ η} (h : raising id e (acts ++ [act]) = .ok t) :
    ∃ s, raising id e acts = .ok s ∧ step id act s = .ok t := by
  rw [raising_concat] at h
  cases hs : raising id e acts with
  | error u => rw [hs] at h; cases h
  | ok s => rw [hs] at h; exact ⟨s,rfl,h⟩

theorem raising_inv {id : ℤ} {e : Event ρ η} (h : e.Wf) (acts : List (RaiseAct ρ η)) {s : Raising ρ η}
    (hs : raising id e acts = .ok s) : RaiseInv id e s := by
  induction acts using List.reverseRecOn generalizing s with
  | nil =>
    cases hs
    exact raiseInv_start id h
  | append_singleton acts act ih =>
    obtain ⟨r,hr,hs⟩ := raising_concat_ok hs
    exact raiseInv_step (ih hr) hs

/-- A raise serves its registrations at every point of its run exactly if none of the
registrations made meanwhile moves a due slot to or below the running index. At the end
every due registration then was invoked once, unless it was unregistered first. -/
theorem raising_serves_iff (id : ℤ) (changes : List (Change ρ η)) (acts : List (RaiseAct ρ η)) :
    ((∀ pre s, pre <+: acts → raising id (after changes) pre = .ok s → Serves id (after changes) s) ↔
      ∀ pre act s t, pre ++ [act] <+: acts → raising id (after changes) pre = .ok s →
        step id act s = .ok t → Keeps id (after changes) s act) ∧
    ∀ s, Serves id (after changes) s → s.Finished → ∀ n ∈ due id (after changes),
      s.history.count (.invoked n) = 1 ∨ .unregistered n ∈ s.history := by
  have hw := after_wf changes
  refine ⟨⟨?_,?_⟩,?_⟩
  · intro h pre act s t hp hs ht
    by_contra hk
    have hrun : raising id (after changes) (pre ++ [act]) = .ok t := by rw [raising_concat,hs]; exact ht
    exact not_serves_of_not_keeps (raising_inv hw pre hs) hk ht (h _ t hp hrun)
  · intro h pre s hp hs
    have hinv := raising_inv hw pre hs
    refine ⟨hinv.order,hinv.live,?_⟩
    clear hinv
    induction pre using List.reverseRecOn generalizing s with
    | nil =>
      cases hs
      exact (serves_start id _).waiting
    | append_singleton pre act ih =>
      obtain ⟨r,hr,ht⟩ := raising_concat_ok hs
      exact waiting_step (raising_inv hw pre hr) (h pre act r s hp hr ht)
        (ih r ((List.prefix_append pre [act]).trans hp) hr) ht
  · intro s hs hf n hn
    rcases hs.complete hf n hn with hi | hu
    · left
      have hle : s.history.count (.invoked n) ≤ 1 := by
        by_contra hlt
        rw [List.count_eq_length_filter] at hlt
        obtain ⟨x,y,l,hl⟩ : ∃ x y l, s.history.filter (· == .invoked n) = x :: y :: l := by
          rcases hl : s.history.filter (· == .invoked n) with _ | ⟨x,_ | ⟨y,l⟩⟩
          · simp [hl] at hlt
          · simp [hl] at hlt
          · exact ⟨x,y,l,hl⟩
        have hx : ∀ z ∈ x :: y :: l, z = Notice.invoked n := by
          intro z hz
          rw [← hl] at hz
          exact eq_of_beq (List.mem_filter.mp hz).2
        have hpair := hs.order.filter (· == .invoked n)
        rw [hl] at hpair
        have hrel := (List.pairwise_cons.mp hpair).1 y List.mem_cons_self
        exact lt_irrefl n (hrel n n (hx x List.mem_cons_self) (hx y (by simp)))
      have hpos : 0 < s.history.count (.invoked n) := List.count_pos_iff.mpr hi
      omega
    · exact Or.inr hu

/-- One handler that unregisters itself and registers another one, as `waitjoin` does on the
tick event: the handler registered after it is not run by that raise. -/
def swapActs : List (RaiseAct ℕ ℕ) :=
  [.advance,.unregister 0 0 0,.register 0 2 0,.finish,.advance,.finish]

theorem swapActs_skip :
    ∃ s, raising 0 (after [.register 0 0 0,.register 1 1 0]) swapActs = .ok s ∧ s.Finished ∧
      1 ∈ due 0 (after [Change.register 0 0 0,.register 1 1 0]) ∧
      s.history = [.invoked 0,.unregistered 0,.invoked 2] ∧
      ¬ Serves 0 (after [.register 0 0 0,.register 1 1 0]) s := by
  refine ⟨_,rfl,by unfold Finished; decide,by decide,by decide,?_⟩
  intro h
  rcases h.complete (by unfold Finished; decide) 1 (by decide) with hi | hu
  · exact absurd hi (by decide)
  · exact absurd hu (by decide)

end Raises

/-! ## The loop of `Event_raise` -/

section Loop
variable [DecidableEq ρ] [DecidableEq η] {σ ε : Type*} {event : σ → Event ρ η}
  {call : ρ → η → σ → Except ε σ} {stuck : σ → ε} {id : ℤ} {e : Event ρ η}

theorem raising_changes {acts : List (RaiseAct ρ η)} {s : Raising ρ η} (hs : raising id e acts = .ok s)
    (hr : s.running = true) (changes : List (Change ρ η)) :
    ∃ more t, raising id e (acts ++ more) = .ok t ∧ t.event = changes.foldl change s.event ∧
      t.i = s.i ∧ t.running = true := by
  induction changes generalizing acts s with
  | nil => exact ⟨[],s,by rwa [List.append_nil],rfl,rfl,hr⟩
  | cons c changes ih =>
    obtain ⟨act,t,ht,he,hi,hrt⟩ : ∃ act t, step id act s = .ok t ∧ t.event = s.event.change c ∧
        t.i = s.i ∧ t.running = true := by
      cases c with
      | register receiver handler k =>
        exact ⟨.register receiver handler k,{ s with event := s.event.register receiver handler k },
          by simp only [step,hr,↓reduceIte],rfl,rfl,hr⟩
      | unregister receiver handler k =>
        have hstep : ∃ t, step id (.unregister receiver handler k) s = .ok t ∧
            t.event = s.event.unregister receiver handler k ∧ t.i = s.i ∧ t.running = true := by
          simp only [step,hr,↓reduceIte]
          exact ⟨_,rfl,rfl,rfl,rfl⟩
        obtain ⟨t,ht⟩ := hstep
        exact ⟨.unregister receiver handler k,t,ht⟩
    have hrun : raising id e (acts ++ [act]) = .ok t := by rw [raising_concat,hs]; exact ht
    obtain ⟨more,u,hu,hue,hui,hru⟩ := ih hrun hrt
    refine ⟨act :: more,u,by rwa [List.append_assoc,List.singleton_append] at hu,?_,hui.trans hi,hru⟩
    rw [hue,he,List.foldl_cons]

/-- The loop over a state whose handlers reach the event through its two calls only is
such a run: it ends with the loop behind the array. -/
theorem raiseFrom_raising
    (hc : ∀ r h s t, call r h s = .ok t → ∃ changes : List (Change ρ η), event t = changes.foldl change (event s))
    {n : ℕ} {s t : σ} {acts : List (RaiseAct ρ η)} {u : Raising ρ η} (hu : raising id e acts = .ok u)
    (hr : u.running = false) (he : u.event = event s) (h : raiseFrom event call stuck id n u.i s = .ok t) :
    ∃ more v, raising id e (acts ++ more) = .ok v ∧ v.event = event t ∧ v.Finished := by
  induction n generalizing s acts u with
  | zero =>
    simp only [raiseFrom] at h
    split at h
    · cases h
    · next hlt =>
      cases h
      exact ⟨[],u,by rwa [List.append_nil],he,hr,by rw [he]; omega⟩
  | succ n ih =>
    simp only [raiseFrom] at h
    split at h
    · next hg =>
      cases h
      exact ⟨[],u,by rwa [List.append_nil],he,hr,by rw [he]; exact List.getElem?_eq_none_iff.mp hg⟩
    · next slot hg =>
      -- Passing over a slot is one act of the run.
      have hskip : ¬ (slot.id = id ∧ Live slot) →
          raiseFrom event call stuck id n (u.i + 1) s = .ok t →
          ∃ more v, raising id e (acts ++ more) = .ok v ∧ v.event = event t ∧ v.Finished := by
        intro hno h
        have hstep : step id .advance u = .ok { u with i := u.i + 1 } := by
          simp only [step,hr,Bool.false_eq_true,↓reduceIte,he,hg]
          rw [if_neg (by simpa using hno)]
        have hrun : raising id e (acts ++ [.advance]) = .ok { u with i := u.i + 1 } := by
          rw [raising_concat,hu]
          exact hstep
        obtain ⟨more,v,hv,hve,hf⟩ := ih hrun hr he h
        exact ⟨.advance :: more,v,by rwa [List.append_assoc,List.singleton_append] at hv,hve,hf⟩
      split at h
      · next hnone => exact hskip (by simp [Live,hnone]) h
      · next handler hsome =>
        split at h
        · next hid =>
          cases hcall : call slot.receiver handler s with
          | error x => rw [hcall] at h; cases h
          | ok s' =>
            rw [hcall] at h
            obtain ⟨changes,hch⟩ := hc _ _ _ _ hcall
            have hstep : step id .advance u =
                .ok { u with running := true, history := u.history ++ [.invoked slot.serial] } := by
              simp only [step,hr,Bool.false_eq_true,↓reduceIte,he,hg]
              rw [if_pos (by simp [hid,Live,hsome])]
            have hrun : raising id e (acts ++ [.advance]) =
                .ok { u with running := true, history := u.history ++ [.invoked slot.serial] } := by
              rw [raising_concat,hu]
              exact hstep
            obtain ⟨more,w,hw,hwe,hwi,hwr⟩ := raising_changes hrun rfl changes
            have hfin : raising id e (acts ++ [.advance] ++ more ++ [.finish]) =
                .ok { w with running := false, i := w.i + 1 } := by
              have hlast : step id .finish w = .ok { w with running := false, i := w.i + 1 } := by
                simp only [step,hwr,↓reduceIte]
              rw [raising_concat,hw]
              exact hlast
            have hwi' : w.i = u.i := hwi
            have hwe' : w.event = event s' := by rw [hwe,hch,← he]
            obtain ⟨more',v,hv,hve,hf⟩ := ih hfin rfl hwe' (by rw [hwi']; exact h)
            exact ⟨.advance :: (more ++ .finish :: more'),v,by simpa using hv,hve,hf⟩
        · next hid => exact hskip (fun hm => hid hm.1) h

end Loop
end LibIrcBot.Event
