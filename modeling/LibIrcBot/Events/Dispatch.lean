import LibIrcBot.Events.EventArray
import LibIrcBot.Foundations.Effects
import Mathlib.Logic.Function.Iterate

/-! # Rules for raising an event

A raise whose handlers are traced by a relation is traced by it too, and ends before
its bound when no step makes the array longer. The number of registrations of a
handler is what registering and unregistering make of it, compaction or not.
-/
namespace LibIrcBot.Event
open Effects Relation

section Count
variable {ρ η : Type*} [DecidableEq ρ] [DecidableEq η]

theorem matches_live {receiver : ρ} {handler : η} {id : ℤ} {slot : EvHandler ρ η}
    (h : Matches receiver handler id slot) : Live slot := by
  simp only [Matches,Bool.and_eq_true,decide_eq_true_eq] at h
  simp [Live,h.1.2]

omit [DecidableEq ρ] [DecidableEq η] in
/-- The handlers after a registration, from any array: cleared slots may be gone. -/
theorem register_cases_handlers (e : Event ρ η) (receiver : ρ) (handler : η) (id : ℤ) :
    ∃ l, (l = e.handlers ∨ l = e.handlers.filter Live) ∧
      (e.register receiver handler id).handlers = l ++ [⟨receiver,some handler,id,e.registrations⟩] := by
  unfold register
  cases e.dirty with
  | true => exact ⟨_,Or.inr rfl,by simp [compact_eq]⟩
  | false => exact ⟨_,Or.inl rfl,by simp⟩

omit [DecidableEq ρ] [DecidableEq η] in
theorem countP_filter_live {p : EvHandler ρ η → Bool} (hp : ∀ slot, p slot → Live slot)
    (l : List (EvHandler ρ η)) : (l.filter Live).countP p = l.countP p := by
  rw [List.countP_filter]
  refine List.countP_congr fun x _ => ?_
  constructor
  · intro h
    simp only [Bool.and_eq_true] at h
    exact h.1
  · intro h
    simp only [Bool.and_eq_true]
    exact ⟨h,hp x h⟩

theorem count_register (e : Event ρ η) (receiver receiver' : ρ) (handler handler' : η) (id id' : ℤ) :
    (e.register receiver' handler' id').count receiver handler id =
      e.count receiver handler id +
        if receiver' = receiver ∧ handler' = handler ∧ id' = id then 1 else 0 := by
  obtain ⟨l,hl,hh⟩ := register_cases_handlers e receiver' handler' id'
  have hc : l.countP (Matches receiver handler id) = e.handlers.countP (Matches receiver handler id) := by
    rcases hl with rfl | rfl
    · rfl
    · exact countP_filter_live (fun _ => matches_live) _
  rw [count,hh,List.countP_append,hc,count,List.countP_singleton]
  simp [Matches,and_assoc]

theorem count_register_ne (e : Event ρ η) {receiver receiver' : ρ} {handler handler' : η} {id id' : ℤ}
    (h : handler' ≠ handler) :
    (e.register receiver' handler' id').count receiver handler id = e.count receiver handler id := by
  simp [count_register,h]

omit [DecidableEq ρ] [DecidableEq η] in
theorem countP_clearFirst (p q : EvHandler ρ η → Bool) (hq : ∀ slot, q slot → Live slot)
    (l : List (EvHandler ρ η)) :
    (clearFirst p l).countP q = l.countP q - if (l.find? p).any q then 1 else 0 := by
  rcases clearFirst_cases p l with ⟨hc,hf⟩ | ⟨a,slot,b,rfl,_,hf,hc⟩
  · simp [hc,hf]
  · have hdead : q { slot with handler := none } = false := by
      by_contra h
      have := hq _ (by simpa using h)
      simp [Live] at this
    rw [hc,hf,List.countP_append,List.countP_cons,List.countP_append,List.countP_cons]
    cases hqs : q slot <;> simp [hdead,hqs]

theorem count_unregister_self (e : Event ρ η) (receiver : ρ) (handler : η) (id : ℤ) :
    (e.unregister receiver handler id).count receiver handler id = e.count receiver handler id - 1 := by
  rw [count,show (e.unregister receiver handler id).handlers =
    clearFirst (Matches receiver handler id) e.handlers from rfl,
    countP_clearFirst _ _ (fun _ => matches_live),← count]
  cases hf : e.handlers.find? (Matches receiver handler id) with
  | none =>
    have hz : e.count receiver handler id = 0 :=
      List.countP_eq_zero.mpr (fun x hx => List.find?_eq_none.mp hf x hx)
    simp [hz]
  | some slot => simp [List.find?_some hf]

theorem count_unregister_ne (e : Event ρ η) {receiver receiver' : ρ} {handler handler' : η} {id id' : ℤ}
    (h : handler' ≠ handler) :
    (e.unregister receiver' handler' id').count receiver handler id = e.count receiver handler id := by
  rw [count,show (e.unregister receiver' handler' id').handlers =
    clearFirst (Matches receiver' handler' id') e.handlers from rfl,
    countP_clearFirst _ _ (fun _ => matches_live),← count]
  cases hf : e.handlers.find? (Matches receiver' handler' id') with
  | none => simp
  | some slot =>
    have hm := List.find?_some hf
    simp only [Matches,Bool.and_eq_true,decide_eq_true_eq] at hm
    have hno : Matches receiver handler id slot = false := by
      simp [Matches,hm.1.2,h]
    simp [hno]

theorem count_unregister_le (e : Event ρ η) (receiver receiver' : ρ) (handler handler' : η) (id id' : ℤ) :
    (e.unregister receiver' handler' id').count receiver handler id ≤ e.count receiver handler id := by
  rw [count,show (e.unregister receiver' handler' id').handlers =
    clearFirst (Matches receiver' handler' id') e.handlers from rfl,
    countP_clearFirst _ _ (fun _ => matches_live),← count]
  exact Nat.sub_le _ _

theorem count_unregister (e : Event ρ η) (receiver : ρ) (handler handler' : η) (id : ℤ) :
    (e.unregister receiver handler' id).count receiver handler id =
      e.count receiver handler id - if handler' = handler then 1 else 0 := by
  by_cases h : handler' = handler
  · rw [h,count_unregister_self,if_pos rfl]
  · rw [count_unregister_ne e h,if_neg h,Nat.sub_zero]

/-- A handler that is registered once is gone when it is unregistered. -/
theorem count_unregister_once {e : Event ρ η} {receiver : ρ} {handler : η} {id : ℤ}
    (h : e.count receiver handler id ≤ 1) : (e.unregister receiver handler id).count receiver handler id = 0 := by
  rw [count_unregister_self]
  exact Nat.sub_eq_zero_of_le h

@[simp] theorem count_create (receiver : ρ) (handler : η) (id : ℤ) :
    (create : Event ρ η).count receiver handler id = 0 := rfl

/-- The count is positive exactly if a slot holds the handler. -/
theorem count_pos_iff {e : Event ρ η} {receiver : ρ} {handler : η} {id : ℤ} :
    0 < e.count receiver handler id ↔
      ∃ slot ∈ e.handlers, slot.receiver = receiver ∧ slot.handler = some handler ∧ slot.id = id := by
  rw [count,List.countP_pos_iff]
  simp [Matches,and_assoc]

@[simp] theorem unregister_size (e : Event ρ η) (receiver : ρ) (handler : η) (id : ℤ) :
    (e.unregister receiver handler id).size = e.size := clearFirst_length _ _

/-- The registrations of a handler in the slots from `k` on, which a raise has yet to visit. -/
def countFrom (e : Event ρ η) (k : ℕ) (receiver : ρ) (handler : η) (id : ℤ) : ℕ :=
  (e.handlers.drop k).countP (Matches receiver handler id)

theorem countFrom_succ {e : Event ρ η} {k : ℕ} {slot : EvHandler ρ η} (h : e.handlers[k]? = some slot)
    (receiver : ρ) (handler : η) (id : ℤ) : e.countFrom k receiver handler id =
      e.countFrom (k + 1) receiver handler id + if Matches receiver handler id slot then 1 else 0 := by
  obtain ⟨hlt,hget⟩ := List.getElem?_eq_some_iff.mp h
  rw [countFrom,List.drop_eq_getElem_cons hlt,hget,List.countP_cons,countFrom]

/-- A registration of another handler brings none in front of the raise: compaction moves
slots to the front only. -/
theorem countFrom_register_le (e : Event ρ η) {receiver receiver' : ρ} {handler handler' : η} {id id' : ℤ}
    (h : handler' ≠ handler) (k : ℕ) :
    (e.register receiver' handler' id').countFrom k receiver handler id ≤ e.countFrom k receiver handler id := by
  obtain ⟨l,hl,hh⟩ := register_cases_handlers e receiver' handler' id'
  have hle : (l.drop k).countP (Matches receiver handler id) ≤ e.countFrom k receiver handler id := by
    rcases hl with rfl | rfl
    · exact Nat.le_refl _
    · rw [countFrom,← countP_filter_live (fun _ => matches_live) (e.handlers.drop k)]
      exact List.Sublist.countP_le (drop_filter_suffix Live k e.handlers).sublist
  have hnew : ∀ n, List.countP (Matches receiver handler id)
      (([⟨receiver',some handler',id',e.registrations⟩] : List (EvHandler ρ η)).drop n) = 0 := by
    intro n
    cases n <;> simp [Matches,h]
  rw [countFrom,hh,List.drop_append,List.countP_append,hnew,Nat.add_zero]
  exact hle

theorem countFrom_unregister_le (e : Event ρ η) (receiver receiver' : ρ) (handler handler' : η) (id id' : ℤ)
    (k : ℕ) : (e.unregister receiver' handler' id').countFrom k receiver handler id ≤
      e.countFrom k receiver handler id := by
  have hdead : ∀ slot : EvHandler ρ η, Matches receiver handler id { slot with handler := none } = false := by
    simp [Matches]
  rw [countFrom,countFrom,show (e.unregister receiver' handler' id').handlers =
    clearFirst (Matches receiver' handler' id') e.handlers from rfl]
  generalize e.handlers = l
  induction l generalizing k with
  | nil => simp [clearFirst]
  | cons slot l ih =>
    rw [clearFirst]
    split
    · cases k with
      | zero => simp [List.countP_cons,hdead]
      | succ k => simp
    · cases k with
      | zero => simpa [List.countP_cons] using ih 0
      | succ k => simpa using ih k

/-- Unregistering another handler takes none away that the raise has yet to visit. -/
theorem countFrom_unregister_ne (e : Event ρ η) {receiver receiver' : ρ} {handler handler' : η} {id id' : ℤ}
    (h : handler' ≠ handler) (k : ℕ) : (e.unregister receiver' handler' id').countFrom k receiver handler id =
      e.countFrom k receiver handler id := by
  have hdead : ∀ slot : EvHandler ρ η, Matches receiver handler id { slot with handler := none } = false := by
    simp [Matches]
  have hother : ∀ slot : EvHandler ρ η, Matches receiver' handler' id' slot → Matches receiver handler id slot = false := by
    intro slot hm
    simp only [Matches,Bool.and_eq_true,decide_eq_true_eq] at hm
    simp [Matches,hm.1.2,h]
  rw [countFrom,countFrom,show (e.unregister receiver' handler' id').handlers =
    clearFirst (Matches receiver' handler' id') e.handlers from rfl]
  generalize e.handlers = l
  induction l generalizing k with
  | nil => simp [clearFirst]
  | cons slot l ih =>
    rw [clearFirst]
    split
    · next hm =>
      cases k with
      | zero => simp [hdead,hother slot hm]
      | succ k => simp
    · cases k with
      | zero => simpa [List.countP_cons] using ih 0
      | succ k => simpa using ih k

omit [DecidableEq ρ] [DecidableEq η] in
/-- Behind a slot that satisfies `p` nothing is cleared. -/
theorem clearFirst_drop {p : EvHandler ρ η → Bool} {l : List (EvHandler ρ η)} {i k : ℕ} {slot : EvHandler ρ η}
    (h : l[i]? = some slot) (hp : p slot) (hk : i < k) : (clearFirst p l).drop k = l.drop k := by
  induction l generalizing i k with
  | nil => cases h
  | cons x l ih =>
    obtain ⟨k,rfl⟩ := Nat.exists_eq_add_one_of_ne_zero (Nat.ne_zero_of_lt hk)
    rw [clearFirst]
    split
    · rfl
    · next hx =>
      cases i with
      | zero =>
        obtain rfl := Option.some.inj h
        exact absurd hp hx
      | succ i => exact ih h (Nat.lt_of_succ_lt_succ hk)

/-- A handler that unregisters itself in its slot takes none away that the raise has yet to visit. -/
theorem countFrom_unregister_visited {e : Event ρ η} {k : ℕ} {slot : EvHandler ρ η} {receiver : ρ} {handler : η}
    {id : ℤ} (h : e.handlers[k]? = some slot) (hm : Matches receiver handler id slot) :
    (e.unregister receiver handler id).countFrom (k + 1) receiver handler id =
      e.countFrom (k + 1) receiver handler id :=
  congrArg (List.countP _) (clearFirst_drop h hm (Nat.lt_succ_self k))

theorem countFrom_le (e : Event ρ η) (k : ℕ) (receiver : ρ) (handler : η) (id : ℤ) :
    e.countFrom k receiver handler id ≤ e.count receiver handler id :=
  (List.drop_sublist k e.handlers).countP_le

theorem countFrom_zero (e : Event ρ η) (receiver : ρ) (handler : η) (id : ℤ) :
    e.countFrom 0 receiver handler id = e.count receiver handler id := rfl

/-- Behind the last slot nothing is left to visit. -/
theorem countFrom_end {e : Event ρ η} {k : ℕ} (h : e.handlers[k]? = none) (receiver : ρ) (handler : η) (id : ℤ) :
    e.countFrom k receiver handler id = 0 := by
  rw [countFrom,List.drop_eq_nil_of_le (List.getElem?_eq_none_iff.mp h)]
  rfl

end Count

section Registered
variable {ρ η : Type*}

def All (e : Event ρ η) (p : η → Prop) : Prop := ∀ slot ∈ e.handlers, ∀ h, slot.handler = some h → p h

def Only (e : Event ρ η) (receiver : ρ) (handler : η) (id : ℤ) : Prop :=
  ∃ serial, e.handlers = [⟨receiver,some handler,id,serial⟩]

variable {e : Event ρ η} {p q : η → Prop}

theorem all_create : (create : Event ρ η).All p := by simp [All,create]

theorem All.mono (h : e.All p) (hpq : ∀ x, p x → q x) : e.All q := fun slot hs x hx => hpq x (h slot hs x hx)

theorem All.register (h : e.All p) (receiver : ρ) {handler : η} (id : ℤ) (hp : p handler) :
    (e.register receiver handler id).All p := by
  obtain ⟨l,hl,hh⟩ := register_cases_handlers e receiver handler id
  intro slot hs x hx
  rw [hh,List.mem_append,List.mem_singleton] at hs
  rcases hs with hs | rfl
  · refine h slot ?_ x hx
    rcases hl with rfl | rfl
    · exact hs
    · exact List.mem_of_mem_filter hs
  · rw [← Option.some.inj hx]
    exact hp

theorem All.unregister [DecidableEq ρ] [DecidableEq η] (h : e.All p) (receiver : ρ) (handler : η) (id : ℤ) :
    (e.unregister receiver handler id).All p := by
  intro slot hs x hx
  rcases clearFirst_cases (Matches receiver handler id) e.handlers with ⟨hc,_⟩ | ⟨a,old,b,hl,_,_,hc⟩
  · exact h slot (by simpa only [Event.unregister,hc] using hs) x hx
  · simp only [Event.unregister,hc,List.mem_append,List.mem_cons] at hs
    have hmem : slot ∈ a ∨ slot ∈ b := by
      rcases hs with hs | rfl | hs
      · exact Or.inl hs
      · cases hx
      · exact Or.inr hs
    refine h slot ?_ x hx
    rw [hl,List.mem_append,List.mem_cons]
    exact hmem.imp (fun h => h) Or.inr

theorem only_register (h : e.handlers = []) (receiver : ρ) (handler : η) (id : ℤ) :
    (e.register receiver handler id).Only receiver handler id := by
  obtain ⟨l,hl,hh⟩ := register_cases_handlers e receiver handler id
  refine ⟨e.registrations,?_⟩
  rw [hh]
  rcases hl with rfl | rfl <;> rw [h] <;> rfl

theorem Only.unregister [DecidableEq ρ] [DecidableEq η] {receiver : ρ} {handler : η} {id : ℤ}
    (h : e.Only receiver handler id) : (e.unregister receiver handler id).All fun _ => False := by
  obtain ⟨serial,hh⟩ := h
  intro slot hs x hx
  have hslot : slot = ⟨receiver,none,id,serial⟩ := by
    simpa [Event.unregister,hh,clearFirst,Matches] using hs
  rw [hslot] at hx
  cases hx

theorem Only.count [DecidableEq ρ] [DecidableEq η] {receiver : ρ} {handler : η} {id : ℤ}
    (h : e.Only receiver handler id) : e.count receiver handler id = 1 := by
  obtain ⟨serial,hh⟩ := h
  simp [Event.count,hh,Matches]

end Registered

section Raise
universe u
variable {ρ η : Type*} {σ φ : Type u} {R : σ → σ → Prop} {B : σ → φ × σ → Prop} {event : σ → Event ρ η}
  {call : ρ → η → σ → Except (φ × σ) σ} {stuck : σ → φ × σ} {i : ℤ}

/-- A handler is only called for a slot it is registered in. -/
theorem raiseFrom_traced {n k : ℕ} {s : σ}
    (hcall : ∀ t, ReflTransGen R s t → ∀ slot ∈ (event t).handlers, ∀ h, slot.handler = some h → slot.id = i →
      Traced R B t id (call slot.receiver h t))
    (hsize : ∀ t u, ReflTransGen R s t → R t u → (event u).size ≤ (event t).size)
    (hn : (event s).size ≤ n + k) : Traced R B s id (raiseFrom event call stuck i n k s) := by
  induction n generalizing s k with
  | zero =>
    rw [raiseFrom,if_neg (by omega)]
    exact .pure .refl
  | succ n ih =>
    rw [raiseFrom]
    split
    · exact .pure .refl
    · next slot hs =>
      split
      · exact ih hcall hsize (by omega)
      · next handler hh =>
        split
        · next hid =>
          refine Traced.bind (hcall s .refl slot (List.mem_of_getElem? hs) handler hh hid) ?_
          intro t ht
          have hle : (event t).size ≤ (event s).size :=
            (Effects.invariant (I := fun u => ReflTransGen R s u ∧ (event u).size ≤ (event s).size)
              (fun u v hu huv => ⟨hu.1.tail huv,Nat.le_trans (hsize u v hu.1 huv) hu.2⟩) ⟨.refl,Nat.le_refl _⟩ ht).2
          refine ih ?_ ?_ (by simp only [id]; omega)
          · exact fun u hu => hcall u (ht.trans hu)
          · exact fun u v hu huv => hsize u v (ht.trans hu) huv
        · exact ih hcall hsize (by omega)

/-- What every pass keeps, as a property of the slot that comes next, holds behind the raise. -/
theorem raiseFrom_spec {J : ℕ → σ → Prop} {E : φ × σ → Prop}
    (hskip : ∀ k s slot, J k s → (event s).handlers[k]? = some slot → (slot.handler = none ∨ slot.id ≠ i) →
      J (k + 1) s)
    (hcall : ∀ k s slot h, J k s → (event s).handlers[k]? = some slot → slot.handler = some h → slot.id = i →
      Outcome.Meets (J (k + 1)) E (call slot.receiver h s))
    (hstuck : ∀ s, E (stuck s)) {n k : ℕ} {s : σ} (hs : J k s) :
    Outcome.Meets (fun t => ∃ l, J l t ∧ (event t).handlers[l]? = none) E (raiseFrom event call stuck i n k s) := by
  induction n generalizing k s with
  | zero =>
    rw [raiseFrom]
    split
    · exact hstuck s
    · next hlt => exact ⟨k,hs,List.getElem?_eq_none (Nat.le_of_not_lt hlt)⟩
  | succ n ih =>
    rw [raiseFrom]
    split
    · next hnone => exact ⟨k,hs,hnone⟩
    · next slot hslot =>
      split
      · next hnone => exact ih (hskip k s slot hs hslot (Or.inl hnone))
      · next handler hh =>
        split
        · next hid => exact Outcome.Meets.bind (hcall k s slot handler hs hslot hh hid) (fun t ht => ih ht)
        · next hid => exact ih (hskip k s slot hs hslot (Or.inr hid))

/-- The same where no call faults and the event does not grow: the raise has a result. -/
theorem raiseFrom_runs {J : ℕ → σ → Prop} {size : ℕ}
    (hskip : ∀ k s slot, J k s → (event s).handlers[k]? = some slot → (slot.handler = none ∨ slot.id ≠ i) →
      J (k + 1) s)
    (hcall : ∀ k s slot h, J k s → (event s).handlers[k]? = some slot → slot.handler = some h → slot.id = i →
      ∃ t, call slot.receiver h s = .ok t ∧ J (k + 1) t)
    (hsize : ∀ k s, J k s → (event s).size ≤ size) {n k : ℕ} {s : σ} (hn : size ≤ n + k) (hs : J k s) :
    ∃ t l, raiseFrom event call stuck i n k s = .ok t ∧ J l t ∧ (event t).handlers[l]? = none := by
  induction n generalizing k s with
  | zero =>
    have hle := hsize k s hs
    rw [raiseFrom,if_neg (by omega)]
    exact ⟨s,k,rfl,hs,List.getElem?_eq_none (Nat.le_trans hle (by omega))⟩
  | succ n ih =>
    rw [raiseFrom]
    split
    · next hnone => exact ⟨s,k,rfl,hs,hnone⟩
    · next slot hslot =>
      split
      · next hnone => exact ih (by omega) (hskip k s slot hs hslot (Or.inl hnone))
      · next handler hh =>
        split
        · next hid =>
          obtain ⟨t,hc,ht⟩ := hcall k s slot handler hs hslot hh hid
          rw [hc]
          exact ih (by omega) ht
        · next hid => exact ih (by omega) (hskip k s slot hs hslot (Or.inr hid))

/-- Raising an event with one registration calls its handler once. -/
theorem raise_only {handler : η} {receiver : ρ} {s : σ} (h : (event s).Only receiver handler i)
    (hsize : ∀ t, call receiver handler s = .ok t → (event t).size ≤ 1) :
    raise event call stuck i (event s).size s = call receiver handler s := by
  obtain ⟨serial,hh⟩ := h
  have hn : (event s).size = 1 := by rw [size,hh]; rfl
  rw [raise,hn,raiseFrom,hh]
  simp only [List.getElem?_cons_zero,↓reduceIte]
  cases hc : call receiver handler s with
  | error e => rfl
  | ok t =>
    have hle := hsize t hc
    simp only [bind,Except.bind,raiseFrom]
    rw [if_neg (by omega)]

/-- Raising an event with a single handler, which leaves the event alone, calls it as often as it
is registered. -/
theorem raiseFrom_iterate [DecidableEq ρ] [DecidableEq η] {receiver : ρ} {handler : η} {f : σ → σ}
    (hr : ∀ r : ρ, r = receiver) (hh : ∀ h : η, h = handler) (hcall : ∀ s, call receiver handler s = .ok (f s))
    (hevent : ∀ s, event (f s) = event s) {n k : ℕ} {s : σ} (hn : (event s).size ≤ n + k) :
    raiseFrom event call stuck i n k s = .ok (f^[(event s).countFrom k receiver handler i] s) := by
  have hend : ∀ {s k}, (event s).handlers[k]? = none → f^[(event s).countFrom k receiver handler i] s = s := by
    intro s k hk
    rw [countFrom_end hk]
    rfl
  induction n generalizing k s with
  | zero =>
    rw [raiseFrom,if_neg (by omega),hend (List.getElem?_eq_none (by simpa using hn))]
  | succ n ih =>
    have hnext : ∀ {t}, event t = event s → raiseFrom event call stuck i n (k + 1) t =
        .ok (f^[(event s).countFrom (k + 1) receiver handler i] t) := by
      intro t ht
      rw [← ht]
      exact ih (by rw [ht]; omega)
    rw [raiseFrom]
    split
    · next hk => rw [hend hk]
    · next slot hslot =>
      rw [countFrom_succ hslot]
      split
      · next hnone =>
        rw [hnext rfl,if_neg (by simp [Matches,hnone])]
        rfl
      · next h hsome =>
        split
        · next hid =>
          have hm : Matches receiver handler i slot = true := by simp [Matches,hr slot.receiver,hsome,hh h,hid]
          rw [hr slot.receiver,hh h,hcall,if_pos hm,Function.iterate_succ_apply]
          exact hnext (hevent s)
        · next hid =>
          rw [hnext rfl,if_neg (by simp [Matches,hid])]
          rfl

/-- Handlers that keep `I` and the event, and of which one that is registered faults, end
the raise with a fault. -/
theorem raiseFrom_faults {I : σ → Prop} {P : φ × σ → Prop} {e : Event ρ η} (he : ∀ t, I t → event t = e)
    (hcall : ∀ t, I t → ∀ slot ∈ e.handlers, ∀ h, slot.handler = some h → slot.id = i →
      (∃ u, call slot.receiver h t = .ok u ∧ I u) ∨ ∃ f, call slot.receiver h t = .error f ∧ P f)
    {n k j : ℕ} {slot : EvHandler ρ η} {handler : η} (hslot : e.handlers[j]? = some slot)
    (hh : slot.handler = some handler) (hid : slot.id = i)
    (hfault : ∀ t, I t → ∃ f, call slot.receiver handler t = .error f ∧ P f) (hk : k ≤ j) (hn : j < n + k)
    {s : σ} (hs : I s) : ∃ f, raiseFrom event call stuck i n k s = .error f ∧ P f := by
  induction n generalizing k s with
  | zero => omega
  | succ n ih =>
    have hpass : k ≠ j → ∀ t, I t → ∃ f, raiseFrom event call stuck i n (k + 1) t = .error f ∧ P f :=
      fun hne t ht => ih (by omega) (by omega) ht
    rw [raiseFrom,he s hs]
    by_cases hkj : k = j
    · obtain ⟨f,hf,hp⟩ := hfault s hs
      subst hkj
      simp only [hslot,hh,hid,↓reduceIte,hf]
      exact ⟨f,rfl,hp⟩
    · have hlt : j < e.handlers.length := (List.getElem?_eq_some_iff.mp hslot).1
      have hget : e.handlers[k]? = some e.handlers[k] := List.getElem?_eq_getElem (by omega)
      rw [hget]
      dsimp only
      split
      · exact hpass hkj s hs
      · next h hk =>
        split
        · next hid' =>
          rcases hcall s hs _ (List.getElem_mem _) h hk hid' with ⟨u,hu,hi⟩ | ⟨f,hf,hp⟩
          · rw [hu]
            exact hpass hkj u hi
          · rw [hf]
            exact ⟨f,rfl,hp⟩
        · exact hpass hkj s hs

end Raise
end LibIrcBot.Event
