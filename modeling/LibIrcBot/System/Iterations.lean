import LibIrcBot.System.Lifetime

/-! # Iterations of the service loop

A step of a run visits a slot of the event being raised, moves the position of the loop,
or is a call of the application. Whatever it does to connections is a sequence of moves;
only the raise of `eventsDone` destroys them.
-/
namespace LibIrcBot
open CString Effects Relation Outcome Transitions

variable {w w' : World} {live sane : Prop}

/-- The slot the service is at holds a callback that is to be called. -/
def World.Visits {η : Type} (w : World) (e : Listeners η) (id : ℤ) (handler : η) : Prop :=
  ∃ slot, e.handlers[w.service.slot]? = some slot ∧ slot.handler = some handler ∧ slot.id = id

theorem World.Visits.count_pos {η : Type} [DecidableEq η] {e : Listeners η} {id : ℤ} {handler : η}
    (h : w.Visits e id handler) : 0 < e.count () handler id := by
  obtain ⟨slot,hs,hh,hid⟩ := h
  exact Event.count_pos_iff.mpr ⟨slot,List.mem_of_getElem? hs,rfl,hh,hid⟩

theorem World.Visits.unique {η : Type} {e : Listeners η} {id : ℤ} {handler handler' : η} (h : w.Visits e id handler)
    (h' : w.Visits e id handler') : handler = handler' := by
  obtain ⟨slot,hs,hh,-⟩ := h
  obtain ⟨slot',hs',hh',-⟩ := h'
  cases hs.symm.trans hs'
  exact Option.some.inj (hh.symm.trans hh')

/-- The callback in the slot the service is at, if it is to be called. -/
def World.callback {η : Type} (w : World) (e : Listeners η) (id : ℤ) : Option η :=
  e.handlers[w.service.slot]?.bind fun slot => if slot.id = id then slot.handler else none

theorem World.Visits.callback {η : Type} {e : Listeners η} {id : ℤ} {handler : η} (h : w.Visits e id handler) :
    w.callback e id = some handler := by
  obtain ⟨slot,hs,hh,hid⟩ := h
  simp [World.callback,hs,hh,hid]

/-- What the raise has yet to visit does not change in a slot that does not hold the handler. -/
theorem countFrom_skip {η : Type} [DecidableEq η] {e : Listeners η} {id : ℤ} {handler : η}
    (h : ¬ w.Visits e id handler) :
    e.countFrom (w.service.slot + 1) () handler id = e.countFrom w.service.slot () handler id := by
  cases hs : e.handlers[w.service.slot]? with
  | none =>
    have hlen := List.getElem?_eq_none_iff.mp hs
    rw [Event.countFrom_end hs,Event.countFrom_end (List.getElem?_eq_none_iff.mpr (Nat.le_succ_of_le hlen))]
  | some slot =>
    have hno : Event.Matches () handler id slot = false := by
      by_contra hm
      simp only [Event.Matches,Bool.not_eq_false,Bool.and_eq_true,decide_eq_true_eq] at hm
      exact h ⟨slot,hs,hm.1.2,hm.2⟩
    rw [Event.countFrom_succ hs,hno]
    rfl

/-- A handler that is registered at most once is visited once. -/
theorem World.Visits.countFrom {η : Type} [DecidableEq η] {e : Listeners η} {id : ℤ} {handler : η}
    (h : w.Visits e id handler) (hn : e.count () handler id ≤ 1) :
    e.countFrom (w.service.slot + 1) () handler id = 0 := by
  obtain ⟨slot,hs,hh,hid⟩ := h
  have hle := (Event.countFrom_le e w.service.slot () handler id).trans hn
  rw [Event.countFrom_succ hs,if_pos (by simp [Event.Matches,hh,hid])] at hle
  exact Nat.le_zero.mp (Nat.le_of_succ_le_succ hle)

theorem visit_cases {η : Type} {e : Listeners η} {id : ℤ} {call : η → World → Run}
    (h : Service.visit e id call w = .ok w') :
    (e.handlers[w.service.slot]? = none ∧
      w' = { w with service.todo := w.service.todo.tail, service.slot := 0 }) ∨
    ((∀ handler, ¬ w.Visits e id handler) ∧ w' = { w with service.slot := w.service.slot + 1 }) ∨
    ∃ t, (∃ handler, w.Visits e id handler ∧ call handler w = .ok t) ∧
      w' = { t with service.slot := t.service.slot + 1 } := by
  unfold Service.visit at h
  split at h
  · next hs => exact Or.inl ⟨hs,(Except.ok.inj h).symm⟩
  · next slot hs =>
    split at h
    · next hh =>
      refine Or.inr (Or.inl ⟨?_,(Except.ok.inj h).symm⟩)
      rintro handler ⟨slot',hs',hh',-⟩
      cases hs.symm.trans hs'
      rw [hh] at hh'
      cases hh'
    · next handler hh =>
      split at h
      · next hid =>
        cases hc : call handler w with
        | ok t =>
          rw [hc] at h
          exact Or.inr (Or.inr ⟨t,⟨handler,⟨slot,hs,hh,hid⟩,hc⟩,(Except.ok.inj h).symm⟩)
        | error e =>
          rw [hc] at h
          cases h
      · next hid =>
        refine Or.inr (Or.inl ⟨?_,(Except.ok.inj h).symm⟩)
        rintro handler' ⟨slot',hs',-,hid'⟩
        cases hs.symm.trans hs'
        exact hid hid'

namespace World

def Exhausted (w : World) : ServiceEvent → Prop
  | .eventsDone => w.service.eventsDone.handlers[w.service.slot]? = none
  | .tick => w.service.tick.handlers[w.service.slot]? = none
  | .readyWrite _ => w.service.readyWrite.handlers[w.service.slot]? = none
  | .readyRead _ => w.service.readyRead.handlers[w.service.slot]? = none

def Skips (w : World) : ServiceEvent → Prop
  | .eventsDone => ∀ handler, ¬ w.Visits w.service.eventsDone 0 handler
  | .tick => ∀ handler, ¬ w.Visits w.service.tick 0 handler
  | .readyWrite id => ∀ handler, ¬ w.Visits w.service.readyWrite id handler
  | .readyRead id => ∀ handler, ¬ w.Visits w.service.readyRead id handler

def Calls (env : Env) (w : World) : ServiceEvent → World → Prop
  | .eventsDone, t => ∃ handler, w.Visits w.service.eventsDone 0 handler ∧ Service.callDone handler w = .ok t
  | .tick, t => ∃ handler, w.Visits w.service.tick 0 handler ∧ Service.callTick env handler w = .ok t
  | .readyWrite id, t => ∃ handler, w.Visits w.service.readyWrite id handler ∧ Service.callWrite env handler w = .ok t
  | .readyRead id, t => ∃ handler, w.Visits w.service.readyRead id handler ∧ Service.callRead env handler w = .ok t

end World

theorem next_cases {env : Env} (h : Service.next env w = .ok w') : (w.service.todo = [] ∧ w' = w) ∨
    ∃ event rest, w.service.todo = event :: rest ∧
      ((w.Exhausted event ∧ w' = { w with service.todo := rest, service.slot := 0 }) ∨
        (w.Skips event ∧ w' = { w with service.slot := w.service.slot + 1 }) ∨
        ∃ t, w.Calls env event t ∧ w' = { t with service.slot := t.service.slot + 1 }) := by
  unfold Service.next at h
  split at h
  · next ht => exact Or.inl ⟨ht,(Except.ok.inj h).symm⟩
  all_goals
    next rest ht =>
    have hc := visit_cases h
    rw [ht] at hc
    exact Or.inr ⟨_,rest,ht,hc⟩

/-- The handler that the loop calls next reads from the connection. -/
def World.Reads (w : World) (self : ConnId) : Prop :=
  ∃ id rest, w.service.todo = .readyRead id :: rest ∧ w.Visits w.service.readyRead id (.readConnection self)

/-- The handler that the loop calls next writes to the connection. -/
def World.Writes (w : World) (self : ConnId) : Prop :=
  ∃ id rest, w.service.todo = .readyWrite id :: rest ∧ w.Visits w.service.readyWrite id (.writeConnection self)

/-- What is registered for a connection at some stage only shows that it is in memory. -/
theorem World.extant_of_count {self : ConnId} {n : ℕ} {p : Prop} [Decidable p]
    (hn : n ≤ if p then (w.stage self).kept else 0) (hpos : 0 < n) : w.Extant self ∧ p := by
  split at hn
  · next hp => exact ⟨extant_of_kept fun hz => by rw [hz] at hn; exact absurd hpos (Nat.not_lt.mpr hn),hp⟩
  · exact absurd hpos (Nat.not_lt.mpr hn)

namespace Tracked
variable {self : ConnId}

theorem reading (h : Tracked w) {id : ℤ} (hv : w.Visits w.service.readyRead id (.readConnection self)) :
    w.Extant self ∧ (w.conns self).fd = id := World.extant_of_count (h.reads self id).le hv.count_pos

theorem writing (h : Tracked w) {id : ℤ} (hv : w.Visits w.service.readyWrite id (.writeConnection self)) :
    w.Extant self ∧ (w.conns self).fd = id := World.extant_of_count (h.writes self id).le hv.count_pos

theorem ticking (h : Tracked w) {handler : TickHandler} (hv : w.Visits w.service.tick 0 handler) : handler.Serves w := by
  cases handler with
  | checkPendingConnection self => exact (World.extant_of_count (h.connects self 0) hv.count_pos).1
  | checkPendingTls self => exact (World.extant_of_count (h.handshakes self 0) hv.count_pos).1
  | _ => trivial

theorem deleting (h : Tracked w) (hv : w.Visits w.service.eventsDone 0 (.deleteConnection self)) :
    w.stage self = .closed := by
  have hpos := hv.count_pos
  rw [h.done self 0,if_pos rfl] at hpos
  cases hs : w.stage self <;> rw [hs] at hpos <;> first | rfl | cases hpos

end Tracked

/-- A callback of `eventsDone` destroys a closed connection. -/
theorem calls_destroys (ht : Tracked w) {env : Env} {t : World} (hc : w.Calls env .eventsDone t) :
    ∃ c, w.Visits w.service.eventsDone 0 (.deleteConnection c) ∧ w.stage c = .closed ∧ w.Destroys t c := by
  obtain ⟨⟨c⟩,hv,hc⟩ := hc
  have hclosed := ht.deleting hv
  refine ⟨c,hv,hclosed,deleteConnection_shape (fun he => ?_) hc⟩
  rw [(ht.opened c).mpr he] at hclosed
  cases hclosed

/-- Any other callback makes moves. -/
theorem calls_stirs (h : Inv w) (ht : Tracked w) {env : Env} {event : ServiceEvent} {rest : List ServiceEvent}
    (htodo : w.service.todo = event :: rest) (hne : event ≠ .eventsDone) {t : World} (hc : w.Calls env event t)
    (hl : live → ∀ self, w.Reads self ∨ w.Writes self → w.server.conn = some self) (hs : sane → Staged w)
    (hr : sane → ∀ self, w.Reads self → (w.conns self).tls → w.Up self ∨ (w.conns self).tlsConnectSt = .wantRead) :
    Stir live sane w t := by
  cases event with
  | eventsDone => exact absurd rfl hne
  | tick =>
    obtain ⟨handler,hv,hc⟩ := hc
    exact Stirs.result (callTick_stirs h env (ht.ticking hv)) hc
  | readyWrite id =>
    obtain ⟨⟨self⟩,hv,hc⟩ := hc
    exact Stirs.result (Connection.writeConnection_stirs h env
      (ht.writing hv).1 (fun hlive => hl hlive self (Or.inr ⟨id,rest,htodo,hv⟩)) hs) hc
  | readyRead id =>
    obtain ⟨⟨self⟩,hv,hc⟩ := hc
    exact Stirs.result (Connection.readConnection_stirs h env
      (ht.reading hv).1 (fun hlive => hl hlive self (Or.inl ⟨id,rest,htodo,hv⟩)) hs
      (fun hsane => hr hsane self ⟨id,rest,htodo,hv⟩)) hc

theorem calls_moves (h : Inv w) (ht : Tracked w) {env : Env} {event : ServiceEvent} {rest : List ServiceEvent}
    (htodo : w.service.todo = event :: rest) (hne : event ≠ .eventsDone) {t : World} (hc : w.Calls env event t)
    (hl : live → ∀ self, w.Reads self ∨ w.Writes self → w.server.conn = some self) (hs : sane → Staged w)
    (hr : sane → ∀ self, w.Reads self → (w.conns self).tls → w.Up self ∨ (w.conns self).tlsConnectSt = .wantRead) :
    ReflTransGen (Move live sane) w t := (calls_stirs h ht htodo hne hc hl hs hr).moves

/-- The label stands for a call, not for a step of the loop itself. -/
def Label.IsCall : Label → Prop
  | .loop | .select _ | .next _ => False
  | _ => True

theorem swaps_of_results {r : Except (Fault × World) (ℤ × World)} (h : Traced Change Sound w Prod.snd r) :
    Meets (Swaps w) (fun _ => True) (r.map Prod.snd) := by
  cases r with
  | ok a => exact swaps_of_changes h
  | error e => trivial

theorem swaps_of_result {r : Run} (h : Changes w r) : Meets (Swaps w) (fun _ => True) r :=
  Meets.mono h (fun _ ht => swaps_of_changes ht) fun _ _ => trivial

/-- Calls that neither connect nor disconnect leave connections alone. -/
theorem call_swaps (h : Inv w) {l : Label} (hl : l.IsCall) (hs : ∀ env, l ≠ .startup env) (hd : l ≠ .disconnect) :
    Meets (Swaps w) (fun _ => True) (World.step l w) := by
  cases l with
  | startup env => exact absurd rfl (hs env)
  | disconnect => exact absurd rfl hd
  | join channel => exact swaps_of_result (IrcServer.join_changes h.logged fun _ hget => (h.name_of_get hget).2)
  | part channel =>
    cases hp : World.step (.part channel) w with
    | ok t => exact IrcServer.part_swaps h hp
    | error e => trivial
  | sendCmd cmd args => exact swaps_of_results (IrcServer.sendCmd_changes h.logged cmd args)
  | sendMsg recipient message action =>
    exact swaps_of_results (IrcServer.sendMsg_changes h.logged recipient message action)
  | setNick nick => exact swaps_of_result (IrcServer.setNick_changes h.logged nick)
  | otherRegister n =>
    exact .same { World.SameNet.refl w with
      tick := fun _ _ hh => Event.count_register_ne _ (pending_ne (t := .other n) not_false hh) } ⟨rfl,rfl⟩
  | otherUnregister n => exact .same (IrcServer.same_tickUnregister w (.other n) not_false) ⟨rfl,rfl⟩
  | loop => exact hl.elim
  | select ready => exact hl.elim
  | next env => exact hl.elim

theorem call_exchanges (h : Inv w) {l : Label} (hl : l.IsCall) (hs : ∀ env, l ≠ .startup env) (hd : l ≠ .disconnect) :
    Meets (ReflTransGen Exchange w) (fun _ => True) (World.step l w) :=
  Meets.mono (call_swaps h hl hs hd) (fun _ ht => ht.exchanges) fun _ he => he

theorem call_stirs (h : Inv w) {l : Label} (hl : l.IsCall) : Stirs live sane w (World.step l w) := by
  by_cases hs : ∃ env, l = .startup env
  · obtain ⟨env,rfl⟩ := hs
    exact .pure (startup_stirs env w)
  by_cases hd : l = .disconnect
  · subst hd
    exact IrcServer.disconnect_stirs h
  · refine Stirs.ofOk fun w' hw => ?_
    have hex := call_swaps h hl (not_exists.mp hs) hd
    rw [hw] at hex
    exact .swaps hex

theorem call_moves (h : Inv w) {l : Label} (hl : l.IsCall) : Moves live sane w (World.step l w) := (call_stirs h hl).moves

def World.reposition (w : World) (shutdownRef shutdownTicks : ℤ) (todo : List ServiceEvent) (slot : ℕ)
    (selecting : Bool) : World := { w with
  service.shutdownRef := shutdownRef
  service.shutdownTicks := shutdownTicks
  service.todo := todo
  service.slot := slot
  service.selecting := selecting }

/-- Behind `pselect` an iteration begins, or the bot's `shutdown` runs. -/
theorem select_moves (h : Inv w) {ready : Service.Ready} (hs : Service.select ready w = .ok w') : w' = w ∨
    (w.service.todo = [] ∧ w.service.selecting = true ∧ ∃ shutdownRef shutdownTicks todo, .eventsDone ∉ todo ∧
      (todo = [.tick] ∨ .tick ∉ todo) ∧
      (todo = [] ∨ w' = w.reposition shutdownRef shutdownTicks todo w.service.slot false) ∧
      ReflTransGen (Move live sane) (w.reposition shutdownRef shutdownTicks todo w.service.slot false) w') := by
  unfold Service.select at hs
  split at hs
  · next hsel =>
    simp only [Bool.and_eq_true,decide_eq_true_eq] at hsel
    refine Or.inr ⟨hsel.1,hsel.2,?_⟩
    dsimp only at hs
    split at hs
    · have h1 := Service.service_acts w 0 5 [] w.service.slot false
      have hm : Moves live sane _ _ := shutdown_moves (h.action h1)
      rw [hsel.1] at hs
      rw [hs] at hm
      exact ⟨0,5,[],by simp,by simp,Or.inl rfl,hm⟩
    · split at hs
      · split at hs <;> cases hs
        · exact ⟨0,w.service.shutdownTicks - 1,w.service.todo,by simp [hsel.1],by simp [hsel.1],Or.inr rfl,.refl⟩
        · exact ⟨w.service.shutdownRef,w.service.shutdownTicks - 1,[.tick],by simp,by simp,Or.inr rfl,.refl⟩
      · cases hs
        exact ⟨w.service.shutdownRef,w.service.shutdownTicks,[.tick],by simp,by simp,Or.inr rfl,.refl⟩
    · next writes reads =>
      split at hs <;> cases hs
      · exact ⟨w.service.shutdownRef,w.service.shutdownTicks,writes.map .readyWrite ++ reads.map .readyRead,
          by simp,by simp,Or.inr rfl,.refl⟩
      · exact ⟨w.service.shutdownRef,w.service.shutdownTicks,w.service.todo,by simp [hsel.1],by simp [hsel.1],Or.inr rfl,.refl⟩
  · exact Or.inl (Except.ok.inj hs).symm

theorem Tracked.reposition (h : Tracked w) (shutdownRef shutdownTicks : ℤ) (todo : List ServiceEvent) (slot : ℕ)
    (selecting : Bool) : Tracked (w.reposition shutdownRef shutdownTicks todo slot selecting) := { h with }

theorem Tracked.next (h : Inv w) (ht : Tracked w) {env : Env} (hs : Service.next env w = .ok w') : Tracked w' := by
  rcases next_cases hs with ⟨-,rfl⟩ | ⟨event,rest,htodo,⟨-,rfl⟩ | ⟨-,rfl⟩ | ⟨t,hc,rfl⟩⟩
  · exact ht
  · exact { ht with }
  · exact { ht with }
  · have htt : Tracked t := by
      by_cases hd : event = .eventsDone
      · subst hd
        obtain ⟨c,-,hclosed,hd⟩ := calls_destroys ht hc
        exact ht.destroys hclosed hd
      · exact tracked_of_moves (@calls_moves w False False h ht env event rest htodo hd t hc nofun nofun nofun) ht
    exact { htt with }

theorem Tracked.step (h : Inv w) (ht : Tracked w) {l : Label} (hs : World.step l w = .ok w') : Tracked w' := by
  by_cases hl : l.IsCall
  · have hm : Moves False False w (World.step l w) := call_moves h hl
    rw [hs] at hm
    exact tracked_of_moves hm ht
  cases l with
  | loop =>
    cases hs
    unfold Service.loop
    split
    · exact { ht with }
    · exact ht
  | select ready =>
    rcases @select_moves w w' False False h ready hs with rfl | ⟨-,-,_,_,_,-,-,-,hm⟩
    · exact ht
    · exact tracked_of_moves hm (ht.reposition _ _ _ _ _)
  | next env => exact ht.next h hs
  | _ => exact absurd trivial hl

/-- Only the raise of `eventsDone` destroys connections. -/
theorem destroyed_by_sweep (h : Inv w) (ht : Tracked w) {l : Label} (hs : World.step l w = .ok w') {c : ConnId}
    (hn : w'.noted c .destroy ≠ w.noted c .destroy) : w.service.todo.head? = some .eventsDone := by
  by_cases hl : l.IsCall
  · have hm : Moves False False w (World.step l w) := call_moves h hl
    rw [hs] at hm
    exact absurd (destroyed_of_moves hm ht) hn
  cases l with
  | loop =>
    cases hs
    refine absurd ?_ hn
    unfold Service.loop
    split <;> rfl
  | select ready =>
    rcases @select_moves w w' False False h ready hs with rfl | ⟨-,-,r,k,todo,-,-,-,hm⟩
    · exact absurd rfl hn
    · exact absurd (destroyed_of_moves hm (ht.reposition r k todo w.service.slot false)) hn
  | next env =>
    rcases next_cases hs with ⟨-,rfl⟩ | ⟨event,rest,htodo,⟨-,rfl⟩ | ⟨-,rfl⟩ | ⟨t,hc,rfl⟩⟩
    · exact absurd rfl hn
    · exact absurd rfl hn
    · exact absurd rfl hn
    · by_cases hd : event = .eventsDone
      · rw [htodo,hd]
        rfl
      · have hm := @calls_moves w False False h ht env event rest htodo hd t hc nofun nofun nofun
        exact absurd (destroyed_of_moves hm ht) hn
  | _ => exact absurd trivial hl

theorem World.Reachable.tracked (h : w.Reachable) : Tracked w := by
  have hboth := h.invariant (I := fun w => Inv w ∧ Tracked w) (fun _ hi => ⟨.initial hi,.initial hi⟩) ?_
  · exact hboth.2
  · rintro l s t ⟨hinv,ht⟩ - hs
    exact ⟨World.step_inv hinv hs,ht.step hinv hs⟩

end LibIrcBot
