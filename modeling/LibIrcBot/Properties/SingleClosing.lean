import LibIrcBot.System.Iterations
import LibIrcBot.System.Runs

/-! # Closing happens once

Each connection that the server loses is closed once and raises `disconnected` once. The
next raise of `eventsDone` destroys it, before `pselect`, and no event knows it any longer.
-/
namespace LibIrcBot
open CString Effects Relation Outcome Transitions

/-- Callbacks that connect or disconnect the server run behind `pselect`, not between the
head of the loop and `pselect`. -/
def Label.Outside : Label → World → Prop
  | .startup _, w => w.service.selecting = false
  | .disconnect, w => w.service.selecting = false
  | _, _ => True

instance (l : Label) (w : World) : Decidable (l.Outside w) :=
  match l with
  | .startup _ | .disconnect => inferInstanceAs (Decidable (w.service.selecting = false))
  | .loop | .select _ | .next _ | .join _ | .part _ | .sendCmd _ _ | .sendMsg _ _ _ | .setNick _
  | .otherRegister _ | .otherUnregister _ => instDecidableTrue

variable {w w' : World}

/-- While `eventsDone` is raised no closed connection is left behind; behind it there are none. -/
structure Swept (w : World) : Prop where
  idle : w.service.selecting = false → .eventsDone ∉ w.service.todo
  sweeping : w.service.selecting = true → (w.service.todo = [] ∧ ∀ c, w.stage c ≠ .closed) ∨
    (w.service.todo = [.eventsDone] ∧ ∀ c, w.service.eventsDone.countFrom w.service.slot () (.deleteConnection c) 0 =
      w.service.eventsDone.count () (.deleteConnection c) 0)

namespace Swept

theorem initial (h : w.Initial) : Swept w where
  idle := fun _ => by simp [h.todo]
  sweeping := fun hs => by rw [h.selecting] at hs; cases hs

theorem same (h : Swept w) (hs : w.Steady w') : Swept w' where
  idle := fun hsel => by
    rw [hs.todo]
    exact h.idle (hs.selecting ▸ hsel)
  sweeping := fun hsel => by
    have hstage : ∀ c, w'.stage c = w.stage c := fun c => World.stage_eq hs.nconns (hs.scheduled c)
    simp only [hs.todo,hs.slot,hs.eventsDone,hstage]
    exact h.sweeping (hs.selecting ▸ hsel)

theorem behind (hsel : w.service.selecting = false) (htodo : .eventsDone ∉ w.service.todo) : Swept w :=
  ⟨fun _ => htodo,fun hs => absurd hs (Bool.eq_false_iff.mp hsel)⟩

/-- Callbacks behind `pselect` raise no `eventsDone`. -/
theorem moves {live sane : Prop} (h : Tracked w) (hsel : w.service.selecting = false)
    (htodo : .eventsDone ∉ w.service.todo) (hm : ReflTransGen (Move live sane) w w') :
    w'.service.selecting = false ∧ .eventsDone ∉ w'.service.todo := by
  obtain ⟨h1,-,h3⟩ := position_of_moves hm h
  exact ⟨h3.trans hsel,h1 ▸ htodo⟩

/-- The raise of `eventsDone` destroys what it visits. -/
theorem sweep (ht : Tracked w) (htodo : w.service.todo = [.eventsDone]) (hsel : w.service.selecting = true)
    (hall : ∀ c, w.service.eventsDone.countFrom w.service.slot () (.deleteConnection c) 0 =
      w.service.eventsDone.count () (.deleteConnection c) 0) {env : Env}
    (hs : Service.next env w = .ok w') : Swept w' := by
  rcases next_cases hs with ⟨hnil,-⟩ | ⟨event,rest,hcons,hcase⟩
  · rw [htodo] at hnil
    cases hnil
  cases htodo.symm.trans hcons
  rcases hcase with ⟨hend,rfl⟩ | ⟨hskip,rfl⟩ | ⟨t,hc,rfl⟩
  · -- Nothing is left of those that were to be visited.
    refine ⟨fun _ => List.not_mem_nil,fun _ => Or.inl ⟨rfl,fun c hc => ?_⟩⟩
    have hzero := (hall c).symm.trans (Event.countFrom_end hend () (.deleteConnection c) 0)
    rw [ht.done c 0,if_pos rfl,show w.stage c = .closed from hc] at hzero
    cases hzero
  · refine ⟨fun hn => absurd hsel (Bool.eq_false_iff.mp hn),fun _ => Or.inr ⟨htodo,fun c => ?_⟩⟩
    exact (countFrom_skip (hskip (.deleteConnection c))).trans (hall c)
  · obtain ⟨c,hv,hclosed,hd⟩ := calls_destroys ht hc
    refine ⟨fun hn => absurd (hd.selecting.trans hsel) (Bool.eq_false_iff.mp hn),
      fun _ => Or.inr ⟨hd.todo.trans htodo,fun d => ?_⟩⟩
    change t.service.eventsDone.countFrom (t.service.slot + 1) () (.deleteConnection d) 0 =
      t.service.eventsDone.count () (.deleteConnection d) 0
    rw [hd.slot,hd.eventsDone]
    by_cases he : c = d
    · subst he
      have hone : w.service.eventsDone.count () (.deleteConnection c) 0 ≤ 1 := by
        rw [ht.done c 0,hclosed]
        exact le_refl 1
      have hgone := Event.count_unregister_once hone
      rw [hgone]
      exact Nat.le_zero.mp ((Event.countFrom_le _ _ _ _ _).trans hgone.le)
    · have hne : DoneHandler.deleteConnection c ≠ .deleteConnection d := fun heq => he (DoneHandler.deleteConnection.inj heq)
      rw [Event.countFrom_unregister_ne _ hne,Event.count_unregister_ne _ hne,← hall d]
      exact countFrom_skip fun hd => hne (hv.unique hd)

theorem step (h : Inv w) (ht : Tracked w) (hw : Swept w) {l : Label} (hl : l.Outside w)
    (hs : World.step l w = .ok w') : Swept w' := by
  by_cases hcall : l.IsCall
  · by_cases hsel : w.service.selecting = false
    · have hm : Moves False False w (World.step l w) := call_moves h hcall
      rw [hs] at hm
      obtain ⟨hsel',htodo'⟩ := moves ht hsel (hw.idle hsel) hm
      exact behind hsel' htodo'
    · have hex := call_exchanges h hcall (fun env he => hsel (by subst he; exact hl)) (fun he => hsel (by subst he; exact hl))
      rw [hs] at hex
      exact hw.same (steady_of_exchanges hex)
  cases l with
  | loop =>
    cases hs
    unfold Service.loop
    split
    · exact ⟨nofun,fun _ => Or.inr ⟨rfl,fun c => Event.countFrom_zero _ _ _ _⟩⟩
    · exact hw
  | select ready =>
    rcases @select_moves w w' False False h ready hs with rfl | ⟨-,-,r,k,todo,hno,-,-,hm⟩
    · exact hw
    · obtain ⟨hsel',htodo'⟩ := moves (ht.reposition r k todo w.service.slot false) rfl hno hm
      exact behind hsel' htodo'
  | next env =>
    by_cases hsel : w.service.selecting = true
    · rcases hw.sweeping hsel with ⟨hnil,_⟩ | ⟨htodo,hall⟩
      · have hsame : w' = w := by
          rcases next_cases hs with ⟨-,he⟩ | ⟨_,_,hcons,_⟩
          · exact he
          · rw [hnil] at hcons
            cases hcons
        rw [hsame]
        exact hw
      · exact sweep ht htodo hsel hall hs
    · have hsel : w.service.selecting = false := Bool.eq_false_iff.mpr hsel
      have hno := hw.idle hsel
      rcases next_cases hs with ⟨-,rfl⟩ | ⟨event,rest,htodo,⟨-,rfl⟩ | ⟨-,rfl⟩ | ⟨t,hc,rfl⟩⟩
      · exact hw
      · rw [htodo] at hno
        exact behind hsel fun hmem => hno (List.mem_cons_of_mem _ hmem)
      · exact behind hsel hno
      · have hne : event ≠ .eventsDone := by
          rintro rfl
          exact hno (htodo ▸ List.mem_cons_self)
        have hm := @calls_moves w False False h ht env event rest htodo hne t hc nofun nofun nofun
        obtain ⟨hsel',htodo'⟩ := moves ht hsel hno hm
        exact behind hsel' htodo'
  | _ => exact absurd trivial hcall

end Swept

/-- No event holds a registration of the connection. -/
structure World.Forgotten (w : World) (c : ConnId) : Prop where
  tick : ∀ slot ∈ w.service.tick.handlers,
    slot.handler ≠ some (.checkPendingConnection c) ∧ slot.handler ≠ some (.checkPendingTls c)
  readyRead : ∀ slot ∈ w.service.readyRead.handlers, slot.handler ≠ some (.readConnection c)
  readyWrite : ∀ slot ∈ w.service.readyWrite.handlers, slot.handler ≠ some (.writeConnection c)
  eventsDone : ∀ slot ∈ w.service.eventsDone.handlers, slot.handler ≠ some (.deleteConnection c)

theorem unregistered {η : Type} [DecidableEq η] {e : Listeners η} {handler : η}
    (h : ∀ id, e.count () handler id = 0) : ∀ slot ∈ e.handlers, slot.handler ≠ some handler :=
  fun slot hs hh => absurd (Event.count_pos_iff.mpr ⟨slot,hs,rfl,hh,rfl⟩) (Nat.not_lt.mpr (h slot.id).le)

theorem Tracked.forgotten (h : Tracked w) {c : ConnId} (hc : w.stage c = .destroyed) : w.Forgotten c where
  tick := by
    refine fun slot hs => ⟨unregistered (fun id => ?_) slot hs,unregistered (fun id => ?_) slot hs⟩
    · have hle := h.connects c id
      rw [hc] at hle
      exact Nat.le_zero.mp (hle.trans (le_of_eq (ite_self 0)))
    · have hle := h.handshakes c id
      rw [hc] at hle
      exact Nat.le_zero.mp (hle.trans (le_of_eq (ite_self 0)))
  readyRead := unregistered fun id => by
    rw [h.reads c id,hc]
    exact ite_self 0
  readyWrite := unregistered fun id => by
    rw [h.writes c id,hc]
    exact ite_self 0
  eventsDone := unregistered fun id => by
    rw [h.done c id,hc]
    exact ite_self 0

/-- The connection has been closed, has raised `disconnected` and is destroyed once each, if at all. -/
structure World.ClosedOnce (w : World) (c : ConnId) : Prop where
  /-- The descriptor is closed once when the server loses the connection. -/
  closes : w.noted c .close = if w.server.conn = some c then 0 else 1
  disconnects : w.noted c .disconnected = w.noted c .close
  destroys : w.noted c .destroy ≤ w.noted c .close
  /-- At `pselect` every closed connection is destroyed. -/
  swept : w.service.todo = [] → w.service.selecting = true → w.noted c .destroy = w.noted c .close
  forgotten : w.noted c .destroy ≠ 0 → w.Forgotten c

theorem Tracked.closedOnce (h : Tracked w) (hw : Swept w) {c : ConnId} (hc : c < w.nconns) : w.ClosedOnce c := by
  have hclose := h.noted c .close not_false
  have hdisc := h.noted c .disconnected not_false
  have hdestroy := h.noted c .destroy not_false
  have habsent : w.stage c ≠ .absent := fun he => World.stage_absent.mp he hc
  constructor
  · rw [hclose]
    split
    · next he => rw [(h.opened c).mpr he]; rfl
    · next hne =>
      have hopen : w.stage c ≠ .opened := fun he => hne ((h.opened c).mp he)
      cases hs : w.stage c <;> first | exact absurd hs habsent | exact absurd hs hopen | rfl
  · rw [hclose,hdisc]
    cases w.stage c <;> rfl
  · rw [hclose,hdestroy]
    cases w.stage c <;> decide
  · intro htodo hsel
    have hno : w.stage c ≠ .closed := by
      rcases hw.sweeping hsel with ⟨-,hno⟩ | ⟨hcons,-⟩
      · exact hno c
      · rw [htodo] at hcons
        cases hcons
    rw [hclose,hdestroy]
    cases hs : w.stage c <;> first | exact absurd hs hno | rfl
  · intro hne
    refine h.forgotten ?_
    rw [hdestroy] at hne
    cases hs : w.stage c <;> rw [hs] at hne <;> first | rfl | exact absurd rfl hne

/-- In every state of every run each connection is closed once, raises `disconnected` once
and is destroyed once, by the first raise of `eventsDone` behind its closing. -/
theorem closing_happens_once (h : Reaches World.step Label.Outside World.Initial w) {c : ConnId}
    (hc : c < w.nconns) : w.ClosedOnce c ∧ ∀ l w', World.step l w = .ok w' →
      w'.noted c .destroy ≠ w.noted c .destroy → w.service.todo.head? = some .eventsDone := by
  have hall := h.invariant (I := fun w => Inv w ∧ Tracked w ∧ Swept w)
    (fun _ hi => ⟨.initial hi,.initial hi,.initial hi⟩)
    fun _ _ _ hi hl hs => ⟨World.step_inv hi.1 hs,hi.2.1.step hi.1 hs,hi.2.2.step hi.1 hi.2.1 hl hs⟩
  obtain ⟨hinv,ht,hw⟩ := hall
  exact ⟨ht.closedOnce hw hc,fun l w' hs hn => destroyed_by_sweep hinv ht hs hn⟩

/-- The first connection fails behind a message, and the next iteration of the loop begins. -/
def World.bereft : World :=
  World.after (Label.connecting ++ Label.dropping Chunk.entered ++ .loop :: List.replicate 2 (.next Env.failing))
    (World.create (.create (lit "s") (lit "n") (some (lit "u")) (some (lit "r")) false) [])

theorem bereft_once : World.bereft.noted 0 .close = 1 ∧ World.bereft.noted 0 .destroy = 1 ∧
    World.bereft.ClosedOnce 0 ∧ ∀ l w', World.step l World.bereft = .ok w' →
      w'.noted 0 .destroy ≠ World.bereft.noted 0 .destroy → World.bereft.service.todo.head? = some .eventsDone := by
  refine ⟨by decide +kernel,by decide +kernel,closing_happens_once ?_ (by decide +kernel)⟩
  exact World.reaches_after (.start (World.create_initial _ _ _ _ _ _)) (by decide +kernel)

end LibIrcBot
