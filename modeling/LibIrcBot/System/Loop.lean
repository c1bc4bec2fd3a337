import LibIrcBot.System.Steps

/-! # Runs as sequences of actions

A step of a run visits one slot or is a call of the application, so that it is traced by
actions like the functions it calls. What all actions preserve is an invariant of all runs.
-/
namespace LibIrcBot
open CString Effects Relation Outcome Transitions

/-- The timer of a logged in server is registered without an established connection. -/
def World.Stale (w : World) : Prop := 0 < w.service.tick.count () .activeTick 0 ∧ w.server.sendQueue = none

/-- A step that takes actions only. A null queue or connection is used at most where the
timer `activeTick` runs without a connection. -/
abbrev Takes (w : World) (r : Run) : Prop := Traced Action (fun _ e => Safe e ∨ w.Stale) w id r

variable {w w' : World}

theorem Acts.takes {r : Run} (h : Acts w r) : Takes w r := h.mono (fun _ _ h => h) (fun _ _ h => Or.inl h)

theorem closeConn_stale (h : Inv w) : Traced Action (fun _ _ => True) w id (IrcServer.closeConn w) := by
  unfold IrcServer.closeConn
  split
  · next conn hc =>
    exact (Connection.close_acts h (h.created conn hc)).mono (fun _ _ h => h) (fun _ _ _ => trivial)
  · exact .fault trivial

/-- Without a send queue the timer `activeTick` may fault, but else takes actions, too. -/
theorem activeTick_stale (h : Inv w) (hq : w.server.sendQueue = none) :
    Traced Action (fun _ _ => True) w id (IrcServer.activeTick w) := by
  have hsend : ∀ t : World, t.server.sendQueue = none →
      IrcServer.sendRaw none t = .ok t ∨ ∃ e, IrcServer.sendRaw none t = .error e := by
    intro t hq
    change IrcServer.sendNext t = _ ∨ ∃ e, IrcServer.sendNext t = _
    rw [IrcServer.sendNext,hq]
    split
    · exact Or.inl rfl
    · exact Or.inr ⟨_,rfl⟩
  obtain ⟨credits,h1,he⟩ := IrcServer.credit_acts w
  unfold IrcServer.activeTick
  rw [he]
  refine .after h1 ?_
  dsimp only
  rcases hsend { w with server.sendcreditticks := credits } hq with hs | ⟨e,hs⟩
  case inr =>
    rw [hs]
    exact .fault trivial
  rw [hs]
  have h2 := IrcServer.idle_acts { w with server.sendcreditticks := credits }
  have hinv := (h.actions h1).action h2
  refine .step h2 ?_
  dsimp only [bind,Except.bind]
  split
  · rw [IrcServer.sendRawCmd_eq (show IrcCommand.MSG_PING.str = _ from rfl),IrcServer.sendRaw,IrcServer.queueRaw]
    dsimp only
    rw [hq]
    exact .fault trivial
  · split
    · have h3 := fun u => Action.tickUnregister u .activeTick not_false
      exact .step (h3 _) (closeConn_stale (hinv.action (h3 _)))
    · exact .pure .refl

namespace Service

theorem service_acts (w : World) (shutdownRef shutdownTicks : ℤ) (todo : List ServiceEvent) (slot : ℕ)
    (selecting : Bool) : Action w { w with
      service.shutdownRef := shutdownRef
      service.shutdownTicks := shutdownTicks
      service.todo := todo
      service.slot := slot
      service.selecting := selecting } := .service w _ _ _ _ _ _ _ _

theorem visit_takes {η : Type} {e : Listeners η} {id : ℤ} {call : η → World → Run}
    (hcall : ∀ slot ∈ e.handlers, ∀ handler, slot.handler = some handler → slot.id = id →
      Takes w (call handler w)) : Takes w (visit e id call w) := by
  unfold visit
  split
  · exact .pure (.single (service_acts w _ _ _ _ _))
  · next slot hs =>
    split
    · exact .pure (.single (service_acts w _ _ _ _ _))
    · next handler hh =>
      split
      · next hid =>
        refine (hcall slot (List.mem_of_getElem? hs) handler hh hid).bind (fun t _ => ?_)
        exact .pure (.single (service_acts t _ _ _ _ _))
      · exact .pure (.single (service_acts w _ _ _ _ _))

theorem callTick_takes (h : Inv w) (env : Env) {handler : TickHandler} (hc : handler.Created w.nconns)
    (hn : 0 < w.service.tick.count () handler 0) : Takes w (callTick env handler w) := by
  cases handler with
  | connWaitLogin => exact (IrcServer.connWaitLogin_acts h hn).takes
  | connWaitReconn => exact .pure (IrcServer.connWaitReconn_acts env w)
  | activeTick =>
    cases hq : w.server.sendQueue with
    | none => exact (activeTick_stale h hq).mono (fun _ _ h => h) (fun _ _ _ => Or.inr ⟨hn,hq⟩)
    | some queue => exact (IrcServer.activeTick_acts h (h.queued (by rw [hq]; rfl))).takes
  | waitjoin self =>
    exact (Acts.ofChanges (Changes.ofCalls (Calls.ofTraces (IrcChannel.waitjoin_traces self w : Traces none w _)
      (fun _ he => ⟨_,.waitjoin self hn he⟩) h.logged))).takes
  | waitrejoin self =>
    exact (Acts.ofChanges (Changes.ofCalls (Calls.ofTraces (IrcChannel.waitrejoin_traces self w : Traces none w _)
      (fun _ he => ⟨_,.waitrejoin self hn he⟩) h.logged))).takes
  | checkPendingConnection self => exact (Connection.checkPendingConnection_acts h hc).takes
  | checkPendingTls self => exact (Connection.checkPendingTls_acts h hc).takes
  | other n => exact .pure .refl

theorem next_takes (h : Inv w) (env : Env) : Takes w (next env w) := by
  unfold next
  split
  · exact .pure .refl
  · refine visit_takes (fun slot hs handler hh _ => ?_)
    cases handler with
    | deleteConnection self => exact (Connection.deleteConnection_acts h (h.dones slot hs _ hh)).takes
  · refine visit_takes (fun slot hs handler hh hid => ?_)
    exact callTick_takes h env (h.ticks slot hs handler hh) (Event.count_pos_iff.mpr ⟨slot,hs,rfl,hh,hid⟩)
  · refine visit_takes (fun slot hs handler hh _ => ?_)
    cases handler with
    | writeConnection self => exact (Connection.writeConnection_acts h env (h.writes slot hs _ hh)).takes
  · refine visit_takes (fun slot hs handler hh _ => ?_)
    cases handler with
    | readConnection self => exact (Connection.readConnection_acts h env (h.reads slot hs _ hh)).takes

theorem loop_acts (w : World) : ReflTransGen Action w (loop w) := by
  unfold loop
  split
  · exact .single (service_acts w _ _ _ _ _)
  · exact .refl

theorem shutdownLock_acts (w : World) : ReflTransGen Action w (shutdownLock w) := by
  unfold shutdownLock
  split
  · exact .single (service_acts w _ _ _ _ _)
  · exact .refl

theorem shutdown_acts (h : Inv w) : Acts w (shutdown w) := by
  have h1 := Action.logout w
  have h2 := shutdownLock_acts
    { w with server.disconnected := w.server.disconnected.register () .shutdownok 0 }
  exact .step h1 (.after h2 (IrcServer.disconnect_acts ((h.action h1).actions h2)))

theorem select_acts (h : Inv w) (ready : Ready) : Acts w (select ready w) := by
  unfold select
  split
  · refine .step (service_acts w w.service.shutdownRef w.service.shutdownTicks w.service.todo w.service.slot false) ?_
    dsimp only
    split
    · have h1 := service_acts w 0 5 w.service.todo w.service.slot false
      exact .step (service_acts _ 0 5 _ _ _) (shutdown_acts (h.action h1))
    · split
      · split <;> exact .pure (.single (service_acts _ _ _ _ _ _))
      · exact .pure (.single (service_acts _ _ _ _ _ _))
    · split
      · exact .pure (.single (service_acts _ _ _ _ _ _))
      · exact .pure .refl
  · exact .pure .refl

theorem startup_acts (env : Env) (w : World) : ReflTransGen Action w (startup env w) := by
  unfold startup
  refine (IrcServer.connect_acts env w).trans ?_
  dsimp only
  split
  · exact .refl
  · exact .single (.listen _)

end Service

theorem takes_of_changes {r : Except (Fault × World) (ℤ × World)} (h : Traced Change Sound w Prod.snd r) :
    Takes w (r.map Prod.snd) := by
  cases r with
  | ok a => exact actions_of_changes h
  | error e =>
    obtain ⟨t,ht,he⟩ := h
    exact ⟨t,actions_of_changes ht,Or.inl he.safe⟩

/-- Every step is a sequence of actions. -/
theorem World.step_takes (h : Inv w) (l : Label) : Takes w (step l w) := by
  cases l with
  | startup env => exact .pure (Service.startup_acts env w)
  | loop => exact .pure (Service.loop_acts w)
  | select ready => exact (Service.select_acts h ready).takes
  | next env => exact Service.next_takes h env
  | join channel =>
    exact (Acts.ofChanges (IrcServer.join_changes h.logged fun _ hget => (h.name_of_get hget).2)).takes
  | part channel => exact (IrcServer.part_acts h channel).takes
  | sendCmd cmd args => exact takes_of_changes (IrcServer.sendCmd_changes h.logged cmd args)
  | sendMsg recipient message action =>
    exact takes_of_changes (IrcServer.sendMsg_changes h.logged recipient message action)
  | setNick nick => exact (Acts.ofChanges (IrcServer.setNick_changes h.logged nick)).takes
  | disconnect => exact (IrcServer.disconnect_acts h).takes
  | otherRegister n => exact .pure (.single (.tickRegister w (.other n) ⟨nofun,nofun⟩ not_false trivial))
  | otherUnregister n => exact .pure (.single (.tickUnregister w (.other n) not_false))

theorem World.step_inv {l : Label} (h : Inv w) (hs : step l w = .ok w') : Inv w' := by
  have ht := step_takes h l
  rw [hs] at ht
  exact h.actions ht

theorem World.Reachable.inv (h : w.Reachable) : Inv w :=
  h.invariant (fun _ hi => Inv.initial hi) (fun _ _ _ hi _ hs => World.step_inv hi hs)

/-- What holds initially and is preserved by actions in linked states is an invariant of all runs. -/
theorem World.Reachable.induct {I : World → Prop} (hi : ∀ w : World, w.Initial → I w)
    (ha : ∀ w w' : World, Inv w → I w → Action w w' → I w') (h : w.Reachable) : I w := by
  have hboth := h.invariant (I := fun w => Inv w ∧ I w) (fun w hw => ⟨.initial hw,hi w hw⟩) ?_
  · exact hboth.2
  · intro l s t hst _ hs
    have ht := step_takes hst.1 l
    rw [hs] at ht
    exact Effects.invariant (I := fun w => Inv w ∧ I w) (fun _ _ hw ha' => ⟨hw.1.action ha',ha _ _ hw.1 hw.2 ha'⟩)
      hst ht

end LibIrcBot
