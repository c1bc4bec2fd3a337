import LibIrcBot.System.Loop

/-! # The timer of a logged in server

`activeTick` uses the send queue and the connection without a check. It is registered by
the login and unregistered by itself only, so that all depends on how the server's
connections are closed.
-/
namespace LibIrcBot
open CString Effects Relation

variable {w w' : World}

theorem Effect.activeTick (h : Effect w w') :
    w'.service.tick.count () .activeTick 0 = w.service.tick.count () .activeTick 0 := by
  cases h with
  | tickRegister t ht => exact Event.count_register_ne _ (timer_ne ht).2
  | tickUnregister t ht => exact Event.count_unregister_ne _ (timer_ne ht).2
  | send _ cmd args hcmd _ hs =>
    obtain ⟨_,_,_,_,_,_,_,_,_,_,_,_,rfl⟩ := sendRawCmd_outputs hcmd hs
    rfl
  | remove self _ =>
    obtain ⟨_,_,he⟩ := remove_shape (w.chans self).name self w
    rw [he]
  | _ => rfl

theorem activeTick_of_effects (h : ReflTransGen Effect w w') :
    w'.service.tick.count () .activeTick 0 = w.service.tick.count () .activeTick 0 :=
  Effects.invariant (I := fun t => t.service.tick.count () .activeTick 0 = w.service.tick.count () .activeTick 0)
    (fun _ _ ht hs => hs.activeTick.trans ht) rfl h

/-- Only a login registers the timer, and it needs an established connection. -/
theorem Change.activeTick (h : Change w w') :
    w'.service.tick.count () .activeTick 0 = w.service.tick.count () .activeTick 0 ∨ w'.Online := by
  cases h with
  | call hd => exact Or.inl (activeTick_of_effects hd.effects)
  | send _ command _ hs =>
    obtain ⟨_,_,_,_,_,_,_,_,_,_,_,_,rfl⟩ := sendRaw_outputs hs
    exact Or.inl rfl
  | login name hw => exact Or.inr ⟨hw.conn,hw.sendQueue⟩
  | nick nick => exact Or.inl rfl
  | addChannel name _ =>
    obtain ⟨_,_,_,_,_,he⟩ := addChannel_shape name w
    rw [he]
    exact Or.inl rfl

/-- No connection of the server was closed while the timer was registered. -/
def World.ClosedIdle (w : World) : Prop := ∀ c ∈ w.ghost.closings, c.active = 0

/-- The timer is registered with an established connection only. -/
def TimerOnline (w : World) : Prop :=
  w.ClosedIdle → 0 < w.service.tick.count () .activeTick 0 → w.Online

theorem TimerOnline.change (h : TimerOnline w) (hc : Change w w') : TimerOnline w' := by
  intro hidle hn
  rcases hc.activeTick with he | hon
  · have hidle : w.ClosedIdle := by rwa [World.ClosedIdle,hc.same.closings] at hidle
    exact hc.online (h hidle (he ▸ hn))
  · exact hon

/-- A closing leaves the registrations of the timer as they are. -/
theorem awaitReconn_activeTick {established : Bool} {t : World}
    (ht : ReflTransGen Effect (IrcServer.hangUp established w) t) :
    (IrcServer.awaitReconn t).service.tick.count () .activeTick 0 = w.service.tick.count () .activeTick 0 := by
  change ((t.service.tick.unregister () .connWaitLogin 0).register () .connWaitReconn 0).count () _ 0 = _
  rw [Event.count_register_ne _ (by decide : TickHandler.connWaitReconn ≠ .activeTick),
    Event.count_unregister_ne _ (by decide : TickHandler.connWaitLogin ≠ .activeTick)]
  exact activeTick_of_effects (w := IrcServer.hangUp established w) ht

theorem TimerOnline.close {established : Bool} {t : World}
    (ht : ReflTransGen Effect (IrcServer.hangUp established w) t) : TimerOnline (IrcServer.awaitReconn t) := by
  have hclosings : t.ghost.closings = w.ghost.closings ++
      [⟨w.service.tick.count () .activeTick 0,w.server.sending,w.server.recvbuf⟩] :=
    (same_of_effects ht).closings
  intro hidle hn
  -- The log has recorded how often the timer was registered.
  have hzero : w.service.tick.count () .activeTick 0 = 0 := hidle
    ⟨w.service.tick.count () .activeTick 0,w.server.sending,w.server.recvbuf⟩
    (hclosings ▸ List.mem_append_right _ (List.mem_singleton_self _))
  rw [awaitReconn_activeTick ht,hzero] at hn
  cases hn

theorem TimerOnline.action (h : TimerOnline w) (ha : Action w w') : TimerOnline w' := by
  cases ha with
  | change hc => exact h.change hc
  | receive _ data hw hr => exact fun _ _ => IrcServer.online_of_received hr.steps hw
  | establish conn hc hq hst =>
    intro hidle hn
    rw [IrcServer.connConnected,if_pos hc]
    exact ⟨by change w.server.conn.isSome; rw [hc]; rfl,rfl⟩
  | close t est hc ht => exact TimerOnline.close (hangUp_effects ht)
  | acknowledge conn operations readfds writefds hc hn ht => exact fun hidle hn => ⟨(h hidle hn).conn,(h hidle hn).sendQueue⟩
  | connect env hc =>
    intro hidle hn
    rcases connect_shape env hc with he | ⟨fd,conns,_,_,he⟩
    · rw [he] at hidle hn ⊢
      exact h hidle hn
    · rw [he] at hidle hn
      rw [Event.count_register_ne _ (by simp : TickHandler.checkPendingConnection w.nconns ≠ .activeTick)] at hn
      have hon := (h hidle hn).conn
      rw [hc] at hon
      cases hon
  | tickRegister t ht _ hc =>
    intro hidle hn
    rw [Event.count_register_ne _ ht.2] at hn
    exact ⟨(h hidle hn).conn,(h hidle hn).sendQueue⟩
  | tickUnregister t _ =>
    intro hidle hn
    have hn := Nat.lt_of_lt_of_le hn (w.service.tick.count_unregister_le () () .activeTick t 0 0)
    exact ⟨(h hidle hn).conn,(h hidle hn).sendQueue⟩
  | _ => exact fun hidle hn => ⟨(h hidle hn).conn,(h hidle hn).sendQueue⟩

theorem World.Initial.timerOnline (h : w.Initial) : TimerOnline w := by
  intro _ hn
  rw [h.tick] at hn
  cases hn

/-- In a run whose connections are all closed while the timer is not registered, it is
registered with an established connection only, and no step uses a null queue or a null connection. -/
theorem timer_safe (h : w.Reachable) (hidle : w.ClosedIdle) :
    (0 < w.service.tick.count () .activeTick 0 → w.Online) ∧
      ∀ l e, World.step l w = .error e → e.1 ≠ .nullQueue ∧ e.1 ≠ .nullConn := by
  have ht := World.Reachable.induct (I := TimerOnline) (fun _ hi => hi.timerOnline)
    (fun _ _ _ ht ha => ht.action ha) h
  refine ⟨ht hidle,fun l e hs => ?_⟩
  have hstep := World.step_takes h.inv l
  rw [hs] at hstep
  obtain ⟨_,_,hsafe | hstale⟩ := hstep
  · exact ⟨hsafe.queue,hsafe.conn⟩
  · have hq := (ht hidle hstale.1).sendQueue
    rw [hstale.2] at hq
    cases hq

theorem timer_safe_loggedIn : World.loggedIn.Online ∧
    ∀ l e, World.step l World.loggedIn = .error e → e.1 ≠ .nullQueue ∧ e.1 ≠ .nullConn := by
  have hidle : World.loggedIn.ClosedIdle := by unfold World.ClosedIdle; decide +kernel
  have h := timer_safe World.loggedIn_reachable hidle
  exact ⟨h.1 (by decide +kernel),h.2⟩

/-- A connection that is closed with the timer registered leaves it registered without one. -/
theorem connClosed_timer {conn : ConnId} {established : Bool} (hc : w.server.conn = some conn)
    (h : IrcServer.connClosed conn established w = .ok w') :
    w'.server.conn = none ∧ w'.service.tick.count () .activeTick 0 = w.service.tick.count () .activeTick 0 := by
  have hspec := Connection.connClosed_spec hc established
  rw [h] at hspec
  obtain ⟨t,ht,rfl⟩ := hspec
  have hsteps := hangUp_effects ht
  exact ⟨(same_of_effects hsteps).conn,awaitReconn_activeTick (w := w.log conn .disconnected) hsteps⟩

/-- The logged in server loses its connection by a failing read, and the next tick is raised. -/
def World.lost : World :=
  after (Label.iteration (.io [] [3]) 1 2 .failing ++ Label.iteration .tick 2 0 .failing) loggedIn

/-- The timer then runs without a connection, and sends to a null queue. -/
theorem lost_nullQueue : World.lost.Reachable ∧ World.lost.server.conn = none ∧
    0 < World.lost.service.tick.count () .activeTick 0 ∧
    ∃ e, World.step (.next .failing) World.lost = .error e ∧ e.1 = .nullQueue :=
  ⟨World.after_reachable World.loggedIn_reachable (by decide +kernel),by decide +kernel,by decide +kernel,
    World.fault_eq (by decide +kernel)⟩

end LibIrcBot
