import LibIrcBot.System.Supervision

/-! # The timers that watch over the server

A timer counts down whatever the server waits for, through all that the service and the application do, so that no
wait is endless.
-/
namespace LibIrcBot
open CString Effects Relation Outcome Transitions

variable {w w' : World}

namespace IrcServer
variable {env : Env}

theorem closeConn_supervised (h : Inv w) (hr : closeConn w = .ok w') : w'.Supervised := by
  unfold closeConn at hr
  split at hr
  · next conn hc => exact Connection.close_supervised h (fun hne => absurd hc hne) hr
  · cases hr

/-- Without a connection, the next one is initiated, or nothing changes. -/
theorem connect_supervised (h : Inv w) (env : Env) (hc : w.server.conn = none) :
    connect env w = (-1,w) ∨ (connect env w).1 = 0 ∧ (connect env w).2.server.conn ≠ none ∧ (connect env w).2.Supervised := by
  have hst : w.server.connst = 0 := h.connst (h.queue hc)
  unfold connect
  rw [if_neg (by simp [hc])]
  cases env.socket with
  | none => exact .inl rfl
  | some fd =>
    refine .inr ⟨rfl,nofun,.opening (c := w.nconns) rfl hst (fun _ => ⟨?_,?_⟩) fun he => ?_⟩
    · change 0 < (w.service.tick.register () (.checkPendingConnection w.nconns) 0).count () (.checkPendingConnection w.nconns) 0
      rw [Event.count_register,if_pos ⟨rfl,rfl,rfl⟩]
      exact Nat.succ_pos _
    · simp only [Connection.create,Service.registerWrite,World.setConn,Function.update_self]
      decide
    · simp only [Connection.create,Service.registerWrite,World.setConn,Function.update_self] at he
      cases he

theorem connWaitReconn_supervised (h : Inv w) (hs : w.Supervised) : (connWaitReconn env w).Supervised := by
  have h1 := h.action (.counters w (w.server.reconnticks - 1) w.server.loginticks w.server.idleticks
    w.server.sendcreditticks)
  unfold connWaitReconn
  dsimp only
  split
  · next hdue =>
    by_cases hc : w.server.conn = none
    · rcases connect_supervised h1 env hc with he | ⟨hzero,hconn,hst⟩
      · rw [he]
        exact { hs with reconnect := fun _ hn => ⟨(hs.reconnect hc hn).1,(by decide : 0 < RECONNTICKS),Int.le_refl _⟩ }
      · rw [hzero]
        exact hst.spares (.unregister (t := .connWaitReconn) _ hconn)
    · rw [connect,if_pos (Option.isSome_iff_ne_none.mpr hc)]
      have hcount : World.Supervised { w with server.reconnticks := w.server.reconnticks - 1 } :=
        { hs with reconnect := fun hn => absurd hn hc }
      exact hcount.spares (.unregister (t := .connWaitReconn) _ hc)
  · next hleft =>
    exact { hs with reconnect := fun hc hn => ⟨(hs.reconnect hc hn).1,not_le.mp hleft,
      (Int.sub_le_self _ (by decide)).trans (hs.reconnect hc hn).2.2⟩ }

theorem connWaitLogin_supervised (h : Inv w) (hs : w.Supervised) (hr : connWaitLogin w = .ok w') : w'.Supervised := by
  have h1 := h.action (.counters w w.server.reconnticks (w.server.loginticks - 1) w.server.idleticks
    w.server.sendcreditticks)
  unfold connWaitLogin at hr
  dsimp only at hr
  split at hr
  · exact closeConn_supervised (h1.action (.tickUnregister _ .connWaitLogin not_false)) hr
  · next hleft =>
    cases hr
    exact { hs with login := fun hneg => ⟨(hs.login hneg).1,not_le.mp hleft,
      (Int.sub_le_self _ (by decide)).trans (hs.login hneg).2.2⟩ }

theorem activeTick_supervised (h : Inv w) (hs : w.Supervised) (hr : activeTick w = .ok w') : w'.Supervised := by
  obtain ⟨credits,h1,he⟩ := credit_acts w
  unfold activeTick at hr
  rw [he] at hr
  obtain ⟨t,ht,hr⟩ := ok_of_bind hr
  have hcredit : w.Spares { w with server.sendcreditticks := credits } := { World.Spares.refl w with }
  have hst := hs.spares (hcredit.trans (.outputs (sendRaw_outputs ht)))
  have hinv : Inv t := (h.actions h1).action (.change (.send _ t none nofun ht))
  have h2 := idle_acts t
  dsimp only at hr
  split at hr
  · next hzero =>
    have hping : World.Supervised { t with server.idleticks := t.server.idleticks - 1 } :=
      { hst with active := fun hpos => ⟨(hst.active hpos).1,by rw [hzero]; exact (by decide : -PINGTICKS < 0 ∧ 0 ≤ IDLETICKS)⟩ }
    exact hping.spares (sendRawCmd_spares rfl hr)
  · split at hr
    · exact closeConn_supervised ((hinv.action h2).action (.tickUnregister _ .activeTick not_false)) hr
    · next hleft =>
      cases hr
      exact { hst with active := fun hpos => ⟨(hst.active hpos).1,not_le.mp hleft,
        (Int.sub_le_self _ (by decide)).trans (hst.active hpos).2.2⟩ }

theorem disconnect_supervised (h : Inv w) (hs : w.Supervised) (hc : w.server.conn ≠ none)
    (hr : disconnect w = .ok w') : w'.Supervised := by
  have h1 := Action.tickUnregister w .connWaitLogin not_false
  have h2 := Action.tickUnregister { w with service.tick := w.service.tick.unregister () .connWaitLogin 0 }
    .connWaitReconn not_false
  have hinv := (h.action h1).action h2
  unfold disconnect at hr
  dsimp only at hr
  split at hr
  · next hpos =>
    have hlogin := hs.spares (.unregister (t := .connWaitLogin) w (not_lt.mpr (Int.le_of_lt hpos)))
    have hreconn := hlogin.spares (.unregister (t := .connWaitReconn) _ hc)
    exact hreconn.spares (sendRawCmd_spares rfl hr)
  · split at hr
    · next conn hconn => exact Connection.close_supervised hinv (fun hne => absurd hconn hne) hr
    · next hnone => exact absurd hnone hc

end IrcServer

namespace Service
variable {env : Env}

theorem visit_supervised {η : Type} {e : Listeners η} {id : ℤ} {call : η → World → Run} (hs : w.Supervised)
    (hcall : ∀ slot ∈ e.handlers, ∀ handler, slot.handler = some handler → slot.id = id →
      ∀ t, call handler w = .ok t → t.Supervised) (hr : visit e id call w = .ok w') : w'.Supervised := by
  have hmove : ∀ (t : World) todo slot, t.Supervised →
      World.Supervised { t with service.todo := todo, service.slot := slot } :=
    fun t todo slot ht => ht.spares { World.Spares.refl t with }
  unfold visit at hr
  split at hr
  · cases hr
    exact hmove w _ _ hs
  · next slot hslot =>
    split at hr
    · cases hr
      exact hmove w _ _ hs
    · next handler hh =>
      split at hr
      · next hid =>
        obtain ⟨t,ht,hr⟩ := ok_of_bind hr
        cases hr
        exact hmove t _ _ (hcall slot (List.mem_of_getElem? hslot) handler hh hid t ht)
      · cases hr
        exact hmove w _ _ hs

theorem callTick_supervised (h : Inv w) (hs : w.Supervised) {handler : TickHandler}
    (hn : 0 < w.service.tick.count () handler 0) (hr : callTick env handler w = .ok w') : w'.Supervised := by
  cases handler with
  | connWaitLogin => exact IrcServer.connWaitLogin_supervised h hs hr
  | connWaitReconn =>
    cases hr
    exact IrcServer.connWaitReconn_supervised h hs
  | activeTick => exact IrcServer.activeTick_supervised h hs hr
  | waitjoin self => exact hs.spares (.effects (Does.waitjoin self hn hr).effects)
  | waitrejoin self => exact hs.spares (.effects (Does.waitrejoin self hn hr).effects)
  | checkPendingConnection self => exact Connection.checkPendingConnection_supervised h hs hr
  | checkPendingTls self => exact Connection.checkPendingTls_supervised h hs hr
  | other n =>
    cases hr
    exact hs

theorem next_supervised (h : Inv w) (hs : w.Supervised) (hr : next env w = .ok w') : w'.Supervised := by
  unfold next at hr
  split at hr
  · cases hr
    exact hs
  · refine visit_supervised hs (fun slot hslot handler hh _ t ht => ?_) hr
    cases handler with
    | deleteConnection self => exact Connection.deleteConnection_supervised hs (h.dones slot hslot _ hh).2 ht
  · refine visit_supervised hs (fun slot hslot handler hh hid t ht => ?_) hr
    exact callTick_supervised h hs (Event.count_pos_iff.mpr ⟨slot,hslot,rfl,hh,hid⟩) ht
  · refine visit_supervised hs (fun slot hslot handler hh _ t ht => ?_) hr
    cases handler with
    | writeConnection self => exact Connection.writeConnection_supervised h hs (h.writes slot hslot _ hh) ht
  · refine visit_supervised hs (fun slot hslot handler hh _ t ht => ?_) hr
    cases handler with
    | readConnection self => exact Connection.readConnection_supervised h hs ht

theorem shutdown_supervised (h : Inv w) (hs : w.Supervised) (hc : w.server.conn ≠ none) (hr : shutdown w = .ok w') :
    w'.Supervised := by
  have h1 := Action.logout w
  have h2 := shutdownLock_acts { w with server.disconnected := w.server.disconnected.register () .shutdownok 0 }
  have hlock : w.Spares (shutdownLock
      { w with server.disconnected := w.server.disconnected.register () .shutdownok 0 }) := by
    unfold shutdownLock
    split
    · exact { World.Spares.refl w with }
    · exact { World.Spares.refl w with }
  exact IrcServer.disconnect_supervised ((h.action h1).actions h2) (hs.spares hlock) (by rw [hlock.conn]; exact hc) hr

theorem select_supervised (h : Inv w) (hs : w.Supervised) {ready : Ready}
    (hC : ready = .shutdown → w.server.conn ≠ none) (hr : select ready w = .ok w') : w'.Supervised := by
  have hmove : ∀ shutdownRef shutdownTicks todo, World.Supervised { w with
      service.selecting := false
      service.shutdownRef := shutdownRef
      service.shutdownTicks := shutdownTicks
      service.todo := todo } := fun _ _ _ => hs.spares { World.Spares.refl w with }
  unfold select at hr
  split at hr
  · dsimp only at hr
    split at hr
    · have h1 := service_acts w 0 5 w.service.todo w.service.slot false
      exact shutdown_supervised (h.action h1) (hmove _ _ _) (hC rfl) hr
    · split at hr
      · split at hr
        · cases hr
          exact hmove _ _ _
        · cases hr
          exact hmove _ _ _
      · cases hr
        exact hmove _ _ _
    · split at hr
      · cases hr
        exact hmove _ _ _
      · cases hr
        exact hmove _ _ _
  · cases hr
    exact hs

theorem startup_supervised (h : Inv w) (hs : w.Supervised) (env : Env) : (startup env w).Supervised := by
  unfold startup
  dsimp only
  by_cases hc : w.server.conn = none
  · rcases IrcServer.connect_supervised h env hc with he | ⟨hzero,_,hst⟩
    · rw [he]
      exact hs
    · rw [hzero]
      exact hst.spares { World.Spares.refl _ with }
  · rw [IrcServer.connect,if_pos (Option.isSome_iff_ne_none.mpr hc)]
    exact hs.spares { World.Spares.refl _ with }

end Service

namespace IrcServer

theorem addChannel_spares (name : Bytes) (w : World) : w.Spares (addChannel name w).2 := by
  obtain ⟨_,_,_,_,_,he⟩ := addChannel_shape name w
  rw [he]
  exact { World.Spares.refl w with }

theorem join_spares (h : Inv w) {channel : Bytes} (hr : join channel w = .ok w') : w.Spares w' := by
  unfold join at hr
  split at hr
  · next c hget =>
    have hhas : w.Has c := by rw [World.Has,(h.name_of_get hget).2,hget]
    exact .effects (Does.join c hhas hr).effects
  · exact (addChannel_spares channel w).trans (.effects (Does.join w.nchans (addChannel_has channel w) hr).effects)

theorem part_spares (h : Inv w) {channel : Bytes} (hr : part channel w = .ok w') : w.Spares w' := by
  cases hget : w.server.channels.get channel with
  | none =>
    rw [part,hget] at hr
    cases hr
    exact .refl w
  | some c =>
    obtain rfl := (h.name_of_get hget).2
    exact .effects (Does.part c hget hr).effects

theorem sendChunks_spares {header : Bytes} {action : Bool} {maxchunk n : ℕ} {message : Bytes}
    (hr : sendChunks header action maxchunk n message w = .ok w') : w.Spares w' := by
  induction n generalizing w message with
  | zero =>
    rw [sendChunks] at hr
    split at hr
    · cases hr
      exact .refl _
    · cases hr
  | succ n ih =>
    rw [sendChunks] at hr
    split at hr
    · cases hr
      exact .refl _
    · dsimp only at hr
      generalize (if message.length > maxchunk then maxchunk else message.length) = chunksz at hr
      split at hr
      · cases hr
      · obtain ⟨t,ht,hr⟩ := ok_of_bind hr
        exact World.Spares.trans (.outputs (sendRaw_outputs ht)) (ih hr)

theorem sendMsg_spares {recipient message : Bytes} {action : Bool} {r : ℤ × World}
    (hr : sendMsg recipient message action w = .ok r) : w.Spares r.2 := by
  unfold sendMsg at hr
  split at hr
  · cases hr
    exact .refl w
  · split at hr
    · cases hr
      exact .refl w
    · dsimp only at hr
      split at hr
      · cases hr
      · obtain ⟨t,ht,hr⟩ := ok_of_bind hr
        cases hr
        exact sendChunks_spares ht

theorem sendCmd_spares {cmd : IrcCommand} {args : Bytes} {r : ℤ × World} (hr : sendCmd cmd args w = .ok r) :
    w.Spares r.2 := by
  unfold sendCmd at hr
  split at hr
  · cases hr
    exact .refl w
  · obtain ⟨t,ht,hr⟩ := ok_of_bind hr
    cases hr
    unfold sendRawCmd at ht
    obtain ⟨name,_,ht⟩ := ok_of_bind ht
    obtain ⟨text,_,ht⟩ := ok_of_bind ht
    exact .outputs (sendRaw_outputs ht)

theorem setNick_spares {nick : Bytes} (hr : setNick nick w = .ok w') : w.Spares w' := by
  have hnick : w.Spares { w with server.nick := nick } := { World.Spares.refl w with }
  unfold setNick at hr
  split at hr
  · dsimp only at hr
    split at hr
    · exact hnick.trans (sendRawCmd_spares rfl hr)
    · cases hr
      exact hnick
  · cases hr
    exact .refl w

end IrcServer

/-- The server is disconnected only while it has a connection. -/
def Label.Connected : Label → World → Prop
  | .disconnect, w | .select .shutdown, w => w.server.conn ≠ none
  | _, _ => True

instance (l : Label) (w : World) : Decidable (l.Connected w) := by
  unfold Label.Connected
  split <;> infer_instance

namespace World.Supervised

theorem initial (h : w.Initial) : w.Supervised where
  reconnect := fun _ hn => by
    rw [h.nconns] at hn
    cases hn
  connect := fun c hc => by
    rw [h.conn] at hc
    cases hc
  handshake := fun c hc => by
    rw [h.conn] at hc
    cases hc
  login := fun hneg => absurd h.connst (Int.ne_of_lt hneg)
  active := fun hpos => absurd h.connst (Int.ne_of_gt hpos)

theorem step {l : Label} (h : Inv w) (hs : w.Supervised) (hC : l.Connected w) (hr : World.step l w = .ok w') :
    w'.Supervised := by
  cases l with
  | startup env =>
    cases hr
    exact Service.startup_supervised h hs env
  | loop =>
    cases hr
    unfold Service.loop
    split
    · exact hs.spares { Spares.refl w with }
    · exact hs
  | select ready => exact Service.select_supervised h hs (by rintro rfl; exact hC) hr
  | next env => exact Service.next_supervised h hs hr
  | join channel => exact hs.spares (IrcServer.join_spares h hr)
  | part channel => exact hs.spares (IrcServer.part_spares h hr)
  | sendCmd cmd args =>
    obtain ⟨r,hsend,rfl⟩ := ok_of_map hr
    exact hs.spares (IrcServer.sendCmd_spares hsend)
  | sendMsg recipient message action =>
    obtain ⟨r,hsend,rfl⟩ := ok_of_map hr
    exact hs.spares (IrcServer.sendMsg_spares hsend)
  | setNick nick => exact hs.spares (IrcServer.setNick_spares hr)
  | disconnect => exact IrcServer.disconnect_supervised h hs hC hr
  | otherRegister n =>
    cases hr
    exact hs.spares (.register w (.other n) 0)
  | otherUnregister n =>
    cases hr
    exact hs.spares (.unregister w not_false)

end World.Supervised

/-- Unless the server is disconnected while it has no connection, all that it waits for is watched by a timer. -/
theorem waits_supervised (h : Reaches World.step Label.Connected World.Initial w) : w.Supervised := by
  have hboth : Inv w ∧ w.Supervised := h.invariant (I := fun w => Inv w ∧ w.Supervised)
    (fun _ hi => ⟨.initial hi,.initial hi⟩) fun _ _ _ hw hC hs => ⟨World.step_inv hw.1 hs,hw.2.step hw.1 hC hs⟩
  exact hboth.2

/-- The first connection is established, and fails: the next one is awaited for a few ticks. -/
theorem waits_supervised_lost : ∃ w : World, (w.server.conn = none ∧ 0 < w.nconns) ∧
    0 < w.timers .connWaitReconn ∧ 0 < w.server.reconnticks ∧ w.server.reconnticks ≤ RECONNTICKS := by
  have hrun : (follow World.step Label.Connected (Label.connecting ++ Label.iteration (.io [] [3]) 1 2 .failing)
      (World.create (.create (lit "s") (lit "n") (some (lit "u")) (some (lit "r")) false) [])).any
        fun w => w.server.conn = none ∧ 0 < w.nconns := by decide +kernel
  obtain ⟨w,hw,hend⟩ := Reaches.exists_follow (.start (World.create_initial _ _ _ _ _ _)) hrun
  obtain ⟨hc,hn⟩ := of_decide_eq_true hend
  exact ⟨w,⟨hc,hn⟩,(waits_supervised hw).reconnect hc hn⟩

end LibIrcBot
