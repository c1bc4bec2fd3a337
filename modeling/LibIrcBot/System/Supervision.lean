import LibIrcBot.System.Loop

/-! # What the server waits for

In every state that it can be in the server waits for something: for the time to connect again, for a connection, for
a TLS handshake, for the login, or for the next data. Each wait has a timer; what the functions of a connection do to
the timers leaves the one that is needed.
-/
namespace LibIrcBot
open CString Effects Relation Outcome

variable {w w' w'' : World}

abbrev World.timers (w : World) (t : TickHandler) : ℕ := w.service.tick.count () t 0

/-- What the server waits for is watched by a timer, whose counter is in its range. -/
structure World.Supervised (w : World) : Prop where
  /-- Once there has been a connection, the next one is awaited. -/
  reconnect : w.server.conn = none → 0 < w.nconns →
    0 < w.timers .connWaitReconn ∧ 0 < w.server.reconnticks ∧ w.server.reconnticks ≤ RECONNTICKS
  connect : ∀ c, w.server.conn = some c → w.server.connst = 0 → (w.conns c).connecting ≠ 0 →
    0 < w.timers (.checkPendingConnection c) ∧ 0 < (w.conns c).connecting ∧ (w.conns c).connecting ≤ CONNTICKS
  handshake : ∀ c, w.server.conn = some c → w.server.connst = 0 → (w.conns c).connecting = 0 →
    0 < w.timers (.checkPendingTls c) ∧ 0 < (w.conns c).tlsConnectTicks ∧ (w.conns c).tlsConnectTicks ≤ CONNTICKS
  login : w.server.connst < 0 →
    0 < w.timers .connWaitLogin ∧ 0 < w.server.loginticks ∧ w.server.loginticks ≤ LOGINTICKS
  active : 0 < w.server.connst →
    0 < w.timers .activeTick ∧ -PINGTICKS < w.server.idleticks ∧ w.server.idleticks ≤ IDLETICKS

/-! ## What the timers depend on -/

/-- The timers that the server may need for what it waits for. -/
def TickHandler.Needed (w : World) : TickHandler → Prop
  | .connWaitReconn => w.server.conn = none
  | .checkPendingConnection c | .checkPendingTls c => w.server.conn = some c
  | .connWaitLogin => w.server.connst < 0
  | .activeTick => 0 < w.server.connst
  | _ => False

/-- No timer is taken away that the server needs, and no counter changes. -/
structure World.Spares (w w' : World) : Prop where
  conn : w'.server.conn = w.server.conn
  nconns : w'.nconns = w.nconns
  connst : w'.server.connst = w.server.connst
  reconnticks : w'.server.reconnticks = w.server.reconnticks
  loginticks : w'.server.loginticks = w.server.loginticks
  idleticks : w'.server.idleticks = w.server.idleticks
  timers : ∀ t, t.Needed w → w.timers t ≤ w'.timers t
  connecting : ∀ c, w.server.conn = some c → (w'.conns c).connecting = (w.conns c).connecting
  tlsConnectTicks : ∀ c, w.server.conn = some c → (w'.conns c).tlsConnectTicks = (w.conns c).tlsConnectTicks

namespace World.Spares

theorem refl (w : World) : w.Spares w := ⟨rfl,rfl,rfl,rfl,rfl,rfl,fun _ _ => Nat.le_refl _,fun _ _ => rfl,fun _ _ => rfl⟩

theorem needed (h : w.Spares w') (t : TickHandler) (ht : t.Needed w) : t.Needed w' := by
  unfold TickHandler.Needed at ht ⊢
  rw [h.conn,h.connst]
  exact ht

theorem trans (h : w.Spares w') (h' : w'.Spares w'') : w.Spares w'' where
  conn := h'.conn.trans h.conn
  nconns := h'.nconns.trans h.nconns
  connst := h'.connst.trans h.connst
  reconnticks := h'.reconnticks.trans h.reconnticks
  loginticks := h'.loginticks.trans h.loginticks
  idleticks := h'.idleticks.trans h.idleticks
  timers := fun t ht => (h.timers t ht).trans (h'.timers t (h.needed t ht))
  connecting := fun c hc => (h'.connecting c (h.conn.trans hc)).trans (h.connecting c hc)
  tlsConnectTicks := fun c hc => (h'.tlsConnectTicks c (h.conn.trans hc)).trans (h.tlsConnectTicks c hc)

theorem outputs (h : w.Outputs w') : w.Spares w' := by
  have hwritten := h.written
  obtain ⟨_,_,_,_,_,_,_,_,_,_,_,_,rfl⟩ := h
  refine { refl w with connecting := fun c _ => ?_, tlsConnectTicks := fun c _ => ?_ }
  all_goals
    obtain ⟨_,_,he⟩ := (hwritten c).shape
    rw [he]

/-- The connection of the server changes in other fields, or it is another connection. -/
theorem setConn (w : World) (self : ConnId) {f : Connection → Connection} (hf : w.server.conn = some self →
    (f (w.conns self)).connecting = (w.conns self).connecting ∧
      (f (w.conns self)).tlsConnectTicks = (w.conns self).tlsConnectTicks) : w.Spares (w.setConn self f) := by
  have hfields : ∀ c, w.server.conn = some c → ((w.setConn self f).conns c).connecting = (w.conns c).connecting ∧
      ((w.setConn self f).conns c).tlsConnectTicks = (w.conns c).tlsConnectTicks := fun c hc => by
    rw [setConn_conns]
    split
    · next he =>
      subst he
      exact hf hc
    · exact ⟨rfl,rfl⟩
  exact { refl w with connecting := fun c hc => (hfields c hc).1, tlsConnectTicks := fun c hc => (hfields c hc).2 }

theorem register (w : World) (t : TickHandler) (i : ℤ) :
    w.Spares { w with service.tick := w.service.tick.register () t i } := by
  refine { refl w with timers := fun h _ => ?_ }
  change w.timers h ≤ (w.service.tick.register () t i).count () h 0
  rw [Event.count_register]
  exact Nat.le_add_right _ _

theorem unregister (w : World) {t : TickHandler} (ht : ¬ t.Needed w) :
    w.Spares { w with service.tick := w.service.tick.unregister () t 0 } := by
  refine { refl w with timers := fun h hh => ?_ }
  change w.timers h ≤ (w.service.tick.unregister () t 0).count () h 0
  rw [Event.count_unregister_ne _ (by rintro rfl; exact ht hh)]

theorem effect (h : Effect w w') : w.Spares w' := by
  cases h with
  | tickRegister t _ => exact register w t 0
  | tickUnregister t ht => exact unregister w (by cases t <;> first | exact ht.elim | exact not_false)
  | send _ cmd args hcmd _ hs => exact outputs (sendRawCmd_outputs hcmd hs)
  | remove self _ =>
    obtain ⟨_,_,he⟩ := remove_shape (w.chans self).name self w
    rw [he]
    exact { refl w with }
  | _ => exact { refl w with }

theorem effects (h : ReflTransGen Effect w w') : w.Spares w' :=
  Effects.invariant (I := w.Spares) (fun _ _ ht hs => ht.trans (effect hs)) (refl w) h

theorem log (w : World) (self : ConnId) (o : Operation) : w.Spares (w.log self o) := { refl w with }

theorem wantreadwrite (self : ConnId) (w : World) : w.Spares (Connection.wantreadwrite self w) :=
  outputs (wantreadwrite_outputs self w)

theorem deleteLater (self : ConnId) (w : World) : w.Spares (Connection.deleteLater self w) := by
  unfold Connection.deleteLater
  split
  · have hdone : w.Spares { w.log self .close with
        service.eventsDone := w.service.eventsDone.register () (.deleteConnection self) 0 } := { refl w with }
    exact hdone.trans (setConn _ self fun _ => ⟨rfl,rfl⟩)
  · exact refl w

end World.Spares

namespace World.Supervised

theorem spares (h : w.Supervised) (hs : w.Spares w') : w'.Supervised where
  reconnect := fun hc hn => by
    rw [hs.conn] at hc
    rw [hs.reconnticks]
    obtain ⟨ht,hticks⟩ := h.reconnect hc (hs.nconns ▸ hn)
    exact ⟨Nat.lt_of_lt_of_le ht (hs.timers _ hc),hticks⟩
  connect := fun c hc hst hne => by
    rw [hs.conn] at hc
    rw [hs.connecting c hc] at hne ⊢
    obtain ⟨ht,hticks⟩ := h.connect c hc (hs.connst ▸ hst) hne
    exact ⟨Nat.lt_of_lt_of_le ht (hs.timers _ hc),hticks⟩
  handshake := fun c hc hst he => by
    rw [hs.conn] at hc
    rw [hs.connecting c hc] at he
    rw [hs.tlsConnectTicks c hc]
    obtain ⟨ht,hticks⟩ := h.handshake c hc (hs.connst ▸ hst) he
    exact ⟨Nat.lt_of_lt_of_le ht (hs.timers _ hc),hticks⟩
  login := fun hst => by
    rw [hs.connst] at hst
    rw [hs.loginticks]
    exact ⟨Nat.lt_of_lt_of_le (h.login hst).1 (hs.timers _ hst),(h.login hst).2⟩
  active := fun hst => by
    rw [hs.connst] at hst
    rw [hs.idleticks]
    exact ⟨Nat.lt_of_lt_of_le (h.active hst).1 (hs.timers _ hst),(h.active hst).2⟩

/-- A server without a connection waits for the next one only. -/
theorem offline (hc : w.server.conn = none) (hst : w.server.connst = 0) (ht : 0 < w.timers .connWaitReconn)
    (hr : 0 < w.server.reconnticks ∧ w.server.reconnticks ≤ RECONNTICKS) : w.Supervised where
  reconnect := fun _ _ => ⟨ht,hr⟩
  connect := fun c hc' => by
    rw [hc] at hc'
    cases hc'
  handshake := fun c hc' => by
    rw [hc] at hc'
    cases hc'
  login := fun hneg => absurd hst (Int.ne_of_lt hneg)
  active := fun hpos => absurd hst (Int.ne_of_gt hpos)

/-- A connection that is not yet established is awaited only. -/
theorem opening {c : ConnId} (hc : w.server.conn = some c) (hst : w.server.connst = 0)
    (hconnect : (w.conns c).connecting ≠ 0 →
      0 < w.timers (.checkPendingConnection c) ∧ 0 < (w.conns c).connecting ∧ (w.conns c).connecting ≤ CONNTICKS)
    (hshake : (w.conns c).connecting = 0 →
      0 < w.timers (.checkPendingTls c) ∧ 0 < (w.conns c).tlsConnectTicks ∧ (w.conns c).tlsConnectTicks ≤ CONNTICKS) :
    w.Supervised where
  reconnect := fun hnone => by
    rw [hc] at hnone
    cases hnone
  connect := fun d hd _ => by
    obtain rfl : c = d := Option.some.inj (hc.symm.trans hd)
    exact hconnect
  handshake := fun d hd _ => by
    obtain rfl : c = d := Option.some.inj (hc.symm.trans hd)
    exact hshake
  login := fun hneg => absurd hst (Int.ne_of_lt hneg)
  active := fun hpos => absurd hst (Int.ne_of_gt hpos)

/-- A connection changes, and is still awaited if it is that of the server and not yet established. -/
theorem setConn (h : w.Supervised) (self : ConnId) {f : Connection → Connection}
    (hf : w.server.conn = some self → w.server.connst = 0 →
      ((f (w.conns self)).connecting ≠ 0 → 0 < w.timers (.checkPendingConnection self) ∧
        0 < (f (w.conns self)).connecting ∧ (f (w.conns self)).connecting ≤ CONNTICKS) ∧
      ((f (w.conns self)).connecting = 0 → 0 < w.timers (.checkPendingTls self) ∧
        0 < (f (w.conns self)).tlsConnectTicks ∧ (f (w.conns self)).tlsConnectTicks ≤ CONNTICKS)) :
    (w.setConn self f).Supervised := by
  refine { h with connect := fun c hc hst => ?_, handshake := fun c hc hst => ?_ }
  all_goals rw [setConn_conns]; split
  · next he =>
    subst he
    exact (hf hc hst).1
  · exact h.connect c hc hst
  · next he =>
    subst he
    exact (hf hc hst).2
  · exact h.handshake c hc hst

/-- Once a connection is established, the login is awaited. -/
theorem established {c : ConnId} (hc : w.server.conn = some c) : (IrcServer.connConnected c w).Supervised := by
  rw [IrcServer.connConnected,if_pos hc]
  refine ⟨fun hnone => ?_,fun _ _ hst => ?_,fun _ _ hst => ?_,fun _ => ⟨?_,(by decide : 0 < LOGINTICKS),Int.le_refl _⟩,
    fun hpos => ?_⟩
  · rw [show w.server.conn = none from hnone] at hc
    cases hc
  · cases hst
  · cases hst
  · change 0 < (w.service.tick.register () .connWaitLogin 0).count () .connWaitLogin 0
    rw [Event.count_register,if_pos ⟨rfl,rfl,rfl⟩]
    exact Nat.succ_pos _
  · cases hpos

/-- Behind the end of a connection the next one is awaited. -/
theorem awaitReconn {established : Bool}
    (ht : IrcServer.raiseDisconnected (IrcServer.hangUp established w) = .ok w') :
    (IrcServer.awaitReconn w').Supervised := by
  have hs := Spares.effects (hangUp_effects ht)
  refine offline hs.conn hs.connst ?_ ?_
  · change 0 < ((w'.service.tick.unregister () .connWaitLogin 0).register () .connWaitReconn 0).count () .connWaitReconn 0
    rw [Event.count_register,if_pos ⟨rfl,rfl,rfl⟩]
    exact Nat.succ_pos _
  · change 0 < w'.server.reconnticks ∧ w'.server.reconnticks ≤ RECONNTICKS
    rw [hs.reconnticks]
    cases established with
    | true => exact (by decide : 0 < QUICKRECONNTICKS ∧ QUICKRECONNTICKS ≤ RECONNTICKS)
    | false => exact (by decide : 0 < RECONNTICKS ∧ RECONNTICKS ≤ RECONNTICKS)

end World.Supervised

/-! ## Connections -/

namespace Connection
variable {self : ConnId}

theorem close_supervised (h : Inv w) (hs : w.server.conn ≠ some self → w.Supervised) (hr : close self w = .ok w') :
    w'.Supervised := by
  obtain ⟨t,ht,hr⟩ := ok_of_bind hr
  cases hr
  by_cases hc : w.server.conn = some self
  · have hspec := connClosed_spec hc ((w.conns self).connecting = 0)
    rw [raiseClosed_own h.toLinked hc] at ht
    rw [ht] at hspec
    obtain ⟨u,hu,rfl⟩ := hspec
    exact (World.Supervised.awaitReconn hu).spares (.deleteLater self _)
  · rw [raiseClosed_other hc] at ht
    cases ht
    exact (hs hc).spares (.deleteLater self w)

theorem raiseConnected_supervised (h : Inv w) (hs : w.server.conn ≠ some self → w.Supervised)
    (hr : raiseConnected self w = .ok w') : w'.Supervised := by
  by_cases hc : w.server.conn = some self
  · rw [raiseConnected_own h.toLinked hc] at hr
    cases hr
    exact World.Supervised.established hc
  · rw [raiseConnected_other hc] at hr
    cases hr
    exact (hs hc).spares (.log w self .connected)

theorem confirm_spares {id : Bool} (hr : confirm self id w = .ok w') : w.Spares w' := by
  unfold confirm at hr
  split at hr
  · have hraise : Meets w.Spares (fun _ => True) (raiseDataSent self w) := by
      refine raise_invariant (fun h t ht => ?_) (.refl w)
      unfold IrcServer.connDataSent
      split
      · cases hs : IrcServer.sendRaw none { t with server.sendcmd := none, server.sending := false } with
        | ok u =>
          have hcleared : t.Spares { t with server.sendcmd := none, server.sending := false } := { World.Spares.refl t with }
          exact ht.trans (hcleared.trans (.outputs (sendRaw_outputs hs)))
        | error e => trivial
      · exact ht
    rw [hr] at hraise
    exact hraise
  · cases hr
    exact .refl w

theorem sent_spares {n : ℕ} (hr : sent self n w = .ok w') : w.Spares w' := by
  unfold sent at hr
  dsimp only at hr
  have hdrop : w.Spares (w.setConn self dropRecord) := .setConn w self fun _ => ⟨rfl,rfl⟩
  split at hr
  · have hrecord : ∀ record, w.Spares (w.setConn self fun c =>
        { c with writerecs := Function.update c.writerecs c.baserecidx record }) :=
      fun record => .setConn w self fun _ => ⟨rfl,rfl⟩
    cases hr
    split
    · exact (hrecord _).trans (.wantreadwrite self _)
    · exact hrecord _
  · split at hr
    · obtain ⟨t,ht,hr⟩ := ok_of_bind hr
      cases hr
      exact hdrop.trans ((confirm_spares ht).trans (.wantreadwrite self t))
    · exact hdrop.trans (World.Spares.trans (.wantreadwrite self _) (confirm_spares hr))

theorem dowrite_supervised (h : Inv w) (hs : w.Supervised) {env : Env} (hr : dowrite env self w = .ok w') :
    w'.Supervised := by
  unfold dowrite at hr
  split at hr
  · have hlog := h.action (log_acts self .sslWrite w)
    have hs := hs.spares (.log w self .sslWrite)
    dsimp only at hr
    split at hr
    · exact (hs.spares (.setConn _ self fun _ => ⟨rfl,rfl⟩)).spares (sent_spares hr)
    · exact close_supervised hlog (fun _ => hs) hr
    · exact close_supervised hlog (fun _ => hs) hr
    · cases hr
      exact (hs.spares (.setConn _ self fun _ => ⟨rfl,rfl⟩)).spares (.wantreadwrite self _)
  · have hlog := h.action (log_acts self .write w)
    have hs := hs.spares (.log w self .write)
    dsimp only at hr
    split at hr
    · exact hs.spares (sent_spares hr)
    · cases hr
      exact hs
    · exact close_supervised hlog (fun _ => hs) hr

end Connection

/-! ## Receiving -/

/-- Data has been read: should it log the server in, it is not idle. -/
structure World.Alert (w : World) : Prop where
  supervised : w.Supervised
  idle : w.server.idleticks = IDLETICKS

namespace World.Alert

theorem spares (h : w.Alert) (hs : w.Spares w') : w'.Alert := ⟨h.supervised.spares hs,hs.idleticks.trans h.idle⟩

theorem change (h : w.Alert) (hc : Change w w') : w'.Alert := by
  cases hc with
  | call hd => exact h.spares (.effects hd.effects)
  | send _ command _ hs => exact h.spares (.outputs (sendRaw_outputs hs))
  | nick nick => exact h.spares { World.Spares.refl w with }
  | addChannel name _ =>
    obtain ⟨_,_,_,_,_,he⟩ := addChannel_shape name w
    rw [he]
    exact h.spares { World.Spares.refl w with }
  | login name hw =>
    refine ⟨⟨fun hnone => ?_,fun _ _ hst => ?_,fun _ _ hst => ?_,fun hneg => ?_,fun _ => ⟨?_,?_⟩⟩,h.idle⟩
    · have hsome := hw.conn
      rw [show w.server.conn = none from hnone] at hsome
      cases hsome
    · cases hst
    · cases hst
    · cases hneg
    · change 0 < ((w.service.tick.unregister () .connWaitLogin 0).register () .activeTick 0).count () .activeTick 0
      rw [Event.count_register,if_pos ⟨rfl,rfl,rfl⟩]
      exact Nat.succ_pos _
    · change -PINGTICKS < w.server.idleticks ∧ w.server.idleticks ≤ IDLETICKS
      rw [h.idle]
      decide

theorem changes (h : w.Alert) (hc : ReflTransGen Change w w') : w'.Alert :=
  Effects.invariant (fun _ _ ht hs => change ht hs) h hc

end World.Alert

namespace IrcServer
variable {env : Env}

theorem handleIf_alert (h : w.Alert) (hw : w.Online) {msg : Option IrcMessage} (hr : handleIf env msg w = .ok w') :
    w'.Alert ∧ w'.Online := by
  cases msg with
  | none =>
    cases hr
    exact ⟨h,hw⟩
  | some m =>
    have hm := handleMessage_changes env hw m
    rw [show handleMessage env m w = .ok w' from hr] at hm
    have hlog : (logMessage m w).Alert := h.spares { World.Spares.refl w with }
    exact ⟨hlog.changes hm,online_of_changes hm ⟨hw.conn,hw.sendQueue⟩⟩

theorem receiveLoop_alert {n oldpos : ℕ} {r : ℕ × World} (h : w.Alert) (hw : w.Online)
    (hr : receiveLoop env n oldpos w = .ok r) : r.2.Alert ∧ r.2.Online := by
  induction n generalizing w oldpos with
  | zero => cases hr
  | succ n ih =>
    rw [receiveLoop] at hr
    dsimp only at hr
    obtain ⟨t,ht,hr⟩ := ok_of_bind hr
    obtain ⟨ht,hon⟩ := handleIf_alert h hw ht
    split at hr
    · cases hr
      exact ⟨ht,hon⟩
    · exact ih ht hon hr

theorem sendRawCmd_spares {cmd : IrcCommand} (hcmd : cmd.str.isSome) {args : Bytes}
    (hr : sendRawCmd cmd (some args) w = .ok w') : w.Spares w' := .outputs (sendRawCmd_outputs hcmd hr)

/-- The login data is sent while the login is awaited. -/
theorem sendLogin_supervised (h : w.Supervised) (hst : w.server.connst = -1) (hr : sendLogin env w = .ok w') :
    w'.Supervised := by
  obtain ⟨t,ht,hr⟩ := ok_of_bind hr
  obtain ⟨names,_,hr⟩ := ok_of_bind hr
  obtain ⟨u,hu,hr⟩ := ok_of_bind hr
  cases hr
  have hs := (sendRawCmd_spares rfl ht).trans (sendRawCmd_spares rfl hu)
  have hu := h.spares hs
  have hneg : u.server.connst < 0 := by
    rw [hs.connst,hst]
    decide
  refine ⟨hu.reconnect,fun _ _ h0 => ?_,fun _ _ h0 => ?_,fun _ => hu.login hneg,fun hpos => ?_⟩
  · cases h0
  · cases h0
  · cases hpos

theorem connDataReceived_supervised {conn : ConnId} {data : Bytes} (h : w.Supervised) (hw : w.Online)
    (hr : connDataReceived env conn data w = .ok w') : w'.Supervised := by
  unfold connDataReceived at hr
  split at hr
  · cases hr
    exact h
  · dsimp only at hr
    split at hr
    · cases hr
    · obtain ⟨⟨pos,t⟩,ht,hr⟩ := ok_of_bind hr
      have hstart : World.Alert { w with
          server.idleticks := IDLETICKS
          ghost.received := w.ghost.received ++ [data]
          server.recvbuf := w.server.recvbuf ++ data } := ⟨{ h with
        active := fun hpos => ⟨(h.active hpos).1,(by decide : -PINGTICKS < IDLETICKS),Int.le_refl _⟩ },rfl⟩
      have halert := (receiveLoop_alert hstart ⟨hw.conn,hw.sendQueue⟩ ht).1
      have hkeep : t.Spares { t with server.recvbuf := keepRest t.server.recvbuf pos } := { World.Spares.refl t with }
      have hrest := halert.supervised.spares hkeep
      dsimp only at hr
      split at hr
      · next hst => exact sendLogin_supervised hrest hst hr
      · cases hr
        exact hrest

end IrcServer

namespace Connection
variable {self : ConnId} {env : Env}

theorem raiseDataReceived_supervised (h : Inv w) (hs : w.Supervised) {data : Bytes} (hlen : data.length ≤ CONNBUFSZ)
    (hr : raiseDataReceived env self data w = .ok w') : w'.Supervised := by
  have hlog := h.action (log_acts self .dataReceived w)
  have hs := hs.spares (.log w self .dataReceived)
  change (w.log self .dataReceived).raise _ _ 0 = _ at hr
  generalize w.log self .dataReceived = v at hlog hs hr
  by_cases hc : v.server.conn = some self
  · by_cases hq : v.server.sendQueue.isSome
    · have hon : v.Online := ⟨by rw [hc]; rfl,hq⟩
      have hfit : v.server.recvbuf.length + data.length ≤ RECVBUFSZ := Nat.add_le_add hlog.recvbuf hlen
      have hspec := IrcServer.connDataReceived_spec env hon hc hfit
      rw [raise_only ((hlog.attached self hc).established hq).2.2.1 (fun t ht => ?_)] at hr
      · exact IrcServer.connDataReceived_supervised hs hon hr
      · rw [ht] at hspec
        exact congrArg Event.size (written_of_received hspec.steps self).events.2.1
    · rw [raise_none ((hlog.attached self hc).fresh (by simpa using hq)).1] at hr
      cases hr
      exact hs
  · rw [raise_const (fun _ => IrcServer.connDataReceived_other env data hc)] at hr
    cases hr
    exact hs

theorem doread_supervised (h : Inv w) (hs : w.Supervised) (hr : doread env self w = .ok w') : w'.Supervised := by
  unfold doread at hr
  split at hr
  · have hlog := h.action (log_acts self .sslRead w)
    have hs := hs.spares (.log w self .sslRead)
    dsimp only at hr
    split at hr
    · next chunk _ =>
      obtain ⟨t,ht,hr⟩ := ok_of_bind hr
      cases hr
      have hfield : Action (w.log self .sslRead)
          ((w.log self .sslRead).setConn self fun c => { c with tlsReadSt := .none }) :=
        field_acts fun _ => ⟨rfl,rfl,rfl,rfl,rfl,rfl,rfl,rfl,rfl,rfl,rfl⟩
      have hread := raiseDataReceived_supervised (hlog.action hfield) (hs.spares (.setConn _ self fun _ => ⟨rfl,rfl⟩))
        chunk.fits ht
      exact hread.spares (.wantreadwrite self t)
    · exact close_supervised hlog (fun _ => hs) hr
    · exact close_supervised hlog (fun _ => hs) hr
    · cases hr
      exact (hs.spares (.setConn _ self fun _ => ⟨rfl,rfl⟩)).spares (.wantreadwrite self _)
  · have hlog := h.action (log_acts self .read w)
    have hs := hs.spares (.log w self .read)
    dsimp only at hr
    split at hr
    · next chunk _ =>
      obtain ⟨t,ht,hr⟩ := ok_of_bind hr
      cases hr
      exact (raiseDataReceived_supervised hlog hs chunk.fits ht).spares (.wantreadwrite self t)
    · cases hr
      exact hs
    · exact close_supervised hlog (fun _ => hs) hr

/-! ## Connecting -/

theorem dohandshake_supervised (h : Inv w) (hs : w.Supervised) (hst : w.server.conn = some self →
    w.server.sendQueue = none ∧ (w.conns self).connecting = 0) (hr : dohandshake env self w = .ok w') :
    w'.Supervised := by
  have hlog := h.action (log_acts self .sslConnect w)
  replace hs := hs.spares (.log w self .sslConnect)
  replace hst : (w.log self .sslConnect).server.conn = some self →
      (w.log self .sslConnect).server.sendQueue = none ∧ ((w.log self .sslConnect).conns self).connecting = 0 := hst
  unfold dohandshake at hr
  dsimp only at hr
  generalize w.log self .sslConnect = v at hlog hs hst hr
  have htls : ∀ st, Action v (v.setConn self fun c => { c with tlsConnectSt := st }) := by
    refine fun st => setConn_acts (fun hc => ?_) (fun hn => hn)
    obtain ⟨hq,hcon⟩ := hst hc
    exact ⟨rfl,rfl,rfl,rfl,rfl,rfl,rfl,rfl,rfl,Or.inl,Or.inr ⟨by rw [hq]; rfl,fun hne => absurd hcon hne⟩⟩
  have hfree : ∀ u : World, u.server.conn = v.server.conn → v.server.conn ≠ some self → u.Supervised →
      World.Supervised { u with service.tick := u.service.tick.unregister () (.checkPendingTls self) 0 } :=
    fun u hu hc hsu => hsu.spares (.unregister u fun he => hc (hu.symm.trans he))
  split at hr
  · obtain ⟨t,ht,hr⟩ := ok_of_bind hr
    cases hr
    have h1 := htls .none
    have h2 := Action.tickUnregister (v.setConn self fun c => { c with tlsConnectSt := .none }) (.checkPendingTls self)
      not_false
    have h3 : ∀ u : World, Action u (u.setConn self fun c => { c with tlsConnectTicks := 0 }) :=
      fun u => field_acts fun _ => ⟨rfl,rfl,rfl,rfl,rfl,rfl,rfl,rfl,rfl,rfl,rfl⟩
    refine (raiseConnected_supervised (((hlog.action h1).action h2).action (h3 _)) (fun hc => ?_) ht).spares
      (.wantreadwrite self t)
    replace hc : v.server.conn ≠ some self := hc
    have hshaken : World.Supervised (v.setConn self fun c => { c with tlsConnectSt := .none }) :=
      hs.spares (.setConn v self fun _ => ⟨rfl,rfl⟩)
    exact (hfree (v.setConn self _) rfl hc hshaken).spares (.setConn _ self fun he => absurd he hc)
  · have h1 := Action.tickUnregister v (.checkPendingTls self) not_false
    exact close_supervised (hlog.action h1) (fun hc => hfree v rfl hc hs) hr
  · have h1 := Action.tickUnregister v (.checkPendingTls self) not_false
    exact close_supervised (hlog.action h1) (fun hc => hfree v rfl hc hs) hr
  · cases hr
    exact (hs.spares (.setConn v self fun _ => ⟨rfl,rfl⟩)).spares (.wantreadwrite self _)

/-- The connection is initiated: a TLS connection goes on with the handshake, any other one is established. -/
theorem initiated_supervised (h : Inv w) (hself : self < w.nconns) (hs : w.server.conn ≠ some self → w.Supervised)
    (hst : w.server.conn = some self → w.server.sendQueue = none ∧ w.server.connst = 0 ∧ (w.conns self).connecting = 0)
    {tls : Bool} (hr : (if tls then
        let w := w.setConn self fun c => { c with tlsConnectTicks := CONNTICKS }
        dohandshake env self { w with service.tick := w.service.tick.register () (.checkPendingTls self) 0 }
      else raiseConnected self (wantreadwrite self w)) = .ok w') : w'.Supervised := by
  split at hr
  · have h1 : Action w (w.setConn self fun c => { c with tlsConnectTicks := CONNTICKS }) :=
      field_acts fun _ => ⟨rfl,rfl,rfl,rfl,rfl,rfl,rfl,rfl,rfl,rfl,rfl⟩
    have h2 := Action.tickRegister (w.setConn self fun c => { c with tlsConnectTicks := CONNTICKS })
      (.checkPendingTls self) ⟨nofun,nofun⟩ not_false hself
    refine dohandshake_supervised ((h.action h1).action h2) ?_ (fun hc => ⟨(hst hc).1,?_⟩) hr
    · by_cases hc : w.server.conn = some self
      · refine .opening (c := self) hc (hst hc).2.1 (fun hne => ?_) fun _ => ⟨?_,?_⟩
        · rw [setConn_conns,if_pos rfl] at hne
          exact absurd (hst hc).2.2 hne
        · change 0 < (w.service.tick.register () (.checkPendingTls self) 0).count () (.checkPendingTls self) 0
          rw [Event.count_register,if_pos ⟨rfl,rfl,rfl⟩]
          exact Nat.succ_pos _
        · rw [setConn_conns,if_pos rfl]
          exact ⟨(by decide : 0 < CONNTICKS),Int.le_refl _⟩
      · exact ((hs hc).spares (.setConn w self fun he => absurd he hc)).spares (.register _ _ 0)
    · rw [setConn_conns,if_pos rfl]
      exact (hst hc).2.2
  · have hwant := wantreadwrite_acts self w
    refine raiseConnected_supervised (h.actions hwant) (fun hc => ?_) hr
    rw [(wantreadwrite_outputs self w).conn] at hc
    exact (hs hc).spares (.wantreadwrite self w)

theorem writeConnection_supervised (h : Inv w) (hs : w.Supervised) (hself : self < w.nconns)
    (hr : writeConnection env self w = .ok w') : w'.Supervised := by
  unfold writeConnection at hr
  dsimp only at hr
  split at hr
  · next hne =>
    have h1 := Action.tickUnregister w (.checkPendingConnection self) not_false
    have h2 := log_acts self .getsockopt
      { w with service.tick := w.service.tick.unregister () (.checkPendingConnection self) 0 }
    have hinv := (h.action h1).action h2
    have hother : w.server.conn ≠ some self → World.Supervised (World.log
        { w with service.tick := w.service.tick.unregister () (.checkPendingConnection self) 0 } self .getsockopt) :=
      fun hc => (hs.spares (.unregister (t := .checkPendingConnection self) w hc)).spares (.log _ self .getsockopt)
    split at hr
    · exact close_supervised hinv hother hr
    · have h3 := initiate_acts hinv hne
      refine initiated_supervised (hinv.action h3) hself (fun hc => ?_) (fun hc => ?_) hr
      · exact (hother hc).spares (.setConn _ self fun he => absurd he hc)
      · have hq : w.server.sendQueue = none := not_queued h hc (Or.inl hne)
        refine ⟨hq,h.connst (by rw [hq]; rfl),?_⟩
        rw [setConn_conns,if_pos rfl]
  · next heq =>
    have heq : (w.conns self).connecting = 0 := not_not.mp heq
    split at hr
    · next hst =>
      refine dohandshake_supervised h hs (fun hc => ⟨not_queued h hc (Or.inr ?_),heq⟩) hr
      rw [hst]
      exact nofun
    · split at hr
      · exact doread_supervised h hs hr
      · split at hr
        · exact dowrite_supervised h hs hr
        · split at hr
          · cases hr
            exact hs.spares (.wantreadwrite self w)
          · exact dowrite_supervised h hs hr

theorem readConnection_supervised (h : Inv w) (hs : w.Supervised) (hr : readConnection env self w = .ok w') :
    w'.Supervised := by
  unfold readConnection at hr
  dsimp only at hr
  split at hr
  · next hst =>
    have hne : (w.conns self).tlsConnectSt ≠ .none := by
      rw [hst]
      exact nofun
    refine dohandshake_supervised h hs (fun hc => ⟨not_queued h hc (Or.inr hne),?_⟩) hr
    by_contra hcon
    exact hne ((h.attached self hc).connecting hcon)
  · split at hr
    · exact doread_supervised h hs hr
    · split at hr
      · exact dowrite_supervised h hs hr
      · split at hr
        · cases hr
          exact hs
        · exact doread_supervised h hs hr

/-! ## Deletion -/

theorem drain_spares {n : ℕ} (hc : w.server.conn ≠ some self) (hr : drain self n w = .ok w') : w.Spares w' := by
  induction n generalizing w with
  | zero =>
    rw [drain] at hr
    split at hr
    · cases hr
      exact .refl _
    · cases hr
  | succ n ih =>
    rw [drain] at hr
    split at hr
    · cases hr
      exact .refl _
    · rw [confirm_other hc] at hr
      have hdrop : w.Spares (w.setConn self dropRecord) := .setConn w self fun _ => ⟨rfl,rfl⟩
      exact hdrop.trans (ih hc hr)

theorem destroy_supervised (hs : w.Supervised) (hc : w.server.conn ≠ some self) (hr : destroy self w = .ok w') :
    w'.Supervised := by
  unfold destroy at hr
  split at hr
  · cases hr
    exact hs
  · dsimp only at hr
    obtain ⟨t,ht,hr⟩ := ok_of_bind hr
    cases hr
    have hstart : w.Spares (Service.unregisterWrite ((w.log self .destroy).conns self).fd
        (Service.unregisterRead ((w.log self .destroy).conns self).fd (w.log self .destroy))) := { World.Spares.refl w with }
    have hdrain := hstart.trans (drain_spares (show w.server.conn ≠ some self from hc) ht)
    have hlast : ∀ u : World, w.Spares u → World.Supervised { u with
        service.tick :=
          (u.service.tick.unregister () (.checkPendingTls self) 0).unregister () (.checkPendingConnection self) 0
        service.readyRead := u.service.readyRead.unregister () (.readConnection self) (w.conns self).fd
        service.readyWrite := u.service.readyWrite.unregister () (.writeConnection self) (w.conns self).fd } := by
      intro u hu
      have hfree : ¬ (u.server.conn = some self) := by
        rw [hu.conn]
        exact hc
      have h1 := (hs.spares hu).spares (.unregister (t := .checkPendingTls self) u hfree)
      have h2 := h1.spares (.unregister (t := .checkPendingConnection self) _ hfree)
      exact h2.spares { World.Spares.refl _ with }
    split
    · exact hlast _ (hdrain.trans { World.Spares.refl t with })
    · exact hlast _ (hdrain.trans (.log t self .close))

theorem deleteConnection_supervised (hs : w.Supervised) (hc : w.server.conn ≠ some self)
    (hr : deleteConnection self w = .ok w') : w'.Supervised := by
  have hmark : w.Spares (w.setConn self fun c => { c with deleteScheduled := 2 }) := .setConn w self fun _ => ⟨rfl,rfl⟩
  exact destroy_supervised (hs.spares hmark) hc hr

/-! ## Pending connections -/

theorem checkPendingConnection_supervised (h : Inv w) (hs : w.Supervised)
    (hr : checkPendingConnection self w = .ok w') : w'.Supervised := by
  unfold checkPendingConnection at hr
  split at hr
  · next hne =>
    dsimp only at hr
    have h1 := countdown_acts h hne
    have hother : w.server.conn ≠ some self →
        World.Supervised (w.setConn self fun c => { c with connecting := c.connecting - 1 }) :=
      fun hc => hs.spares (.setConn w self fun he => absurd he hc)
    split at hr
    · refine close_supervised ((h.action h1).action (unregisterWrite_acts _ _)) (fun hc => ?_) hr
      exact (hother hc).spares { World.Spares.refl _ with }
    · next hleft =>
      cases hr
      rw [setConn_conns,if_pos rfl] at hleft
      refine hs.setConn self fun hc hst => ⟨fun _ => ?_,fun he => absurd he hleft⟩
      obtain ⟨ht,hpos,hle⟩ := hs.connect self hc hst hne
      exact ⟨ht,lt_of_le_of_ne (Int.le_sub_one_of_lt hpos) (Ne.symm hleft),(Int.sub_le_self _ (by decide)).trans hle⟩
  · cases hr
    exact hs

theorem checkPendingTls_supervised (h : Inv w) (hs : w.Supervised) (hr : checkPendingTls self w = .ok w') :
    w'.Supervised := by
  unfold checkPendingTls at hr
  split at hr
  · next hne =>
    dsimp only at hr
    have h1 := tlsCountdown_acts self w
    have hother : w.server.conn ≠ some self →
        World.Supervised (w.setConn self fun c => { c with tlsConnectTicks := c.tlsConnectTicks - 1 }) :=
      fun hc => hs.spares (.setConn w self fun he => absurd he hc)
    split at hr
    · exact close_supervised (h.action h1) hother hr
    · next hleft =>
      cases hr
      rw [setConn_conns,if_pos rfl] at hleft
      refine hs.setConn self fun hc hst => ⟨hs.connect self hc hst,fun he => ?_⟩
      obtain ⟨ht,hpos,hle⟩ := hs.handshake self hc hst he
      exact ⟨ht,lt_of_le_of_ne (Int.le_sub_one_of_lt hpos) (Ne.symm hleft),(Int.sub_le_self _ (by decide)).trans hle⟩
  · cases hr
    exact hs

end Connection
end LibIrcBot
