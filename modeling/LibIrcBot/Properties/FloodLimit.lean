import LibIrcBot.System.Loop

/-! # The flood limit

A command that leaves the send queue costs two units of the credit, and `activeTick` gives
one back. What is spent and saved therefore grows by one with every tick, as long as the
timer is registered once and the credit is not filled up again.
-/
namespace LibIrcBot
open CString Effects Relation Outcome Transitions

variable {w w' w'' : World} {conn : ConnId}

/-- The number of commands that have left the send queue, each of them for `Connection_write`. -/
def World.handed (w : World) : ℤ :=
  w.ghost.commands.length - (w.server.sendQueue.map IBQueue.count).getD 0

/-- What the commands handed over have cost, and what is left of the credit. -/
def World.budget (w : World) : ℤ := 2 * w.handed + w.server.sendcreditticks

/-! ## Sending on credit -/

/-- Commands are paid from the credit, and nothing brings `activeTick` in front of a raise. -/
structure Frugal (w w' : World) : Prop where
  conn : w'.server.conn = w.server.conn
  budget : w'.budget = w.budget
  credit : w'.server.sendcreditticks ≤ w.server.sendcreditticks
  floor : 0 ≤ w.server.sendcreditticks → 0 ≤ w'.server.sendcreditticks
  active : w'.service.tick.count () .activeTick 0 = w.service.tick.count () .activeTick 0
  ahead : ∀ k, w'.service.tick.countFrom k () .activeTick 0 ≤ w.service.tick.countFrom k () .activeTick 0

namespace Frugal

theorem refl (w : World) : Frugal w w := ⟨rfl,rfl,le_refl _,id,rfl,fun _ => le_refl _⟩

theorem trans (h : Frugal w w') (h' : Frugal w' w'') : Frugal w w'' where
  conn := h'.conn.trans h.conn
  budget := h'.budget.trans h.budget
  credit := h'.credit.trans h.credit
  floor := fun hw => h'.floor (h.floor hw)
  active := h'.active.trans h.active
  ahead := fun k => (h'.ahead k).trans (h.ahead k)

end Frugal

abbrev Pays (w : World) (r : Run) : Prop := Meets (Frugal w) (fun _ => True) r

theorem Pays.bind {r : Run} {f : World → Run} (hr : Pays w r) (hf : ∀ t, Pays t (f t)) : Pays w (r >>= f) :=
  Meets.bind hr fun t ht => (hf t).mono (fun _ hu => ht.trans hu) fun _ h => h

theorem Pays.after {r : Run} (h : Frugal w w') (hr : Pays w' r) : Pays w r :=
  hr.mono (fun _ hu => h.trans hu) fun _ h => h

theorem enqueue_count {α δ : Type*} (q : IBQueue α δ) (obj : α) (deleter : Option δ) :
    (q.enqueue obj deleter).count = q.count + 1 := by
  unfold IBQueue.enqueue IBQueue.expand
  dsimp only
  split
  · split <;> rfl
  · rfl

theorem write_shape (self : ConnId) (buf : Buffer) (id : Bool) (w : World) : ∃ conns operations readfds writefds,
    (Connection.write self buf id w).2 = { w with
      conns := conns
      ghost.operations := operations
      service.readfds := readfds
      service.writefds := writefds } := by
  unfold Connection.write
  split
  · exact ⟨_,_,_,_,rfl⟩
  · obtain ⟨ops,r,wr,he⟩ := Connection.wantreadwrite_shape self (w.setConn self (Connection.addRecord buf id))
    exact ⟨_,ops,r,wr,he⟩

namespace IrcServer

theorem queueRaw_pays (command : Option Bytes) (w : World) : Pays w (queueRaw command w) := by
  unfold queueRaw
  cases command with
  | none => exact .refl w
  | some command =>
    dsimp only
    split
    · trivial
    · next queue hq =>
      have hhanded : World.handed { w with
          allocs := w.allocs + 1
          ghost.commands := w.ghost.commands ++ [command]
          server.sendQueue := some (queue.enqueue ⟨w.allocs,command⟩ (some .free)) } = w.handed := by
        simp [World.handed,hq,enqueue_count]
      exact { Frugal.refl w with budget := congrArg (2 * · + w.server.sendcreditticks) hhanded }

/-- A command that is written leaves the queue and costs two units of the credit. -/
theorem sendNext_pays (w : World) : Pays w (sendNext w) := by
  unfold sendNext
  split
  · exact .refl w
  · next hcond =>
    have hcredit : 2 ≤ w.server.sendcreditticks := by
      simp only [Bool.or_eq_true,decide_eq_true_eq,not_or] at hcond
      omega
    split
    · trivial
    · next queue hq =>
      by_cases hzero : queue.count = 0
      · rw [IBQueue.dequeue,if_pos hzero]
        have hhanded : World.handed { w with server.sendQueue := some queue, server.sendcmd := none } = w.handed := by
          simp [World.handed,hq]
        exact { Frugal.refl w with budget := congrArg (2 * · + w.server.sendcreditticks) hhanded }
      · rw [IBQueue.dequeue,if_neg hzero]
        cases IBQueue.objAt queue.entries queue.front with
        | none => trivial
        | some sendcmd =>
          dsimp only
          split
          · trivial
          · next conn _ =>
            obtain ⟨conns,operations,readfds,writefds,he⟩ := write_shape conn sendcmd true { w with
              server.sendQueue := some { queue with
                front := Ring.advance queue.capa queue.front, count := queue.count - 1 }
              server.sendcmd := some sendcmd
              server.sending := true
              server.sendcreditticks := w.server.sendcreditticks - 2 }
            rw [he]
            refine ⟨rfl,?_,?_,fun _ => ?_,rfl,fun _ => le_refl _⟩
            · simp only [World.budget,World.handed,hq,Option.map_some,Option.getD_some]
              omega
            · exact Int.sub_le_self _ (by decide)
            · exact Int.sub_nonneg_of_le hcredit

theorem sendRaw_pays (command : Option Bytes) (w : World) : Pays w (sendRaw command w) :=
  Pays.bind (queueRaw_pays command w) sendNext_pays

theorem sendRawCmd_pays (cmd : IrcCommand) (args : Option Bytes) (w : World) :
    Pays w (sendRawCmd cmd args w) := by
  unfold sendRawCmd World.deref
  cases cmd.str with
  | none => trivial
  | some name =>
    cases args with
    | none => trivial
    | some args => exact sendRaw_pays _ w

end IrcServer

/-! ## Channels -/

theorem Effect.frugal (h : Effect w w') : Frugal w w' := by
  cases h with
  | tickRegister t ht =>
    exact { Frugal.refl w with
      active := Event.count_register_ne _ (timer_ne ht).2
      ahead := Event.countFrom_register_le _ (timer_ne ht).2 }
  | tickUnregister t ht =>
    exact { Frugal.refl w with
      active := Event.count_unregister_ne _ (timer_ne ht).2
      ahead := Event.countFrom_unregister_le _ _ _ _ _ _ _ }
  | send _ cmd args _ _ hs =>
    have hp := IrcServer.sendRawCmd_pays cmd (some args) w
    rw [hs] at hp
    exact hp
  | remove self _ =>
    obtain ⟨_,_,he⟩ := remove_shape (w.chans self).name self w
    rw [he]
    exact { Frugal.refl w with }
  | _ => exact { Frugal.refl w with }

theorem Pays.ofTraces {msg : Option IrcMessage} {r : Run} (h : Traces msg w r) : Pays w r :=
  Meets.mono h (fun _ ht => Effects.invariant (I := Frugal w) (fun _ _ hu he => hu.trans (Effect.frugal he)) (.refl w) ht)
    fun _ _ => trivial

theorem addChannel_frugal (name : Bytes) (w : World) : Frugal w (IrcServer.addChannel name w).2 := by
  obtain ⟨_,_,_,_,_,he⟩ := addChannel_shape name w
  rw [he]
  exact { Frugal.refl w with }

/-! ## Messages -/

def IrcMessage.LogsIn (m : IrcMessage) : Prop := m.command = .RPL_MYINFO ∧ 2 < m.params.length

namespace IrcServer
variable {m : IrcMessage}

theorem handleNick_pays (m : IrcMessage) (w : World) : Pays w (handleNick m w) := by
  unfold handleNick
  split
  · rcases ownPrefix_cases m w with ⟨_,h⟩ | ⟨own,h⟩
    · rw [h]
      trivial
    · rw [h,deref_get (by omega)]
      dsimp only [bind,Except.bind]
      split
      · exact { Frugal.refl w with }
      · exact .refl w
  · exact .refl w

theorem handleJoin_pays (m : IrcMessage) (w : World) : Pays w (handleJoin m w) := by
  unfold handleJoin
  split
  · rcases ownPrefix_cases m w with ⟨_,h⟩ | ⟨own,h⟩
    · rw [h]
      trivial
    · rw [h,deref_get (by omega)]
      dsimp only [bind,Except.bind]
      split
      · split
        · exact .refl w
        · exact addChannel_frugal _ w
      · exact .refl w
  · exact .refl w

theorem handleCommand_pays (hm : ¬ m.LogsIn) (w : World) : Pays w (handleCommand m w) := by
  unfold handleCommand
  split
  · next hcmd =>
    rw [handleMyinfo,if_neg (fun hlen => hm ⟨hcmd,hlen⟩)]
    exact .refl w
  · have hnick : Frugal w { w with server.nick := w.server.nick ++ lit "_" } := { Frugal.refl w with }
    exact Pays.after hnick (sendRawCmd_pays _ _ _)
  · exact sendRawCmd_pays _ _ w
  · exact handleNick_pays m w
  · exact handleJoin_pays m w
  · exact .refl w

theorem raiseMsgReceived_pays (env : Env) (m : IrcMessage) (w : World) : Pays w (raiseMsgReceived env m w) :=
  Pays.ofTraces (raiseMsgReceived_traces env m w)

theorem handleMessage_pays (env : Env) (hm : ¬ m.LogsIn) (w : World) : Pays w (handleMessage env m w) := by
  have hlog : Frugal w (logMessage m w) := { Frugal.refl w with }
  exact Pays.after hlog ((handleCommand_pays hm _).bind fun t => raiseMsgReceived_pays env m t)

def loginState (m : IrcMessage) (w : World) : World := { w with
  server.name := m.params[1]?
  server.connst := 1
  server.sendcreditticks := FULLSENDCREDIT
  service.tick := (w.service.tick.unregister () .connWaitLogin 0).register () .activeTick 0 }

/-- A login fills the credit up and registers `activeTick` once more. -/
theorem handleMessage_login (env : Env) (hm : m.LogsIn) (w : World) :
    Meets (Frugal (loginState m w)) (fun _ => True) (handleMessage env m w) := by
  have hlogin : handleCommand m (logMessage m w) = raiseConnected (loginState m (logMessage m w)) := by
    rw [handleCommand,hm.1]
    exact if_pos hm.2
  have hconnected : ∀ t : World, 0 < t.server.connst → Pays t (raiseConnected t) :=
    fun t ht => Pays.ofTraces (raiseConnected_traces ht : Traces none t _)
  have hlog : Frugal (loginState m w) (loginState m (logMessage m w)) := { Frugal.refl (loginState m w) with }
  refine Pays.after hlog (Pays.bind (w := loginState m (logMessage m w)) ?_ fun t => raiseMsgReceived_pays env m t)
  change Pays _ (handleCommand m (logMessage m w))
  rw [hlogin]
  exact hconnected _ Int.one_pos

/-! ## Calls of the application -/

theorem join_pays (channel : Bytes) (w : World) : Pays w (join channel w) := by
  have hjoin : ∀ chan t, Pays t (IrcChannel.join chan t) :=
    fun chan t => Pays.ofTraces (IrcChannel.join_traces chan t : Traces none t _)
  unfold join
  split
  · exact hjoin _ w
  · exact Pays.after (addChannel_frugal channel w) (hjoin _ _)

theorem part_pays (h : Inv w) (channel : Bytes) : Pays w (part channel w) := by
  cases hget : w.server.channels.get channel with
  | none =>
    rw [part,hget]
    exact .refl w
  | some chan =>
    obtain rfl := (h.name_of_get hget).2
    exact Pays.ofTraces (part_traces hget : Traces none w _)

theorem sendCmd_pays (cmd : IrcCommand) (args : Bytes) (w : World) :
    Pays w ((sendCmd cmd args w).map Prod.snd) := by
  unfold sendCmd
  split
  · exact .refl w
  · have hp := sendRawCmd_pays cmd (some args) w
    cases h : sendRawCmd cmd (some args) w with
    | error e => trivial
    | ok t =>
      rw [h] at hp
      exact hp

theorem sendChunks_pays (header : Bytes) (action : Bool) (maxchunk n : ℕ) (message : Bytes) (w : World) :
    Pays w (sendChunks header action maxchunk n message w) := by
  induction n generalizing message w with
  | zero =>
    rw [sendChunks]
    split
    · exact .refl w
    · trivial
  | succ n ih =>
    rw [sendChunks]
    split
    · exact .refl w
    · dsimp only
      generalize (if message.length > maxchunk then maxchunk else message.length) = chunksz
      split
      · trivial
      · exact (sendRaw_pays _ w).bind fun t => ih _ t

theorem sendMsg_pays (recipient message : Bytes) (action : Bool) (w : World) :
    Pays w ((sendMsg recipient message action w).map Prod.snd) := by
  unfold sendMsg
  split
  · exact .refl w
  · split
    · exact .refl w
    · dsimp only
      split
      · trivial
      · have hp := sendChunks_pays (msgHeader recipient action) action
          (RAWMSGSZ - (msgHeader recipient action).length - 3 - if action then 1 else 0) message.length message w
        cases h : sendChunks (msgHeader recipient action) action
          (RAWMSGSZ - (msgHeader recipient action).length - 3 - if action then 1 else 0) message.length message w with
        | error e => trivial
        | ok t =>
          rw [h] at hp
          exact hp

theorem setNick_pays (nick : Bytes) (w : World) : Pays w (setNick nick w) := by
  have hnick : Frugal w { w with server.nick := nick } := { Frugal.refl w with }
  unfold setNick
  split
  · refine Pays.after hnick ?_
    dsimp only
    split
    · exact sendRawCmd_pays _ _ _
    · exact .refl _
  · exact .refl w

end IrcServer

/-! ## Leaving the connection -/

/-- A computation that pays for what it sends, unless it ends on another connection or none. -/
abbrev Settles (conn : ConnId) (w : World) (r : Run) : Prop :=
  Meets (fun w' => w'.server.conn = some conn → Frugal w w') (fun _ => True) r

theorem Pays.settles {r : Run} (h : Pays w r) : Settles conn w r := Meets.mono h (fun _ ht _ => ht) fun _ h => h

theorem Settles.after {r : Run} (h : Frugal w w') (hr : Settles conn w' r) : Settles conn w r :=
  Meets.mono hr (fun _ hu hc => h.trans (hu hc)) fun _ h => h

/-- A connection that the server does not use is never used again: ids are given once. -/
theorem Action.stays (ha : Action w w') (hlt : conn < w.nconns) :
    conn < w'.nconns ∧ (w'.server.conn = some conn → w.server.conn = some conn) := by
  have hsame : ∀ u : World, w.SameLink u →
      conn < u.nconns ∧ (u.server.conn = some conn → w.server.conn = some conn) :=
    fun u hu => ⟨hu.nconns ▸ hlt,fun hc => hu.conn ▸ hc⟩
  cases ha with
  | change h => exact hsame _ h.same.toSameLink
  | receive _ data hw h => exact hsame _ (same_of_received h.steps)
  | establish self hc =>
    rw [IrcServer.connConnected,if_pos hc]
    exact ⟨hlt,id⟩
  | close t est hc ht =>
    have hs := same_of_effects (hangUp_effects ht)
    refine ⟨lt_of_lt_of_eq hlt hs.nconns.symm,fun hc => ?_⟩
    have hnone : t.server.conn = none := hs.conn
    change t.server.conn = some conn at hc
    rw [hnone] at hc
    cases hc
  | connect env hc =>
    rcases connect_shape env hc with he | ⟨_,_,_,_,he⟩
    · rw [he]
      exact ⟨hlt,id⟩
    · rw [he]
      exact ⟨Nat.lt_succ_of_lt hlt,fun h => absurd (Option.some.inj h).symm (Nat.ne_of_lt hlt)⟩
  | _ => exact ⟨hlt,id⟩

theorem stays_of_actions (h : ReflTransGen Action w w') (hlt : conn < w.nconns) :
    conn < w'.nconns ∧ (w'.server.conn = some conn → w.server.conn = some conn) :=
  Effects.invariant (I := fun t => conn < t.nconns ∧ (t.server.conn = some conn → w.server.conn = some conn))
    (fun _ _ ht ha => ⟨(ha.stays ht.1).1,fun hc => ht.2 ((ha.stays ht.1).2 hc)⟩) ⟨hlt,id⟩ h

theorem deleteLater_shape (self : ConnId) (w : World) : ∃ conns operations eventsDone,
    Connection.deleteLater self w = { w with
      conns := conns
      ghost.operations := operations
      service.eventsDone := eventsDone } := by
  unfold Connection.deleteLater
  split <;> exact ⟨_,_,_,rfl⟩

/-- Closing its connection takes the server off every connection there has been so far. -/
theorem close_leaves (h : Inv w) (hlt : conn < w.nconns) {self : ConnId} (hc : w.server.conn = some self) :
    Meets (fun w' => w'.server.conn ≠ some conn) (fun _ => True) (Connection.close self w) := by
  refine Meets.bind (Meets.mono (Connection.raiseClosed_spec h self _) (fun _ ht => ht) fun _ _ => trivial) ?_
  rintro t ⟨ht,hleft,_⟩ hconn
  obtain ⟨_,_,_,he⟩ := deleteLater_shape self t
  rw [he] at hconn
  have hself := hc.symm.trans ((stays_of_actions ht hlt).2 hconn)
  exact absurd (hconn.trans hself.symm) hleft

theorem close_settles (h : Inv w) (hlt : conn < w.nconns) (self : ConnId) :
    Settles conn w (Connection.close self w) := by
  by_cases hc : w.server.conn = some self
  · exact Meets.mono (close_leaves h hlt hc) (fun _ hne heq => absurd heq hne) fun _ he => he
  · have hr := Connection.raiseClosed_other hc ((w.conns self).connecting = 0)
    obtain ⟨_,_,_,he⟩ := deleteLater_shape self w
    unfold Connection.close
    rw [hr]
    exact fun _ => he ▸ { Frugal.refl w with }

theorem closeConn_leaves (h : Inv w) (hlt : conn < w.nconns) :
    Meets (fun w' => w'.server.conn ≠ some conn) (fun _ => True) (IrcServer.closeConn w) := by
  unfold IrcServer.closeConn
  split
  · next self hc => exact close_leaves h hlt hc
  · trivial

theorem tickUnregister_frugal (w : World) {t : TickHandler} (ht : t ≠ .activeTick) :
    Frugal w { w with service.tick := w.service.tick.unregister () t 0 } :=
  { Frugal.refl w with
    active := Event.count_unregister_ne _ ht
    ahead := Event.countFrom_unregister_le _ _ _ _ _ _ _ }

theorem disconnect_settles (h : Inv w) (hlt : conn < w.nconns) : Settles conn w (IrcServer.disconnect w) := by
  have h1 := tickUnregister_frugal w (by simp : TickHandler.connWaitLogin ≠ .activeTick)
  have h2 := tickUnregister_frugal { w with service.tick := w.service.tick.unregister () .connWaitLogin 0 }
    (by simp : TickHandler.connWaitReconn ≠ .activeTick)
  have hinv := (h.action (.tickUnregister w .connWaitLogin not_false)).action (.tickUnregister _ .connWaitReconn not_false)
  refine Settles.after (h1.trans h2) ?_
  unfold IrcServer.disconnect
  dsimp only
  split
  · exact (IrcServer.sendRawCmd_pays _ _ _).settles
  · split
    · exact close_settles hinv hlt _
    · exact Pays.settles (Frugal.refl _)

/-! ## Ticks -/

theorem checkPendingConnection_settles (h : Inv w) (hlt : conn < w.nconns) (self : ConnId) :
    Settles conn w (Connection.checkPendingConnection self w) := by
  unfold Connection.checkPendingConnection
  split
  · next hne =>
    have hinv := h.action (Connection.countdown_acts h hne)
    have hset : Frugal w (w.setConn self fun c => { c with connecting := c.connecting - 1 }) := { Frugal.refl w with }
    refine Settles.after hset ?_
    dsimp only
    split
    · have hfd : ∀ t : World, ∀ fd, Frugal t (Service.unregisterWrite fd t) := fun t fd => { Frugal.refl t with }
      exact Settles.after (hfd _ _) (close_settles (hinv.action (Connection.unregisterWrite_acts _ _)) hlt self)
    · exact Pays.settles (Frugal.refl _)
  · exact Pays.settles (Frugal.refl _)

theorem checkPendingTls_settles (h : Inv w) (hlt : conn < w.nconns) (self : ConnId) :
    Settles conn w (Connection.checkPendingTls self w) := by
  unfold Connection.checkPendingTls
  split
  · have hset : Frugal w (w.setConn self fun c => { c with tlsConnectTicks := c.tlsConnectTicks - 1 }) :=
      { Frugal.refl w with }
    refine Settles.after hset ?_
    dsimp only
    split
    · exact close_settles (h.action (Connection.tlsCountdown_acts self w)) hlt self
    · exact Pays.settles (Frugal.refl _)
  · exact Pays.settles (Frugal.refl _)

namespace IrcServer

theorem connWaitLogin_settles (h : Inv w) (hlt : conn < w.nconns) : Settles conn w (connWaitLogin w) := by
  have hcount : Frugal w { w with server.loginticks := w.server.loginticks - 1 } := { Frugal.refl w with }
  have hinv := (h.action (.counters w w.server.reconnticks (w.server.loginticks - 1) w.server.idleticks
    w.server.sendcreditticks)).action (.tickUnregister _ .connWaitLogin not_false)
  unfold connWaitLogin
  refine Settles.after hcount ?_
  dsimp only
  split
  · exact Meets.mono (closeConn_leaves hinv hlt) (fun _ hne heq => absurd heq hne) fun _ he => he
  · exact Pays.settles (Frugal.refl _)

theorem connWaitReconn_frugal (env : Env) (hc : w.server.conn.isSome) : Frugal w (connWaitReconn env w) := by
  have hcount : Frugal w { w with server.reconnticks := w.server.reconnticks - 1 } := { Frugal.refl w with }
  have hconnect : connect env { w with server.reconnticks := w.server.reconnticks - 1 } =
      (0,{ w with server.reconnticks := w.server.reconnticks - 1 }) := if_pos hc
  unfold connWaitReconn
  dsimp only
  split
  · rw [hconnect]
    exact hcount.trans (tickUnregister_frugal _ (by simp))
  · exact hcount

def credited (w : World) : World :=
  if w.server.sendcreditticks < FULLSENDCREDIT then
    { w with server.sendcreditticks := w.server.sendcreditticks + 1 }
  else w

theorem activeTick_settles (h : Inv w) (hlt : conn < w.nconns) : Settles conn (credited w) (activeTick w) := by
  obtain ⟨credits,hcredit,he⟩ := credit_acts w
  have hinv := h.actions hcredit
  have hsend := sendRaw_pays none (credited w)
  change Settles conn (credited w) (do
    let w ← sendRaw none (credited w)
    let w := { w with server.idleticks := w.server.idleticks - 1 }
    if w.server.idleticks = 0 then sendRawCmd .MSG_PING (some w.server.nick) w
    else if w.server.idleticks ≤ -PINGTICKS then
      closeConn { w with service.tick := w.service.tick.unregister () .activeTick 0 }
    else pure w)
  cases hs : sendRaw none (credited w) with
  | error e => trivial
  | ok t =>
    rw [hs] at hsend
    have hchange : Change (credited w) t := .send _ t none (by simp) hs
    have hidle : Frugal (credited w) { t with server.idleticks := t.server.idleticks - 1 } :=
      hsend.trans { Frugal.refl t with }
    have hinvt : Inv t := Inv.change (by rw [credited,he]; exact hinv) hchange
    refine Settles.after hidle ?_
    dsimp only [bind,Except.bind]
    split
    · exact (sendRawCmd_pays _ _ _).settles
    · split
      · have hend := (hinvt.action (idle_acts t)).action (.tickUnregister _ .activeTick not_false)
        have hltt : conn < t.nconns := lt_of_lt_of_eq (by rw [credited,he]; exact hlt) hchange.same.nconns.symm
        exact Meets.mono (closeConn_leaves hend hltt) (fun _ hne heq => absurd heq hne) fun _ he => he
      · exact Pays.settles (Frugal.refl _)

end IrcServer

/-! ## The credit over a raise of the tick event -/

/-- The credit is in bounds, the timer registered once, and no more than `bound` spent or saved. -/
structure Funded (bound : ℤ) (w : World) : Prop where
  floor : 0 ≤ w.server.sendcreditticks
  ceiling : w.server.sendcreditticks ≤ FULLSENDCREDIT
  active : w.service.tick.count () .activeTick 0 = 1
  budget : w.budget ≤ bound

theorem Funded.frugal {bound : ℤ} (h : Funded bound w) (hf : Frugal w w') : Funded bound w' where
  floor := hf.floor h.floor
  ceiling := hf.credit.trans h.ceiling
  active := hf.active.trans h.active
  budget := hf.budget.trans_le h.budget

theorem Funded.mono {bound bound' : ℤ} (h : Funded bound w) (hle : bound ≤ bound') : Funded bound' w :=
  { h with budget := h.budget.trans hle }

theorem Funded.credited {bound : ℤ} (h : Funded bound w) : Funded (bound + 1) (IrcServer.credited w) := by
  unfold IrcServer.credited
  split
  · next hlt =>
    have hb := h.budget
    refine ⟨Int.le_add_one h.floor,hlt,h.active,?_⟩
    unfold World.budget at hb ⊢
    change 2 * w.handed + (w.server.sendcreditticks + 1) ≤ bound + 1
    omega
  · exact h.mono (Int.le_add_one (Int.le_refl _))

theorem credited_tick (w : World) : (IrcServer.credited w).service.tick = w.service.tick := by
  unfold IrcServer.credited
  split <;> rfl

/-- The server has left the connection, or what it has sent on it is funded. -/
structure Solvent (conn : ConnId) (bound : ℤ) (w : World) : Prop where
  inv : Inv w
  created : conn < w.nconns
  live : w.server.conn = some conn → Funded bound w

theorem Solvent.actions {bound bound' : ℤ} (h : Solvent conn bound w) (ha : ReflTransGen Action w w')
    (hlive : Funded bound w → w'.server.conn = some conn → Funded bound' w') : Solvent conn bound' w' where
  inv := h.inv.actions ha
  created := (stays_of_actions ha h.created).1
  live := fun hc => hlive (h.live ((stays_of_actions ha h.created).2 hc)) hc

/-- Every callback of the tick event pays for what it sends; `activeTick` has more credit for it. -/
theorem callTick_settles (h : Inv w) (hc : w.server.conn = some conn) (env : Env) (handler : TickHandler) :
    Settles conn (if handler = .activeTick then IrcServer.credited w else w) (Service.callTick env handler w) := by
  have hlt := h.created conn hc
  cases handler with
  | connWaitLogin => exact IrcServer.connWaitLogin_settles h hlt
  | connWaitReconn =>
    have hr := IrcServer.connWaitReconn_frugal env (show w.server.conn.isSome by rw [hc]; rfl)
    exact fun _ => hr
  | activeTick => exact IrcServer.activeTick_settles h hlt
  | waitjoin self => exact (Pays.ofTraces (IrcChannel.waitjoin_traces self w : Traces none w _)).settles
  | waitrejoin self => exact (Pays.ofTraces (IrcChannel.waitrejoin_traces self w : Traces none w _)).settles
  | checkPendingConnection self => exact checkPendingConnection_settles h hlt self
  | checkPendingTls self => exact checkPendingTls_settles h hlt self
  | other n => exact fun _ => .refl w

/-- A raise of the tick event gives one unit of credit: the timer is registered once. -/
theorem raiseTick_solvent {bound : ℤ} (h : Solvent conn bound w) (passes : ℕ) (env : Env) :
    Meets (Solvent conn (bound + 1)) (fun _ => True)
      (Event.raise (·.service.tick) (fun _ => Service.callTick env) (fun w => (.outOfFuel,w)) 0 passes w) := by
  let ahead (k : ℕ) (t : World) : ℤ := t.service.tick.countFrom k () .activeTick 0
  have hstart : Solvent conn (bound + 1 - ahead 0 w) w := by
    refine { h with live := fun hc => (h.live hc).mono ?_ }
    have hone : ahead 0 w = 1 := congrArg Nat.cast (h.live hc).active
    omega
  refine Meets.mono (Event.raiseFrom_spec (J := fun k t => Solvent conn (bound + 1 - ahead k t) t) ?_ ?_ ?_ hstart)
    ?_ fun _ he => he
  · intro k t slot ht hslot _
    refine { ht with live := fun hc => (ht.live hc).mono ?_ }
    have hsucc := Event.countFrom_succ hslot () .activeTick 0
    simp only [ahead]
    omega
  · intro k t slot handler ht hslot hh hid
    have hmem := List.mem_of_getElem? hslot
    have htakes := Service.callTick_takes ht.inv env (ht.inv.ticks slot hmem _ hh)
      (Event.count_pos_iff.mpr ⟨slot,hmem,rfl,hh,hid⟩)
    have hsucc := Event.countFrom_succ hslot () .activeTick 0
    cases hr : Service.callTick env handler t with
    | error e => trivial
    | ok u =>
      rw [hr] at htakes
      refine ht.actions htakes fun hfunded hconn => ?_
      have hset := callTick_settles ht.inv ((stays_of_actions htakes ht.created).2 hconn) env handler
      rw [hr] at hset
      have hf := hset hconn
      by_cases hactive : handler = .activeTick
      · -- The slot that is behind the raise now is one that counted for it.
        have hmatch : Event.Matches () TickHandler.activeTick 0 slot = true := by
          simp [Event.Matches,hh,hactive,hid]
        rw [if_pos hactive] at hf
        have hle := hf.ahead (k + 1)
        rw [credited_tick] at hle
        rw [if_pos hmatch] at hsucc
        refine (hfunded.credited.frugal hf).mono ?_
        simp only [ahead]
        omega
      · rw [if_neg hactive] at hf
        have hle := hf.ahead (k + 1)
        refine (hfunded.frugal hf).mono ?_
        simp only [ahead]
        omega
  · exact fun _ => trivial
  · rintro t ⟨k,ht,_⟩
    refine { ht with live := fun hc => (ht.live hc).mono ?_ }
    simp only [ahead]
    omega

/-! ## Turns -/

/-- What happens on one connection: data arrives that ends no message, a message arrives, a write
sends `n` bytes of the pending record, the service raises the tick event, with a bound on the slots
it passes, or the application calls. -/
inductive Turn where
  | data
  | message (env : Env) (msg : IrcMessage)
  | sent (n : ℕ)
  | tick (passes : ℕ) (env : Env)
  | join (channel : Bytes)
  | part (channel : Bytes)
  | sendCmd (cmd : IrcCommand) (args : Bytes)
  | sendMsg (recipient message : Bytes) (action : Bool)
  | setNick (nick : Bytes)
  | disconnect

/-- The server only listens to its own connection, and to data only when it has a send queue. Whatever
`connDataReceived` is called for, it is not idle any more. -/
def turn (conn : ConnId) : Turn → World → Run
  | .data, w =>
    if w.server.conn = some conn then .ok { w with server.idleticks := IDLETICKS } else .ok w
  | .message env msg, w =>
    if w.server.conn = some conn && w.server.sendQueue.isSome then
      IrcServer.handleMessage env msg { w with server.idleticks := IDLETICKS }
    else .ok w
  | .sent n, w =>
    if w.server.conn = some conn && (w.conns conn).nrecs ≠ 0 && (w.conns conn).tlsWriteSt = .none then
      Connection.sent conn n w
    else .ok w
  | .tick passes env, w =>
    Event.raise (·.service.tick) (fun _ => Service.callTick env) (fun w => (.outOfFuel,w)) 0 passes w
  | .join channel, w => IrcServer.join channel w
  | .part channel, w => IrcServer.part channel w
  | .sendCmd cmd args, w => (IrcServer.sendCmd cmd args w).map Prod.snd
  | .sendMsg recipient message action, w => (IrcServer.sendMsg recipient message action w).map Prod.snd
  | .setNick nick, w => IrcServer.setNick nick w
  | .disconnect, w => IrcServer.disconnect w

def ticks (turns : List Turn) : ℕ := turns.countP fun t => t matches .tick _ _

def Unarmed (t : Turn) (w : World) : Prop :=
  ∀ env m, t = .message env m → m.LogsIn → w.service.tick.count () .activeTick 0 = 0

theorem raise_pays {η : Type} {event : World → Listeners η} {call : η → World → Run} {i : ℤ}
    (hcall : ∀ h t, Pays t (call h t)) (w : World) : Pays w (w.raise event call i) :=
  raise_invariant (fun h t ht => Pays.after ht (hcall h t)) (.refl w)

theorem sent_pays (self : ConnId) (n : ℕ) (w : World) : Pays w (Connection.sent self n w) := by
  have hset : ∀ f t, Frugal t (t.setConn self f) := fun _ t => { Frugal.refl t with }
  have hwant : ∀ t, Frugal t (Connection.wantreadwrite self t) := by
    intro t
    obtain ⟨_,_,_,he⟩ := Connection.wantreadwrite_shape self t
    rw [he]
    exact { Frugal.refl t with }
  have hconfirm : ∀ id t, Pays t (Connection.confirm self id t) := by
    intro id t
    unfold Connection.confirm
    split
    · refine raise_pays (fun _ u => ?_) t
      unfold IrcServer.connDataSent
      split
      · have hsent : Frugal u { u with server.sendcmd := none, server.sending := false } := { Frugal.refl u with }
        exact Pays.after hsent (IrcServer.sendRaw_pays none _)
      · exact .refl u
    · exact .refl t
  unfold Connection.sent
  dsimp only
  split
  · split
    · exact (hset _ w).trans (hwant _)
    · exact hset _ w
  · split
    · exact Pays.after (hset _ w) ((hconfirm _ _).bind fun t => hwant t)
    · exact Pays.after ((hset _ w).trans (hwant _)) (hconfirm _ _)

/-- A turn takes actions only, behind the entry of a message into the log. -/
theorem turn_actions {t : Turn} (h : Inv w) (ht : turn conn t w = .ok w') :
    ∃ handled idleticks, ReflTransGen Action { w with ghost.handled := handled, server.idleticks := idleticks } w' := by
  have hself : ∀ {r : Run}, Takes w r → r = .ok w' →
      ∃ handled idleticks, ReflTransGen Action { w with ghost.handled := handled, server.idleticks := idleticks } w' := by
    intro r hr he
    rw [he] at hr
    exact ⟨w.ghost.handled,w.server.idleticks,hr⟩
  cases t with
  | data =>
    rw [turn] at ht
    split at ht
    · cases ht
      exact ⟨w.ghost.handled,IDLETICKS,.refl⟩
    · cases ht
      exact ⟨w.ghost.handled,w.server.idleticks,.refl⟩
  | message env m =>
    rw [turn] at ht
    split at ht
    · next hcond =>
      simp only [Bool.and_eq_true,decide_eq_true_eq] at hcond
      have hc := IrcServer.handleMessage_changes (w := { w with server.idleticks := IDLETICKS }) env
        ⟨by rw [hcond.1]; rfl,hcond.2⟩ m
      rw [ht] at hc
      exact ⟨_,IDLETICKS,actions_of_changes hc⟩
    · cases ht
      exact ⟨w.ghost.handled,w.server.idleticks,.refl⟩
  | sent n =>
    rw [turn] at ht
    split at ht
    · next hcond =>
      simp only [Bool.and_eq_true,decide_eq_true_eq] at hcond
      exact hself (Connection.sent_acts h n fun _ => ⟨hcond.1.2,hcond.2⟩).takes ht
    · cases ht
      exact ⟨w.ghost.handled,w.server.idleticks,.refl⟩
  | tick passes env =>
    have hraise : Meets (fun u => ∃ k : ℕ, (Inv u ∧ ReflTransGen Action w u) ∧ u.service.tick.handlers[k]? = none)
        (fun _ => True) (turn conn (.tick passes env) w) := by
      refine Event.raiseFrom_spec (J := fun _ u => Inv u ∧ ReflTransGen Action w u) (fun _ _ _ hu _ _ => hu) ?_
        (fun _ => trivial) ⟨h,.refl⟩
      rintro k u slot handler ⟨hu,ha⟩ hslot hh hid
      have hmem := List.mem_of_getElem? hslot
      have htakes := Service.callTick_takes hu env (hu.ticks slot hmem _ hh)
        (Event.count_pos_iff.mpr ⟨slot,hmem,rfl,hh,hid⟩)
      exact Meets.mono htakes (fun _ hv => ⟨hu.actions hv,ha.trans hv⟩) fun _ _ => trivial
    rw [ht] at hraise
    obtain ⟨_,⟨_,ha⟩,_⟩ := hraise
    exact ⟨w.ghost.handled,w.server.idleticks,ha⟩
  | join channel => exact hself (World.step_takes h (.join channel)) ht
  | part channel => exact hself (World.step_takes h (.part channel)) ht
  | sendCmd cmd args => exact hself (World.step_takes h (.sendCmd cmd args)) ht
  | sendMsg recipient message action => exact hself (World.step_takes h (.sendMsg recipient message action)) ht
  | setNick nick => exact hself (World.step_takes h (.setNick nick)) ht
  | disconnect => exact hself (World.step_takes h .disconnect) ht

theorem turn_inv {t : Turn} (h : Inv w) (ht : turn conn t w = .ok w') : Inv w' := by
  obtain ⟨handled,idleticks,ha⟩ := turn_actions h ht
  have hlog : Inv { w with ghost.handled := handled, server.idleticks := idleticks } := { h with }
  exact hlog.actions ha

/-- Apart from a login and from ticks, a turn pays for what it sends. -/
theorem turn_settles {t : Turn} (h : Inv w) (hlt : conn < w.nconns) (hlogin : ∀ env m, t = .message env m → ¬ m.LogsIn)
    (htick : ∀ passes env, t ≠ .tick passes env) : Settles conn w (turn conn t w) := by
  cases t with
  | data =>
    rw [turn]
    split
    · exact Pays.settles { Frugal.refl w with }
    · exact Pays.settles (.refl w)
  | message env m =>
    rw [turn]
    split
    · have hidle : Frugal w { w with server.idleticks := IDLETICKS } := { Frugal.refl w with }
      exact (Pays.after hidle (IrcServer.handleMessage_pays env (hlogin env m rfl) _)).settles
    · exact Pays.settles (.refl w)
  | sent n =>
    rw [turn]
    split
    · exact (sent_pays conn n w).settles
    · exact Pays.settles (.refl w)
  | tick passes env => exact absurd rfl (htick passes env)
  | join channel => exact (IrcServer.join_pays channel w).settles
  | part channel => exact (IrcServer.part_pays h channel).settles
  | sendCmd cmd args => exact (IrcServer.sendCmd_pays cmd args w).settles
  | sendMsg recipient message action => exact (IrcServer.sendMsg_pays recipient message action w).settles
  | setNick nick => exact (IrcServer.setNick_pays nick w).settles
  | disconnect => exact disconnect_settles h hlt

/-- A tick adds one to what may be spent, and no other turn does while the timer is registered. -/
theorem turn_solvent {bound : ℤ} {t : Turn} (h : Solvent conn bound w) (hu : Unarmed t w)
    (ht : turn conn t w = .ok w') : Solvent conn (bound + ticks [t]) w' := by
  by_cases htick : ∃ passes env, t = .tick passes env
  · obtain ⟨passes,env,rfl⟩ := htick
    have hr := raiseTick_solvent h passes env
    rw [turn] at ht
    rw [ht] at hr
    exact hr
  · obtain ⟨handled,idleticks,ha⟩ := turn_actions h.inv ht
    have hlog : Solvent conn bound { w with ghost.handled := handled, server.idleticks := idleticks } :=
      ⟨{ h.inv with },h.created,fun hc => { h.live hc with }⟩
    have hzero : ticks [t] = 0 := by
      cases t <;> first | rfl | exact absurd ⟨_,_,rfl⟩ htick
    rw [hzero]
    refine hlog.actions ha fun hf hc => ?_
    have hset : Settles conn w (turn conn t w) :=
      turn_settles h.inv h.created ?_ (fun passes env he => htick ⟨passes,env,he⟩)
    · rw [ht] at hset
      have hw : Funded bound w := { hf with }
      exact (hw.frugal (hset hc)).mono (by simp)
    · -- The timer is registered, so that this is no login.
      intro env m he hm
      have hone := hf.active
      have hnone := hu env m he hm
      change w.service.tick.count () .activeTick 0 = 1 at hone
      omega

theorem ticks_cons (t : Turn) (turns : List Turn) : ticks (t :: turns) = ticks [t] + ticks turns := by
  rw [ticks,← List.singleton_append,List.countP_append]
  rfl

theorem run_solvent {bound : ℤ} {turns : List Turn} (h : Solvent conn bound w)
    (hr : Transitions.Run (turn conn) Unarmed w turns w') : Solvent conn (bound + ticks turns) w' := by
  induction hr generalizing bound with
  | nil => simpa [ticks] using h
  | cons hu ht _ ih =>
    have hall := ih (turn_solvent h hu ht)
    rw [ticks_cons,Int.natCast_add,← Int.add_assoc]
    exact hall

/-! ## The limit -/

/-- Behind a login the timer is registered once, and the credit is in bounds. -/
theorem login_solvent (h : Inv w) (hc : w.server.conn = some conn) (hq : w.server.sendQueue.isSome) {env : Env}
    {m : IrcMessage} (hm : m.LogsIn) (hu : Unarmed (.message env m) w) (ht : turn conn (.message env m) w = .ok w') :
    Solvent conn w'.budget w' := by
  obtain ⟨handled,idleticks,ha⟩ := turn_actions h ht
  have hlog : Inv { w with ghost.handled := handled, server.idleticks := idleticks } := { h with }
  refine ⟨hlog.actions ha,(stays_of_actions ha (h.created conn hc)).1,fun _ => ?_⟩
  rw [turn,if_pos (by simp [hc,hq])] at ht
  have hf := IrcServer.handleMessage_login env hm { w with server.idleticks := IDLETICKS }
  rw [ht] at hf
  have hone : (IrcServer.loginState m w).service.tick.count () .activeTick 0 = 1 := by
    change ((w.service.tick.unregister () .connWaitLogin 0).register () .activeTick 0).count () .activeTick 0 = 1
    rw [Event.count_register,Event.count_unregister_ne _ (by simp : TickHandler.connWaitLogin ≠ .activeTick),
      hu env m rfl hm]
    rfl
  exact ⟨hf.floor (show (0 : ℤ) ≤ FULLSENDCREDIT by decide),hf.credit,hf.active.trans hone,le_refl _⟩

/-- After a login, a stretch of turns on a connection hands over at most half as many commands
as the full credit and the ticks in the stretch give, when no message logs in while the timer
is registered. -/
theorem flood_limit {w₀ w₁ : World} {before stretch : List Turn} {env : Env} {m : IrcMessage}
    (h : Reaches (turn conn) Unarmed World.Reachable w₀) (hc : w₀.server.conn = some conn)
    (hq : w₀.server.sendQueue.isSome) (hm : m.LogsIn)
    (hb : Transitions.Run (turn conn) Unarmed w₀ (.message env m :: before) w₁)
    (hs : Transitions.Run (turn conn) Unarmed w₁ stretch w) (hend : w.server.conn = some conn) :
    w.handed - w₁.handed ≤ (9 + ticks stretch) / 2 ∧
      0 ≤ w.server.sendcreditticks ∧ w.server.sendcreditticks ≤ FULLSENDCREDIT := by
  have hinv : Inv w₀ := h.invariant (fun _ hr => hr.inv) (fun _ _ _ hi _ ht => turn_inv hi ht)
  cases hb with
  | cons hu ht hb =>
    have h₁ := run_solvent (login_solvent hinv hc hq hm hu ht) hb
    have hfull : Solvent conn (2 * w₁.handed + FULLSENDCREDIT) w₁ := by
      refine { h₁ with live := fun hc₁ => { h₁.live hc₁ with budget := ?_ } }
      exact Int.add_le_add_left (h₁.live hc₁).ceiling _
    have hfunded := (run_solvent hfull hs).live hend
    refine ⟨?_,hfunded.floor,hfunded.ceiling⟩
    have hfloor := hfunded.floor
    have hbudget := hfunded.budget
    rw [World.budget] at hbudget
    unfold FULLSENDCREDIT at hbudget
    omega

def IrcMessage.myinfo : IrcMessage :=
  ⟨some (lit "s"),lit "004",some (lit "n s x"),[lit "n",lit "s",lit "x"],.RPL_MYINFO⟩

def turns (ts : List Turn) (w : World) : Except (Fault × World) World := ts.foldlM (fun w t => turn 0 t w) w

def sampleStretch : List Turn :=
  [.sendCmd .MSG_PRIVMSG (lit "#c :x"),.sendCmd .MSG_PRIVMSG (lit "#c :y"),.sent 100,.tick 8 .failing]

theorem flood_limit_connected : ∃ w₁ w, turns [.message .failing .myinfo] World.connected = .ok w₁ ∧
    turns sampleStretch w₁ = .ok w ∧ w.handed - w₁.handed ≤ (9 + ticks sampleStretch) / 2 ∧
      0 ≤ w.server.sendcreditticks ∧ w.server.sendcreditticks ≤ FULLSENDCREDIT := by
  have hrun : (((turns [.message .failing .myinfo] World.connected).bind (turns sampleStretch)).map
      fun w => w.server.conn).toOption = some (some 0) := by decide +kernel
  cases h₁ : turns [.message .failing .myinfo] World.connected with
  | error e =>
    rw [h₁] at hrun
    cases hrun
  | ok w₁ =>
    rw [h₁,Except.bind] at hrun
    cases h : turns sampleStretch w₁ with
    | error e =>
      rw [h] at hrun
      cases hrun
    | ok w =>
      rw [h] at hrun
      have hlogin : turn 0 (.message .failing .myinfo) World.connected = .ok w₁ := by
        rw [← h₁]
        exact (bind_pure _).symm
      have hone : Unarmed (.message .failing .myinfo) World.connected := fun _ _ _ _ => by decide +kernel
      have hstretch : Transitions.Run (turn 0) Unarmed w₁ sampleStretch w :=
        .ofFold (fun t ht s env m he => by subst he; simp [sampleStretch] at ht) h
      exact ⟨w₁,w,rfl,h,flood_limit (.start World.connected_reachable) (by decide +kernel) (by decide +kernel)
        ⟨rfl,by decide⟩ (.cons hone hlogin (.nil w₁)) hstretch (Option.some.inj hrun)⟩

/-- Nine commands are queued, of which four are written; then the server repeats its `RPL_MYINFO`. -/
def refilling : List Turn :=
  List.replicate 9 (.sendCmd .MSG_PRIVMSG (lit "#c :x")) ++ List.replicate 3 (.sent 100) ++
    .message .failing .myinfo :: List.replicate 4 (.sent 100)

/-- Without a tick eight commands are handed over behind the first `RPL_MYINFO`. -/
theorem refilled_overspends : World.loggedIn.Reachable ∧ World.loggedIn.server.conn = some 0 ∧
    World.loggedIn.ghost.handled = [.myinfo] ∧ ∃ w, turns refilling World.loggedIn = .ok w ∧
      w.server.conn = some 0 ∧ ¬ w.handed - World.loggedIn.handed ≤ (9 + ticks refilling) / 2 := by
  refine ⟨World.loggedIn_reachable,by decide +kernel,by decide +kernel,?_⟩
  have hrun : ((turns refilling World.loggedIn).map fun w => decide (w.server.conn = some 0 ∧
      ¬ w.handed - World.loggedIn.handed ≤ (9 + ticks refilling) / 2)).toOption = some true := by decide +kernel
  cases h : turns refilling World.loggedIn with
  | error e =>
    rw [h] at hrun
    cases hrun
  | ok w =>
    rw [h] at hrun
    exact ⟨w,rfl,of_decide_eq_true (Option.some.inj hrun)⟩

end LibIrcBot
