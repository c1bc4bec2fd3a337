import LibIrcBot.System.Receiving

/-! # The link invariant

What the state of the server, its connection and the registered callbacks have to do
with each other whenever no function of the connection is running, and what the handling
of messages and the calls of the application keep of it all the time.
-/
namespace LibIrcBot
open CString Effects Relation

def TickHandler.Created (n : ℕ) : TickHandler → Prop
  | .checkPendingConnection self => self < n
  | .checkPendingTls self => self < n
  | _ => True

def ReadHandler.Created (n : ℕ) : ReadHandler → Prop
  | .readConnection self => self < n

def WriteHandler.Created (n : ℕ) : WriteHandler → Prop
  | .writeConnection self => self < n

/-- A connection that is to be deleted exists, and the server does not use it any more. -/
def DoneHandler.Released (n : ℕ) (conn : Option ConnId) : DoneHandler → Prop
  | .deleteConnection self => self < n ∧ conn ≠ some self

/-- The server's connection: `queued` says whether the server has a send queue, that is,
whether the connection has been established. -/
structure Attached (c : Connection) (queued sending : Bool) (sendcmd : Option Buffer) : Prop where
  connected : c.connected.Only () .connConnected 0
  closed : c.closed.Only () .connClosed 0
  base : c.baserecidx < NWRITERECS
  connecting : c.connecting ≠ 0 → c.tlsConnectSt = .none
  plain : c.tls = false → c.tlsWriteSt = .none
  writing : c.tlsWriteSt ≠ .none → c.nrecs ≠ 0
  /-- At most one write is pending: that of `sendcmd`, while `sending` is set. -/
  pending : c.nrecs ≠ 0 → c.nrecs = 1 ∧ queued = true ∧ sending = true ∧
    sendcmd = some (c.writerecs c.baserecidx).wrbuf ∧ (c.writerecs c.baserecidx).id = true
  fresh : queued = false → c.dataReceived.handlers = [] ∧ c.dataSent.handlers = []
  established : queued = true → c.connecting = 0 ∧ c.tlsConnectSt = .none ∧
    c.dataReceived.Only () .connDataReceived 0 ∧ c.dataSent.Only () .connDataSent 0

/-- The timer for the login is registered once, and only while the login is awaited. -/
structure LoginTimer (w : World) : Prop where
  once : w.service.tick.count () .connWaitLogin 0 ≤ 1
  waiting : 0 < w.service.tick.count () .connWaitLogin 0 → w.server.connst < 0

/-- The server, its connection and the callbacks of connections fit together. -/
structure Linked (w : World) : Prop where
  queue : w.server.conn = none → w.server.sendQueue.isSome = false
  connst : w.server.sendQueue.isSome = false → w.server.connst = 0
  created : ∀ self, w.server.conn = some self → self < w.nconns
  attached : ∀ self, w.server.conn = some self →
    Attached (w.conns self) w.server.sendQueue.isSome w.server.sending w.server.sendcmd
  records : ∀ self, self < w.nconns → (w.conns self).nrecs ≤ 255
  ticks : w.service.tick.All (TickHandler.Created w.nconns)
  reads : w.service.readyRead.All (ReadHandler.Created w.nconns)
  writes : w.service.readyWrite.All (WriteHandler.Created w.nconns)
  dones : w.service.eventsDone.All (DoneHandler.Released w.nconns w.server.conn)
  /-- A channel is in the table under its name. -/
  table : ∀ i, ∀ e ∈ w.server.channels.bucket i, e.obj < w.nchans ∧ (w.chans e.obj).name = e.key

namespace Attached
variable {c : Connection} {queued sending : Bool} {sendcmd : Option Buffer}

theorem idle (h : Attached c queued false sendcmd) : c.nrecs = 0 := by
  by_contra hn
  cases (h.pending hn).2.2.1

/-- Without a pending write the send state of the server does not matter. -/
theorem resend (h : Attached c queued sending sendcmd) (hn : c.nrecs = 0) (sending' : Bool)
    (sendcmd' : Option Buffer) : Attached c queued sending' sendcmd' :=
  { h with pending := fun hne => absurd hn hne }

theorem write (h : Attached c true sending sendcmd) (hn : c.nrecs = 0) (buf : Buffer) :
    Attached (Connection.addRecord buf true c) true true (some buf) := by
  have hi : (c.baserecidx + c.nrecs) % NWRITERECS = c.baserecidx := by
    rw [hn,Nat.add_zero,Nat.mod_eq_of_lt h.base]
  have hrec : (Connection.addRecord buf true c).writerecs c.baserecidx =
      ⟨buf,true,buf.text.length % 2 ^ 16,0⟩ := by
    simp only [Connection.addRecord,hi,Function.update_self]
  refine { h with writing := fun _ => Nat.succ_ne_zero _, pending := fun _ => ⟨?_,rfl,rfl,?_,?_⟩ }
  · rw [Connection.addRecord,hn]
  · exact (congrArg (fun r => some r.wrbuf) hrec).symm
  · exact congrArg WriteRecord.id hrec

end Attached

theorem write_idle {conn : ConnId} {w : World} (h : (w.conns conn).nrecs = 0) (buf : Buffer) (id : Bool) :
    ∃ operations readfds writefds, (Connection.write conn buf id w).2 = { w.setConn conn (Connection.addRecord buf id) with
      ghost.operations := operations, service.readfds := readfds, service.writefds := writefds } := by
  unfold Connection.write
  rw [if_neg (by rw [h]; decide)]
  exact Connection.wantreadwrite_shape _ _

theorem timer_ne {t : TickHandler} (h : t.IsTimer) : t ≠ .connWaitLogin ∧ t ≠ .activeTick := by
  cases t <;> first | exact h.elim | exact ⟨nofun,nofun⟩

theorem timer_created {t : TickHandler} (h : t.IsTimer) (n : ℕ) : t.Created n := by
  cases t <;> first | exact h.elim | trivial

variable {w w' : World}

namespace Linked

theorem queued (h : Linked w) (hq : w.server.sendQueue.isSome) : w.Online := by
  refine ⟨?_,hq⟩
  by_contra hn
  have hf := h.queue (by simpa using hn)
  rw [hq] at hf
  cases hf

theorem online (h : Linked w) (hst : w.server.connst ≠ 0) : w.Online := by
  refine h.queued ?_
  by_contra hn
  exact hst (h.connst (by simpa using hn))

theorem attached_eq (h : Linked w) {self : ConnId} (hc : w.server.conn = some self) {queued : Bool}
    (hq : w.server.sendQueue.isSome = queued) :
    Attached (w.conns self) queued w.server.sending w.server.sendcmd := hq ▸ h.attached self hc

/-- A channel in the table is there under its name. -/
theorem name_of_get (h : Linked w) {name : Bytes} {chan : ChanId}
    (hget : w.server.channels.get name = some chan) : chan < w.nchans ∧ (w.chans chan).name = name := by
  obtain ⟨e,he,rfl⟩ := Option.map_eq_some_iff.mp hget
  have hmem := h.table _ e (List.mem_of_find?_eq_some he)
  exact ⟨hmem.1,hmem.2.trans (IBHashTable.key_of_find he)⟩

theorem sends (h : Linked w) (hs : IrcServer.Sends w w') : Linked w' := by
  cases hs with
  | queued allocs commands queue hq =>
    exact { h with
      queue := fun hc => hq.trans (h.queue hc)
      connst := fun hn => h.connst (hq.symm.trans hn)
      attached := fun self hc => h.attached_eq hc hq.symm }
  | drained allocs commands queue hq hs =>
    refine { h with
      queue := fun hc => hq.trans (h.queue hc)
      connst := fun hn => h.connst (hq.symm.trans hn)
      attached := fun self hc => ?_ }
    have ha := h.attached_eq hc hq.symm
    rw [hs] at ha
    exact ha.resend ha.idle _ _
  | written allocs commands queue buf credits conn hq hsome hs hc =>
    have ha := h.attached_eq hc (hq.symm.trans hsome)
    have hn : (w.conns conn).nrecs = 0 := by
      rw [hs] at ha
      exact ha.idle
    obtain ⟨ops,r,wr,he⟩ := write_idle (w := { w with
      allocs := allocs
      ghost.commands := commands
      server.sendQueue := queue
      server.sendcmd := some buf
      server.sending := true
      server.sendcreditticks := credits }) hn buf true
    rw [he]
    refine { h with
      queue := fun hn => hq.trans (h.queue hn)
      connst := fun hn => h.connst (hq.symm.trans hn)
      attached := fun self hc' => ?_
      records := fun self hlt => ?_ }
    · obtain rfl : conn = self := Option.some.inj (hc.symm.trans hc')
      change Attached (Function.update w.conns conn _ conn) queue.isSome true (some buf)
      rw [Function.update_self,hsome]
      exact ha.write hn buf
    · change (Function.update w.conns conn _ self).nrecs ≤ 255
      by_cases hself : self = conn
      · rw [hself,Function.update_self,Connection.addRecord]
        change (w.conns conn).nrecs + 1 ≤ 255
        rw [hn]
        decide
      · rw [Function.update_of_ne hself]
        exact h.records self hlt

theorem table_chan {chans : ChanId → IrcChannel} {bucket : ℕ → List (IBHashTableEntry ChanId Deleter)} {n : ℕ}
    (h : ∀ i, ∀ e ∈ bucket i, e.obj < n ∧ (chans e.obj).name = e.key) {chans' : ChanId → IrcChannel}
    (hname : ∀ c, c < n → (chans' c).name = (chans c).name) :
    ∀ i, ∀ e ∈ bucket i, e.obj < n ∧ (chans' e.obj).name = e.key :=
  fun i e he => ⟨(h i e he).1,(hname _ (h i e he).1).trans (h i e he).2⟩

theorem effect (h : Linked w) (he : Effect w w') : Linked w' := by
  cases he with
  | chan self f hf =>
    refine { h with table := table_chan h.table fun c _ => ?_ }
    rw [setChan_chans]
    split
    · exact hf.name _
    · rfl
  | tickRegister t ht => exact { h with ticks := h.ticks.register () 0 (timer_created ht w.nconns) }
  | tickUnregister t _ => exact { h with ticks := h.ticks.unregister () t 0 }
  | send _ cmd args hcmd _ hs =>
    obtain ⟨name,hname⟩ := Option.isSome_iff_exists.mp hcmd
    rw [IrcServer.sendRawCmd_eq hname] at hs
    exact h.sends (IrcServer.sendRaw_sends hs)
  | remove self _ =>
    obtain ⟨_,_,he⟩ := remove_shape (w.chans self).name self w
    rw [he]
    refine { h with table := fun i e hmem => h.table i e ?_ }
    change e ∈ (w.server.channels.delete (w.chans self).name).2.2.bucket i at hmem
    rw [IBHashTable.delete_bucket] at hmem
    by_cases hi : i = hashstr (w.chans self).name w.server.channels.bits
    · rw [hi,Function.update_self] at hmem
      rw [hi]
      exact List.mem_of_mem_eraseP hmem
    · rwa [Function.update_of_ne hi] at hmem
  | _ => exact { h with }

theorem effects (h : Linked w) (he : ReflTransGen Effect w w') : Linked w' :=
  Effects.invariant (fun _ _ ht hs => Linked.effect ht hs) h he

theorem not_fresh (hw : w.Online) {p : Prop} : w.server.sendQueue.isSome = false → p := by
  intro hn
  rw [hw.sendQueue] at hn
  cases hn

theorem change (h : Linked w) (hc : Change w w') : Linked w' := by
  cases hc with
  | call hd => exact h.effects hd.effects
  | send _ command _ hs => exact h.sends (IrcServer.sendRaw_sends hs)
  | login name hw =>
    exact { h with
      connst := not_fresh hw
      ticks := (h.ticks.unregister () .connWaitLogin 0).register () 0 trivial }
  | nick nick => exact { h with }
  | addChannel name _ =>
    obtain ⟨chans,_,_,hother,hname,he⟩ := addChannel_shape name w
    rw [he]
    have hold : ∀ i, ∀ e ∈ w.server.channels.bucket i, e.obj < w.nchans + 1 ∧ (chans e.obj).name = e.key := by
      intro i e hmem
      obtain ⟨hlt,hn⟩ := h.table i e hmem
      rw [hother _ (Nat.ne_of_lt hlt)]
      exact ⟨Nat.lt_succ_of_lt hlt,hn⟩
    refine { h with table := fun i e hmem => ?_ }
    change e ∈ (w.server.channels.set name w.nchans (some .destroyIrcChannel)).2.bucket i at hmem
    rw [IBHashTable.set_bucket] at hmem
    by_cases hi : i = hashstr name w.server.channels.bits
    · rw [hi,Function.update_self] at hmem
      rcases IBHashTable.mem_put hmem with ⟨_,rfl⟩ | hmem
      · exact ⟨Nat.lt_succ_self _,hname⟩
      · exact hold _ e hmem
    · rw [Function.update_of_ne hi] at hmem
      exact hold i e hmem

theorem received (h : Linked w) (hr : Received w w') : Linked w' := by
  cases hr with
  | change hc => exact h.change hc
  | message m => exact { h with }
  | buffer idleticks received recvbuf => exact { h with }
  | login hst => exact { h with connst := not_fresh (h.online (by rw [hst]; decide)) }

end Linked

theorem Effect.connWaitLogin (h : Effect w w') :
    w'.service.tick.count () .connWaitLogin 0 = w.service.tick.count () .connWaitLogin 0 := by
  cases h with
  | tickRegister t ht => exact Event.count_register_ne _ (timer_ne ht).1
  | tickUnregister t ht => exact Event.count_unregister_ne _ (timer_ne ht).1
  | send _ cmd args hcmd _ hs =>
    obtain ⟨_,_,_,_,_,_,_,_,_,_,_,_,rfl⟩ := sendRawCmd_outputs hcmd hs
    rfl
  | remove self _ =>
    obtain ⟨_,_,he⟩ := remove_shape (w.chans self).name self w
    rw [he]
  | _ => rfl

theorem connWaitLogin_of_effects (h : ReflTransGen Effect w w') :
    w'.service.tick.count () .connWaitLogin 0 = w.service.tick.count () .connWaitLogin 0 :=
  Effects.invariant
    (I := fun t => t.service.tick.count () .connWaitLogin 0 = w.service.tick.count () .connWaitLogin 0)
    (fun _ _ ht hs => hs.connWaitLogin.trans ht) rfl h

namespace LoginTimer

theorem received (h : LoginTimer w) (hr : Received w w') : LoginTimer w' := by
  cases hr with
  | change hc =>
    cases hc with
    | call hd =>
      have hc := connWaitLogin_of_effects hd.effects
      exact ⟨by rw [hc]; exact h.once,by rw [hc,(same_of_effects hd.effects).connst]; exact h.waiting⟩
    | send _ command _ hs =>
      obtain ⟨_,_,_,_,_,_,_,_,_,_,_,_,rfl⟩ := sendRaw_outputs hs
      exact { h with }
    | login name hw =>
      have hcount : ((w.service.tick.unregister () .connWaitLogin 0).register () .activeTick 0).count ()
          .connWaitLogin 0 = 0 := by
        rw [Event.count_register_ne _ (by decide : TickHandler.activeTick ≠ .connWaitLogin),
          Event.count_unregister_self]
        exact Nat.sub_eq_zero_of_le h.once
      refine ⟨?_,fun hp => ?_⟩
      · rw [hcount]
        exact Nat.zero_le _
      · rw [hcount] at hp
        cases hp
    | nick nick => exact { h with }
    | addChannel name _ =>
      obtain ⟨_,_,_,_,_,he⟩ := addChannel_shape name w
      rw [he]
      exact { h with }
  | message m => exact { h with }
  | buffer idleticks received recvbuf => exact { h with }
  | login hst => exact { h with waiting := fun _ => (by decide : (-2 : ℤ) < 0) }

end LoginTimer
end LibIrcBot
