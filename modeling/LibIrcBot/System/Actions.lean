import LibIrcBot.System.Link
import LibIrcBot.System.Runs

/-! # What a step can do

Every step of a run is a sequence of the actions below. Their guards say in which states
the source takes them; the invariant holds between any two of them.
-/
namespace LibIrcBot
open CString Effects Relation

/-- What may happen to the server's connection itself: the pending writes stay, and the
states of connecting change only before it is established. -/
structure Connection.Tweaked (queued : Bool) (c c' : Connection) : Prop where
  connected : c'.connected = c.connected
  closed : c'.closed = c.closed
  dataReceived : c'.dataReceived = c.dataReceived
  dataSent : c'.dataSent = c.dataSent
  tls : c'.tls = c.tls
  nrecs : c'.nrecs = c.nrecs
  baserecidx : c'.baserecidx = c.baserecidx
  wrbuf : (c'.writerecs c.baserecidx).wrbuf = (c.writerecs c.baserecidx).wrbuf
  id : (c'.writerecs c.baserecidx).id = (c.writerecs c.baserecidx).id
  writing : c'.tlsWriteSt ≠ .none → c.tlsWriteSt ≠ .none ∨ (c.tls = true ∧ c.nrecs ≠ 0)
  connecting : (c'.connecting = c.connecting ∧ c'.tlsConnectSt = c.tlsConnectSt) ∨
    (queued = false ∧ (c'.connecting ≠ 0 → c'.tlsConnectSt = .none))

namespace IrcServer

def hangUp (established : Bool) (w : World) : World := { w with
  ghost.closings := w.ghost.closings ++
    [⟨w.service.tick.count () .activeTick 0,w.server.sending,w.server.recvbuf⟩]
  server.conn := none
  server.reconnticks := if established then QUICKRECONNTICKS else RECONNTICKS
  server.connst := 0
  server.sendQueue := none }

def awaitReconn (w : World) : World := { w with
  server.name := none
  service.tick := (w.service.tick.unregister () .connWaitLogin 0).register () .connWaitReconn 0 }

/-- The write at the base of the ring is complete, and the server knows it. -/
def acknowledged (conn : ConnId) (operations : List Entry) (readfds writefds : ℤ → Bool) (w : World) : World :=
  { w.setConn conn Connection.dropRecord with
    ghost.operations := operations
    service.readfds := readfds
    service.writefds := writefds
    server.sendcmd := none
    server.sending := false }

end IrcServer

inductive Action : World → World → Prop where
  | change {w w' : World} (h : Change w w') : Action w w'
  | receive (w w' : World) (data : Bytes) (hw : w.Online) (h : IrcServer.Reads w data w') : Action w w'
  | establish (w : World) (conn : ConnId) (hc : w.server.conn = some conn) (hq : w.server.sendQueue = none)
      (hst : (w.conns conn).connecting = 0 ∧ (w.conns conn).tlsConnectSt = .none) :
      Action w (IrcServer.connConnected conn w)
  | close (w t : World) (established : Bool) (hc : w.server.conn.isSome)
      (h : IrcServer.raiseDisconnected (IrcServer.hangUp established w) = .ok t) : Action w (IrcServer.awaitReconn t)
  | acknowledge (w : World) (conn : ConnId) (operations : List Entry) (readfds writefds : ℤ → Bool)
      (hc : w.server.conn = some conn) (hn : (w.conns conn).nrecs ≠ 0) (ht : (w.conns conn).tlsWriteSt = .none) :
      Action w (IrcServer.acknowledged conn operations readfds writefds w)
  | connect (w : World) (env : Env) (hc : w.server.conn = none) : Action w (IrcServer.connect env w).2
  | own (w : World) (self : ConnId) (f : Connection → Connection) (hc : w.server.conn = some self)
      (hf : Connection.Tweaked w.server.sendQueue.isSome (w.conns self) (f (w.conns self))) :
      Action w (w.setConn self f)
  | other (w : World) (self : ConnId) (f : Connection → Connection) (hc : w.server.conn ≠ some self)
      (hf : (w.conns self).nrecs ≤ 255 → (f (w.conns self)).nrecs ≤ 255) : Action w (w.setConn self f)
  | service (w : World) (operations : List Entry) (readfds writefds : ℤ → Bool) (shutdownRef shutdownTicks : ℤ)
      (todo : List ServiceEvent) (slot : ℕ) (selecting : Bool) : Action w { w with
        ghost.operations := operations
        service.readfds := readfds
        service.writefds := writefds
        service.shutdownRef := shutdownRef
        service.shutdownTicks := shutdownTicks
        service.todo := todo
        service.slot := slot
        service.selecting := selecting }
  | counters (w : World) (reconnticks loginticks idleticks credits : ℤ) : Action w { w with
        server.reconnticks := reconnticks
        server.loginticks := loginticks
        server.idleticks := idleticks
        server.sendcreditticks := credits }
  | tickRegister (w : World) (t : TickHandler) (ht : t ≠ .connWaitLogin ∧ t ≠ .activeTick)
      (hn : ¬ t.IsTimer) (hc : t.Created w.nconns) : Action w { w with service.tick := w.service.tick.register () t 0 }
  | tickUnregister (w : World) (t : TickHandler) (hn : ¬ t.IsTimer) :
      Action w { w with service.tick := w.service.tick.unregister () t 0 }
  | readUnregister (w : World) (h : ReadHandler) (id : ℤ) :
      Action w { w with service.readyRead := w.service.readyRead.unregister () h id }
  | writeUnregister (w : World) (h : WriteHandler) (id : ℤ) :
      Action w { w with service.readyWrite := w.service.readyWrite.unregister () h id }
  | doneRegister (w : World) (self : ConnId) (h : self < w.nconns ∧ w.server.conn ≠ some self) :
      Action w { w with service.eventsDone := w.service.eventsDone.register () (.deleteConnection self) 0 }
  | doneUnregister (w : World) (h : DoneHandler) :
      Action w { w with service.eventsDone := w.service.eventsDone.unregister () h 0 }
  | listen (w : World) : Action w { w with
        server.connected := w.server.connected.register () .connected 0
        server.joined := w.server.joined.register () .chanJoined 0
        server.msgReceived := w.server.msgReceived.register () .msgReceived IrcCommand.MSG_PRIVMSG.code }
  | logout (w : World) :
      Action w { w with server.disconnected := w.server.disconnected.register () .shutdownok 0 }

theorem hangUp_effects {w t : World} {established : Bool}
    (h : IrcServer.raiseDisconnected (IrcServer.hangUp established w) = .ok t) :
    ReflTransGen Effect (IrcServer.hangUp established w) t := by
  have ht : Traces none _ (IrcServer.raiseDisconnected (IrcServer.hangUp established w)) :=
    IrcServer.raiseDisconnected_traces (Int.le_refl 0)
  rw [h] at ht
  exact ht

theorem Connection.dropRecord_nrecs (c : Connection) : (dropRecord c).nrecs ≤ 255 :=
  Nat.le_of_lt_succ (Nat.mod_lt _ (by decide))

namespace Attached
variable {c c' : Connection} {queued sending : Bool} {sendcmd : Option Buffer}

theorem tweak (h : Attached c queued sending sendcmd) (ht : Connection.Tweaked queued c c') :
    Attached c' queued sending sendcmd where
  connected := ht.connected ▸ h.connected
  closed := ht.closed ▸ h.closed
  base := ht.baserecidx ▸ h.base
  connecting := by
    rcases ht.connecting with ⟨hc,hs⟩ | ⟨_,hc⟩
    · rw [hc,hs]
      exact h.connecting
    · exact hc
  plain := fun htls => by
    rw [ht.tls] at htls
    by_contra hw
    rcases ht.writing hw with hw | ⟨hw,_⟩
    · exact hw (h.plain htls)
    · rw [htls] at hw
      cases hw
  writing := fun hw => by
    rw [ht.nrecs]
    rcases ht.writing hw with hw | ⟨_,hw⟩
    · exact h.writing hw
    · exact hw
  pending := by
    rw [ht.nrecs,ht.baserecidx,ht.wrbuf,ht.id]
    exact h.pending
  fresh := by
    rw [ht.dataReceived,ht.dataSent]
    exact h.fresh
  established := fun hq => by
    rcases ht.connecting with ⟨hc,hs⟩ | ⟨hf,_⟩
    · rw [hc,hs,ht.dataReceived,ht.dataSent]
      exact h.established hq
    · rw [hq] at hf
      cases hf

theorem drop (h : Attached c queued sending sendcmd) (hn : c.nrecs ≠ 0) (ht : c.tlsWriteSt = .none) :
    Attached (Connection.dropRecord c) queued false none := by
  have hzero : (Connection.dropRecord c).nrecs = 0 := by
    rw [Connection.dropRecord,(h.pending hn).1]
  have hbase : (Connection.dropRecord c).baserecidx < NWRITERECS := by
    have hb := h.base
    unfold Connection.dropRecord
    dsimp only
    split
    · decide
    · omega
  exact { h with
    base := hbase
    writing := fun hw => absurd ht hw
    pending := fun hne => absurd hzero hne }

end Attached

/-- A connection that `IrcServer_connect` has just created and registered on. -/
structure Connection.Fresh (c : Connection) : Prop where
  connected : c.connected.Only () .connConnected 0
  closed : c.closed.Only () .connClosed 0
  dataReceived : c.dataReceived.handlers = []
  dataSent : c.dataSent.handlers = []
  tlsConnectSt : c.tlsConnectSt = .none
  tlsWriteSt : c.tlsWriteSt = .none
  nrecs : c.nrecs = 0
  baserecidx : c.baserecidx = 0

theorem Connection.Fresh.attached {c : Connection} (h : c.Fresh) (sending : Bool) (sendcmd : Option Buffer) :
    Attached c false sending sendcmd where
  connected := h.connected
  closed := h.closed
  base := h.baserecidx ▸ (by decide)
  connecting := fun _ => h.tlsConnectSt
  plain := fun _ => h.tlsWriteSt
  writing := fun hw => absurd h.tlsWriteSt hw
  pending := fun hn => absurd h.nrecs hn
  fresh := fun _ => ⟨h.dataReceived,h.dataSent⟩
  established := nofun

theorem connect_shape {w : World} (env : Env) (hc : w.server.conn = none) :
    (IrcServer.connect env w).2 = w ∨ ∃ fd conns, (∀ self, self ≠ w.nconns → conns self = w.conns self) ∧
      (conns w.nconns).Fresh ∧ (IrcServer.connect env w).2 = { w with
        conns := conns
        nconns := w.nconns + 1
        server.conn := some w.nconns
        service.readyRead := w.service.readyRead.register () (.readConnection w.nconns) fd
        service.readyWrite := w.service.readyWrite.register () (.writeConnection w.nconns) fd
        service.tick := w.service.tick.register () (.checkPendingConnection w.nconns) 0
        service.writefds := Function.update w.service.writefds fd true } := by
  unfold IrcServer.connect
  rw [if_neg (by simp [hc])]
  cases env.socket with
  | none => exact Or.inl rfl
  | some fd =>
    refine Or.inr ⟨fd,_,fun self hs => ?_,?_,rfl⟩
    · exact (Function.update_of_ne hs _ _).trans (Function.update_of_ne hs _ _)
    · simp only [Connection.create,Service.registerWrite,Function.update_self]
      exact ⟨Event.only_register rfl () _ 0,Event.only_register rfl () _ 0,rfl,rfl,rfl,rfl,rfl,rfl⟩

theorem TickHandler.Created.succ {t : TickHandler} {n : ℕ} (h : t.Created n) : t.Created (n + 1) := by
  cases t <;> first | exact Nat.lt_succ_of_lt h | trivial

theorem Linked.hangUp {w : World} (h : Linked w) (established : Bool) : Linked (IrcServer.hangUp established w) :=
  { h with
    queue := fun _ => rfl
    connst := fun _ => rfl
    created := nofun
    attached := nofun
    dones := h.dones.mono fun _ hd => ⟨hd.1,nofun⟩ }

theorem Linked.awaitReconn {w : World} (h : Linked w) : Linked (IrcServer.awaitReconn w) :=
  { h with ticks := (h.ticks.unregister () .connWaitLogin 0).register () 0 trivial }

namespace Linked
variable {w : World}

theorem setConn (h : Linked w) (self : ConnId) (f : Connection → Connection)
    (hf : w.server.conn = some self →
      Attached (f (w.conns self)) w.server.sendQueue.isSome w.server.sending w.server.sendcmd)
    (hn : (w.conns self).nrecs ≤ 255 → (f (w.conns self)).nrecs ≤ 255) : Linked (w.setConn self f) := by
  refine { h with attached := fun c hc => ?_, records := fun c hlt => ?_ }
  · rw [setConn_conns]
    split
    · next he =>
      subst he
      exact hf hc
    · exact h.attached c hc
  · rw [setConn_conns]
    split
    · next he =>
      subst he
      exact hn (h.records c hlt)
    · exact h.records c hlt

theorem establish (h : Linked w) {conn : ConnId} (hc : w.server.conn = some conn) (hq : w.server.sendQueue = none)
    (hst : (w.conns conn).connecting = 0 ∧ (w.conns conn).tlsConnectSt = .none) :
    Linked (IrcServer.connConnected conn w) := by
  have ha := h.attached_eq hc (show w.server.sendQueue.isSome = false by rw [hq]; rfl)
  unfold IrcServer.connConnected
  rw [if_pos hc]
  refine { h with
    queue := fun hn => by
      change w.server.conn = none at hn
      rw [hc] at hn
      cases hn
    connst := nofun
    attached := fun self hc' => ?_
    records := fun self hlt => ?_
    ticks := h.ticks.register () 0 trivial }
  · obtain rfl : conn = self := Option.some.inj (hc.symm.trans hc')
    change Attached (Function.update w.conns conn _ conn) true w.server.sending w.server.sendcmd
    rw [Function.update_self]
    exact { ha with
      pending := fun hn => by cases (ha.pending hn).2.1
      fresh := nofun
      established := fun _ => ⟨hst.1,hst.2,Event.only_register (ha.fresh rfl).1 () _ 0,
        Event.only_register (ha.fresh rfl).2 () _ 0⟩ }
  · change (Function.update w.conns conn _ self).nrecs ≤ 255
    by_cases hs : self = conn
    · rw [hs,Function.update_self]
      exact h.records conn (hs ▸ hlt)
    · rw [Function.update_of_ne hs]
      exact h.records self hlt

theorem connect (h : Linked w) (env : Env) (hc : w.server.conn = none) : Linked (IrcServer.connect env w).2 := by
  rcases connect_shape env hc with he | ⟨fd,conns,hother,hfresh,he⟩
  · rw [he]
    exact h
  · have hself : w.nconns < w.nconns + 1 := Nat.lt_succ_self _
    rw [he]
    refine { h with
      queue := nofun
      created := fun self hs => ?_
      attached := fun self hs => ?_
      records := fun self hs => ?_
      ticks := (h.ticks.mono fun t => TickHandler.Created.succ).register () 0 hself
      reads := (h.reads.mono fun t ht => Nat.lt_succ_of_lt ht).register () fd hself
      writes := (h.writes.mono fun t ht => Nat.lt_succ_of_lt ht).register () fd hself
      dones := h.dones.mono fun d hd => ⟨Nat.lt_succ_of_lt hd.1,fun he => ?_⟩ }
    · obtain rfl : w.nconns = self := Option.some.inj hs
      exact hself
    · obtain rfl : w.nconns = self := Option.some.inj hs
      change Attached (conns w.nconns) w.server.sendQueue.isSome _ _
      rw [h.queue hc]
      exact hfresh.attached _ _
    · change (conns self).nrecs ≤ 255
      by_cases hn : self = w.nconns
      · rw [hn,hfresh.nrecs]
        decide
      · rw [hother self hn]
        exact h.records self (Nat.lt_of_le_of_ne (Nat.le_of_lt_succ hs) hn)
    · exact absurd (Option.some.inj he).symm (Nat.ne_of_lt hd.1)

end Linked

structure Inv (w : World) : Prop extends Linked w, LoginTimer w where
  recvbuf : w.server.recvbuf.length ≤ 4096

namespace Inv
variable {w w' : World}

theorem initial (h : w.Initial) : Inv w where
  queue := fun _ => by rw [h.sendQueue]; rfl
  connst := fun _ => h.connst
  created := fun self hc => by rw [h.conn] at hc; cases hc
  attached := fun self hc => by rw [h.conn] at hc; cases hc
  records := fun self hlt => by rw [h.nconns] at hlt; cases hlt
  ticks := h.tick ▸ Event.all_create
  reads := h.readyRead ▸ Event.all_create
  writes := h.readyWrite ▸ Event.all_create
  dones := h.eventsDone ▸ Event.all_create
  table := fun i e he => by rw [h.channels] at he; cases he
  once := by rw [h.tick]; decide
  waiting := fun hp => by rw [h.tick] at hp; cases hp
  recvbuf := by rw [h.recvbuf]; decide

theorem change (h : Inv w) (hc : Change w w') : Inv w' where
  toLinked := h.toLinked.change hc
  toLoginTimer := h.toLoginTimer.received (.change hc)
  recvbuf := hc.same.recvbuf ▸ h.recvbuf

theorem receive {data : Bytes} (h : Inv w) (hr : IrcServer.Reads w data w') : Inv w' where
  toLinked := Effects.invariant (fun _ _ ht hs => Linked.received ht hs) h.toLinked hr.steps
  toLoginTimer := Effects.invariant (fun _ _ ht hs => LoginTimer.received ht hs) h.toLoginTimer hr.steps
  recvbuf := hr.recvbuf ▸ IrcServer.feed_length _ _

theorem establish (h : Inv w) {conn : ConnId} (hc : w.server.conn = some conn) (hq : w.server.sendQueue = none)
    (hst : (w.conns conn).connecting = 0 ∧ (w.conns conn).tlsConnectSt = .none) :
    Inv (IrcServer.connConnected conn w) := by
  have hlinked := h.toLinked.establish hc hq hst
  have hcount : w.service.tick.count () .connWaitLogin 0 = 0 := by
    by_contra hn
    have hneg := h.waiting (Nat.pos_of_ne_zero hn)
    rw [h.connst (by rw [hq]; rfl)] at hneg
    cases hneg
  have hreg : (w.service.tick.register () .connWaitLogin 0).count () .connWaitLogin 0 = 1 := by
    rw [Event.count_register,hcount]
    rfl
  rw [IrcServer.connConnected,if_pos hc] at hlinked ⊢
  exact { hlinked with
    once := Nat.le_of_eq hreg
    waiting := fun _ => (by decide : (-1 : ℤ) < 0)
    recvbuf := h.recvbuf }

theorem close (h : Inv w) {established : Bool} {t : World}
    (ht : ReflTransGen Effect (IrcServer.hangUp established w) t) : Inv (IrcServer.awaitReconn t) := by
  have hlinked := (h.toLinked.hangUp established).effects ht
  have hcount : t.service.tick.count () .connWaitLogin 0 ≤ 1 := connWaitLogin_of_effects ht ▸ h.once
  have hzero : ((t.service.tick.unregister () .connWaitLogin 0).register () .connWaitReconn 0).count ()
      .connWaitLogin 0 = 0 := by
    rw [Event.count_register_ne _ (by decide : TickHandler.connWaitReconn ≠ .connWaitLogin),
      Event.count_unregister_self]
    exact Nat.sub_eq_zero_of_le hcount
  have hbuf : t.server.recvbuf = w.server.recvbuf := (same_of_effects ht).recvbuf
  exact { hlinked.awaitReconn with
    once := by
      change ((t.service.tick.unregister () .connWaitLogin 0).register () .connWaitReconn 0).count () _ 0 ≤ 1
      rw [hzero]
      exact Nat.zero_le _
    waiting := fun hp => by
      change 0 < ((t.service.tick.unregister () .connWaitLogin 0).register () .connWaitReconn 0).count () _ 0 at hp
      rw [hzero] at hp
      cases hp
    recvbuf := hbuf ▸ h.recvbuf }

theorem setConn (h : Inv w) (self : ConnId) (f : Connection → Connection)
    (hf : w.server.conn = some self →
      Attached (f (w.conns self)) w.server.sendQueue.isSome w.server.sending w.server.sendcmd)
    (hn : (w.conns self).nrecs ≤ 255 → (f (w.conns self)).nrecs ≤ 255) : Inv (w.setConn self f) :=
  { h.toLinked.setConn self f hf hn with
    once := h.once
    waiting := h.waiting
    recvbuf := h.recvbuf }

theorem acknowledge (h : Inv w) {conn : ConnId} (operations : List Entry) (readfds writefds : ℤ → Bool)
    (hc : w.server.conn = some conn) (hn : (w.conns conn).nrecs ≠ 0) (ht : (w.conns conn).tlsWriteSt = .none) :
    Inv (IrcServer.acknowledged conn operations readfds writefds w) := by
  refine { h with attached := fun self hc' => ?_, records := fun self hlt => ?_ }
  · obtain rfl : conn = self := Option.some.inj (hc.symm.trans hc')
    change Attached (Function.update w.conns conn _ conn) w.server.sendQueue.isSome false none
    rw [Function.update_self]
    exact (h.attached conn hc).drop hn ht
  · change (Function.update w.conns conn _ self).nrecs ≤ 255
    by_cases hs : self = conn
    · rw [hs,Function.update_self]
      exact Connection.dropRecord_nrecs _
    · rw [Function.update_of_ne hs]
      exact h.records self hlt

theorem connect (h : Inv w) (env : Env) (hc : w.server.conn = none) : Inv (IrcServer.connect env w).2 := by
  have hlinked := h.toLinked.connect env hc
  rcases connect_shape env hc with he | ⟨fd,conns,_,_,he⟩
  · rw [he]
    exact h
  · have hone : TickHandler.checkPendingConnection w.nconns ≠ .connWaitLogin := nofun
    rw [he] at hlinked ⊢
    exact { hlinked with
      once := by
        rw [Event.count_register_ne _ hone]
        exact h.once
      waiting := fun hp => by
        rw [Event.count_register_ne _ hone] at hp
        exact h.waiting hp
      recvbuf := h.recvbuf }

theorem tick_register (h : Inv w) {t : TickHandler} (ht : t ≠ .connWaitLogin) (hc : t.Created w.nconns) :
    Inv { w with service.tick := w.service.tick.register () t 0 } :=
  { h with
    once := by
      rw [Event.count_register_ne _ ht]
      exact h.once
    waiting := fun hp => by
      rw [Event.count_register_ne _ ht] at hp
      exact h.waiting hp
    ticks := h.ticks.register () 0 hc }

theorem tick_unregister (h : Inv w) (t : TickHandler) :
    Inv { w with service.tick := w.service.tick.unregister () t 0 } :=
  have hle := w.service.tick.count_unregister_le () () .connWaitLogin t 0 0
  { h with
    once := Nat.le_trans hle h.once
    waiting := fun hp => h.waiting (Nat.lt_of_lt_of_le hp hle)
    ticks := h.ticks.unregister () t 0 }

theorem action (h : Inv w) (ha : Action w w') : Inv w' := by
  cases ha with
  | change hc => exact h.change hc
  | receive _ data hw hr => exact h.receive hr
  | establish conn hc hq hst => exact h.establish hc hq hst
  | close t est hc ht => exact h.close (hangUp_effects ht)
  | acknowledge conn operations readfds writefds hc hn ht => exact h.acknowledge operations readfds writefds hc hn ht
  | connect env hc => exact h.connect env hc
  | own self f hc hf =>
    exact h.setConn self f (fun _ => (h.attached self hc).tweak hf) (fun hn => hf.nrecs ▸ hn)
  | other self f hc hf => exact h.setConn self f (fun hc' => absurd hc' hc) hf
  | tickRegister t ht _ hc => exact h.tick_register ht.1 hc
  | tickUnregister t _ => exact h.tick_unregister t
  | readUnregister r id => exact { h with reads := h.reads.unregister () r id }
  | writeUnregister r id => exact { h with writes := h.writes.unregister () r id }
  | doneRegister self hd => exact { h with dones := h.dones.register () 0 hd }
  | doneUnregister d => exact { h with dones := h.dones.unregister () d 0 }
  | service | counters | listen | logout => exact { h with }

theorem actions (h : Inv w) (ha : ReflTransGen Action w w') : Inv w' :=
  Effects.invariant (fun _ _ ht hs => Inv.action ht hs) h ha

end Inv
end LibIrcBot
