import LibIrcBot.System.Locks

/-! # What happens to connections

Commands and messages reach a connection only through `Connection_write` on the
connection of the server. Everything else that a handler does to connections is one of a
few moves; whether an invariant of connections holds is decided there.
-/
namespace LibIrcBot
open CString Effects Relation Outcome

/-! ## Commands and messages -/

def TickHandler.IsPending : TickHandler → Prop
  | .checkPendingConnection _ => True
  | .checkPendingTls _ => True
  | _ => False

theorem pending_ne {t h : TickHandler} (ht : ¬ t.IsPending) (hh : h.IsPending) : t ≠ h := by
  rintro rfl
  exact ht hh

theorem timer_not_pending {t : TickHandler} (h : t.IsTimer) : ¬ t.IsPending := by
  cases t <;> first | exact h.elim | exact not_false

/-- The connections, and the events of the service as far as they are concerned, are the same. -/
structure World.SameNet (w w' : World) : Prop where
  conns : w'.conns = w.conns
  nconns : w'.nconns = w.nconns
  conn : w'.server.conn = w.server.conn
  queued : w'.server.sendQueue.isSome = w.server.sendQueue.isSome
  operations : w'.ghost.operations = w.ghost.operations
  tick : ∀ (h : TickHandler) (id : ℤ), h.IsPending → w'.service.tick.count () h id = w.service.tick.count () h id
  readyRead : w'.service.readyRead = w.service.readyRead
  readyWrite : w'.service.readyWrite = w.service.readyWrite
  eventsDone : w'.service.eventsDone = w.service.eventsDone
  readfds : w'.service.readfds = w.service.readfds
  writefds : w'.service.writefds = w.service.writefds
  todo : w'.service.todo = w.service.todo
  slot : w'.service.slot = w.service.slot
  selecting : w'.service.selecting = w.service.selecting

theorem World.SameNet.refl (w : World) : w.SameNet w where
  conns := rfl
  nconns := rfl
  conn := rfl
  queued := rfl
  operations := rfl
  tick := fun _ _ _ => rfl
  readyRead := rfl
  readyWrite := rfl
  eventsDone := rfl
  readfds := rfl
  writefds := rfl
  todo := rfl
  slot := rfl
  selecting := rfl

theorem World.SameNet.trans {w w' w'' : World} (h : w.SameNet w') (h' : w'.SameNet w'') : w.SameNet w'' where
  conns := h'.conns.trans h.conns
  nconns := h'.nconns.trans h.nconns
  conn := h'.conn.trans h.conn
  queued := h'.queued.trans h.queued
  operations := h'.operations.trans h.operations
  tick := fun t id ht => (h'.tick t id ht).trans (h.tick t id ht)
  readyRead := h'.readyRead.trans h.readyRead
  readyWrite := h'.readyWrite.trans h.readyWrite
  eventsDone := h'.eventsDone.trans h.eventsDone
  readfds := h'.readfds.trans h.readfds
  writefds := h'.writefds.trans h.writefds
  todo := h'.todo.trans h.todo
  slot := h'.slot.trans h.slot
  selecting := h'.selecting.trans h.selecting

/-- What commands and messages do to connections. -/
inductive Exchange : World → World → Prop where
  | same {w w' : World} (h : w.SameNet w') : Exchange w w'
  | write (w : World) (conn : ConnId) (buf : Buffer) (hc : w.server.conn = some conn)
      (hq : w.server.sendQueue.isSome) : Exchange w (Connection.write conn buf true w).2

variable {w w' w'' : World}

theorem exchanges_of_sends (h : IrcServer.Sends w w') : ReflTransGen Exchange w w' := by
  cases h with
  | queued allocs commands queue hq => exact .single (.same { World.SameNet.refl w with queued := hq })
  | drained allocs commands queue hq hs => exact .single (.same { World.SameNet.refl w with queued := hq })
  | written allocs commands queue buf credits conn hq hsome hs hc =>
    have hsame : w.SameNet { w with
        allocs := allocs
        ghost.commands := commands
        server.sendQueue := queue
        server.sendcmd := some buf
        server.sending := true
        server.sendcreditticks := credits } := { World.SameNet.refl w with queued := hq }
    exact .head (.same hsame) (.single (.write _ conn buf hc hsome))

theorem exchanges_of_sendRawCmd {cmd : IrcCommand} {args : Bytes} (hcmd : cmd.str.isSome)
    (h : IrcServer.sendRawCmd cmd (some args) w = .ok w') : ReflTransGen Exchange w w' := by
  obtain ⟨name,hname⟩ := Option.isSome_iff_exists.mp hcmd
  rw [IrcServer.sendRawCmd_eq hname] at h
  exact exchanges_of_sends (IrcServer.sendRaw_sends h)

theorem Effect.exchanges (h : Effect w w') : ReflTransGen Exchange w w' := by
  cases h with
  | tickRegister t ht =>
    refine .single (.same { World.SameNet.refl w with tick := fun h id hh => ?_ })
    exact Event.count_register_ne _ (pending_ne (timer_not_pending ht) hh)
  | tickUnregister t ht =>
    refine .single (.same { World.SameNet.refl w with tick := fun h id hh => ?_ })
    exact Event.count_unregister_ne _ (pending_ne (timer_not_pending ht) hh)
  | send _ cmd args hcmd _ hs => exact exchanges_of_sendRawCmd hcmd hs
  | remove self _ =>
    obtain ⟨_,_,he⟩ := remove_shape (w.chans self).name self w
    rw [he]
    exact .single (.same { World.SameNet.refl w with })
  | _ => exact .single (.same { World.SameNet.refl w with })

theorem exchanges_of_effects (h : ReflTransGen Effect w w') : ReflTransGen Exchange w w' :=
  Effects.invariant (I := ReflTransGen Exchange w) (fun _ _ ht he => ht.trans he.exchanges) .refl h

theorem Change.exchanges (h : Change w w') : ReflTransGen Exchange w w' := by
  cases h with
  | call hd => exact exchanges_of_effects hd.effects
  | send _ command _ hs => exact exchanges_of_sends (IrcServer.sendRaw_sends hs)
  | login name _ =>
    refine .single (.same { World.SameNet.refl w with tick := fun h id hh => ?_ })
    change ((w.service.tick.unregister () .connWaitLogin 0).register () .activeTick 0).count () h id = _
    rw [Event.count_register_ne _ (pending_ne (t := .activeTick) not_false hh),
      Event.count_unregister_ne _ (pending_ne (t := .connWaitLogin) not_false hh)]
  | nick nick => exact .single (.same { World.SameNet.refl w with })
  | addChannel name _ =>
    obtain ⟨_,_,_,_,_,he⟩ := addChannel_shape name w
    rw [he]
    exact .single (.same { World.SameNet.refl w with })

theorem exchanges_of_changes (h : ReflTransGen Change w w') : ReflTransGen Exchange w w' :=
  Effects.invariant (I := ReflTransGen Exchange w) (fun _ _ ht he => ht.trans he.exchanges) .refl h

theorem Received.exchanges (h : Received w w') : ReflTransGen Exchange w w' := by
  cases h with
  | change hc => exact hc.exchanges
  | _ => exact .single (.same { World.SameNet.refl w with })

theorem exchanges_of_received (h : ReflTransGen Received w w') : ReflTransGen Exchange w w' :=
  Effects.invariant (I := ReflTransGen Exchange w) (fun _ _ ht he => ht.trans he.exchanges) .refl h

/-! ## Locks -/

theorem wantreadwrite_losses (self : ConnId) (w : World) : (Connection.wantreadwrite self w).losses = w.losses := by
  have h : (Connection.wantreadwrite self w).ghost.operations = (w.log self .wantreadwrite).ghost.operations := by
    unfold Connection.wantreadwrite
    dsimp only
    split <;> split <;> rfl
  rw [World.losses,h]
  exact losses_log w self .wantreadwrite

theorem wantreadwrite_unlocks (self : ConnId) (w : World) : w.Unlocks (Connection.wantreadwrite self w) :=
  .same (wantreadwrite_outputs self w).locks (wantreadwrite_losses self w)

theorem Exchange.losses (h : Exchange w w') : w'.losses = w.losses := by
  cases h with
  | same h => rw [World.losses,h.operations,World.losses]
  | write conn buf =>
    unfold Connection.write
    split
    · rfl
    · exact (wantreadwrite_losses conn _).trans rfl

theorem losses_of_exchanges (h : ReflTransGen Exchange w w') : w'.losses = w.losses :=
  Effects.invariant (I := fun t => t.losses = w.losses) (fun _ _ ht hs => hs.losses.trans ht) rfl h

/-- What commands and messages do, the locks on the shutdown included. -/
structure Swaps (w w' : World) : Prop where
  exchanges : ReflTransGen Exchange w w'
  locks : w.SameLocks w'

theorem Swaps.refl (w : World) : Swaps w w := ⟨.refl,.refl w⟩

theorem Swaps.trans (h : Swaps w w') (h' : Swaps w' w'') : Swaps w w'' :=
  ⟨h.exchanges.trans h'.exchanges,h.locks.trans h'.locks⟩

theorem Swaps.same (h : w.SameNet w') (hl : w.SameLocks w') : Swaps w w' := ⟨.single (.same h),hl⟩

theorem swaps_of_sendRaw {command : Option Bytes} (h : IrcServer.sendRaw command w = .ok w') : Swaps w w' :=
  ⟨exchanges_of_sends (IrcServer.sendRaw_sends h),(sendRaw_outputs h).locks⟩

theorem swaps_of_sendRawCmd {cmd : IrcCommand} {args : Bytes} (hcmd : cmd.str.isSome)
    (h : IrcServer.sendRawCmd cmd (some args) w = .ok w') : Swaps w w' :=
  ⟨exchanges_of_sendRawCmd hcmd h,(sendRawCmd_outputs hcmd h).locks⟩

theorem swaps_of_mild (h : ReflTransGen Mild w w') : Swaps w w' :=
  ⟨exchanges_of_effects (effects_of_mild h),locks_of_mild h⟩

theorem swaps_of_changes (h : ReflTransGen Change w w') : Swaps w w' := ⟨exchanges_of_changes h,locks_of_changes h⟩

theorem swaps_of_received (h : ReflTransGen Received w w') : Swaps w w' :=
  ⟨exchanges_of_received h,locks_of_received h⟩

/-! ## Moves -/

def Operation.IsCall : Operation → Prop
  | .close | .destroy | .disconnected => False
  | _ => True

/-- Operations that move data over a TLS connection, or hand it on. -/
def Operation.Transfers : Operation → Prop
  | .sslRead | .sslWrite | .dataReceived => True
  | _ => False

def World.Up (w : World) (self : ConnId) : Prop :=
  ∃ e ∈ w.ghost.operations, e.self = self ∧ e.operation = .connected

/-- The connection exists and is not destroyed. -/
structure World.Extant (w : World) (conn : ConnId) : Prop where
  created : conn < w.nconns
  kept : (w.conns conn).deleteScheduled ≠ 2

theorem World.Up.log {w : World} {conn : ConnId} (h : w.Up conn) (self : ConnId) (operation : Operation) :
    (w.log self operation).Up conn := by
  obtain ⟨e,he,hup⟩ := h
  exact ⟨e,List.mem_append_left _ he,hup⟩

theorem World.Extant.log {w : World} {conn : ConnId} (h : w.Extant conn) (self : ConnId) (operation : Operation) :
    (w.log self operation).Extant conn := ⟨h.created,h.kept⟩

/-- What a handler may change of a connection itself. -/
structure Connection.Turned (up sane : Prop) (c c' : Connection) : Prop where
  fd : c'.fd = c.fd
  tls : c'.tls = c.tls
  handling : c'.handling = c.handling
  deleteScheduled : c'.deleteScheduled = c.deleteScheduled
  connecting : c'.connecting = c.connecting ∨ c.connecting ≠ 0
  shaking : c'.tlsConnectSt = c.tlsConnectSt ∨ c'.tlsConnectSt = .none ∨ (sane → c.connecting = 0 ∧ ¬ up)
  transfer : (c'.tlsReadSt = c.tlsReadSt ∧ c'.tlsWriteSt = c.tlsWriteSt ∧ c'.nrecs = c.nrecs) ∨ (sane → c.tls → up)

/-- One move. If `live` holds, operations are made for the server's connection only; if `sane`
holds, those of a TLS connection keep to the order of its handshake. -/
inductive Move (live sane : Prop) : World → World → Prop where
  | exchange {w w' : World} (h : Exchange w w') : Move live sane w w'
  | note (w : World) (self : ConnId) (operation : Operation) (ho : operation.IsCall) (hn : operation ≠ .connected)
      (hl : live → w.server.conn = some self) (hs : operation.Transfers → sane → (w.conns self).tls → w.Up self) :
      Move live sane w (w.log self operation)
  | want (w : World) (self : ConnId) (he : w.Extant self)
      (hl : live → w.server.conn = some self) : Move live sane w (Connection.wantreadwrite self w)
  | forget (w : World) (self : ConnId) (he : w.Extant self) :
      Move live sane w (Service.unregisterWrite (w.conns self).fd w)
  | turn (w : World) (self : ConnId) (f : Connection → Connection)
      (hf : Connection.Turned (w.Up self) sane (w.conns self) (f (w.conns self))) : Move live sane w (w.setConn self f)
  | shake (w : World) (self : ConnId) (he : w.Extant self)
      (hne : (w.conns self).connecting ≠ 0) : Move live sane w
        { ((w.setConn self fun c => { c with connecting := 0 }).setConn self fun c =>
            { c with tlsConnectTicks := CONNTICKS }) with
          service.tick := w.service.tick.register () (.checkPendingTls self) 0 }
  | calm (w : World) (t : TickHandler) (ht : t.IsPending) :
      Move live sane w { w with service.tick := w.service.tick.unregister () t 0 }
  | late (w : World) (self : ConnId) (he : w.Extant self) (hc : w.server.conn ≠ some self) (hl : ¬ live)
      (hst : sane → (w.conns self).connecting = 0 ∧ (w.conns self).tlsConnectSt = .none) :
      Move live sane w (w.log self .connected)
  | establish (w : World) (self : ConnId) (hc : w.server.conn = some self)
      (hst : sane → (w.conns self).connecting = 0 ∧ (w.conns self).tlsConnectSt = .none) :
      Move live sane w (IrcServer.connConnected self (w.log self .connected))
  | close (w t : World) (self : ConnId) (established : Bool) (hc : w.server.conn = some self)
      (h : IrcServer.raiseDisconnected (IrcServer.hangUp established (w.log self .disconnected)) = .ok t) :
      Move live sane w (Connection.deleteLater self (IrcServer.awaitReconn t))
  | later (w : World) (self : ConnId) (hself : self < w.nconns) (hc : w.server.conn ≠ some self) :
      Move live sane w (Connection.deleteLater self w)
  | connect (w : World) (env : Env) (hc : w.server.conn = none) : Move live sane w (IrcServer.connect env w).2

/-- Of a TLS connection only the handshake has begun until it raises `connected`. -/
structure Staged (w : World) : Prop where
  up : ∀ self, w.Up self → (w.conns self).connecting = 0 ∧ (w.conns self).tlsConnectSt = .none
  down : ∀ self, self < w.nconns → (w.conns self).tls → ¬ w.Up self →
    (w.conns self).tlsReadSt = .none ∧ (w.conns self).tlsWriteSt = .none ∧ (w.conns self).nrecs = 0
  connecting : ∀ self, self < w.nconns → (w.conns self).connecting ≠ 0 → (w.conns self).tlsConnectSt = .none
  established : ∀ self, w.server.conn = some self → w.server.sendQueue.isSome → w.Up self
  created : ∀ self, w.Up self → self < w.nconns
  idle : w.server.conn = none → w.server.sendQueue.isSome = false

variable {live sane : Prop}

abbrev Moves (live sane : Prop) (w : World) (r : Run) : Prop := Traced (Move live sane) (fun _ _ => True) w id r

theorem moves_of_exchanges (h : ReflTransGen Exchange w w') : ReflTransGen (Move live sane) w w' :=
  ReflTransGen.mono (fun _ _ h => .exchange h) _ _ h

/-! ### Moves and the locks -/

/-- Moves, with what becomes of the locks on the shutdown. -/
structure Stir (live sane : Prop) (w w' : World) : Prop where
  moves : ReflTransGen (Move live sane) w w'
  unlocks : w.Unlocks w'

namespace Stir

theorem refl (w : World) : Stir live sane w w := ⟨.refl,.refl w⟩

theorem trans (h : Stir live sane w w') (h' : Stir live sane w' w'') : Stir live sane w w'' :=
  ⟨h.moves.trans h'.moves,h.unlocks.trans h'.unlocks⟩

theorem of_steps (h : ReflTransGen (Stir live sane) w w') : Stir live sane w w' :=
  Effects.invariant (I := Stir live sane w) (fun _ _ ht hs => ht.trans hs) (.refl w) h

/-- A move that notes nothing and leaves the locks alone. -/
theorem quiet (h : Move live sane w w') (hl : w.SameLocks w') (hn : w'.losses = w.losses) : Stir live sane w w' :=
  ⟨.single h,.same hl hn⟩

theorem swaps (h : Swaps w w') : Stir live sane w w' :=
  ⟨moves_of_exchanges h.exchanges,.same h.locks (losses_of_exchanges h.exchanges)⟩

theorem note (w : World) (self : ConnId) (operation : Operation) (ho : operation.IsCall) (hn : operation ≠ .connected)
    (hl : live → w.server.conn = some self) (hs : operation.Transfers → sane → (w.conns self).tls → w.Up self) :
    Stir live sane w (w.log self operation) := by
  refine .quiet (.note w self operation ho hn hl hs) ⟨rfl,rfl⟩ ((losses_log w self operation).trans ?_)
  rw [if_neg (by rintro rfl; exact ho),Nat.add_zero]

theorem want (w : World) (self : ConnId) (he : w.Extant self) (hl : live → w.server.conn = some self) :
    Stir live sane w (Connection.wantreadwrite self w) := ⟨.single (.want w self he hl),wantreadwrite_unlocks self w⟩

theorem forget (w : World) (self : ConnId) (he : w.Extant self) :
    Stir live sane w (Service.unregisterWrite (w.conns self).fd w) := .quiet (.forget w self he) ⟨rfl,rfl⟩ rfl

theorem turn (w : World) (self : ConnId) (f : Connection → Connection)
    (hf : Connection.Turned (w.Up self) sane (w.conns self) (f (w.conns self))) :
    Stir live sane w (w.setConn self f) := .quiet (.turn w self f hf) ⟨rfl,rfl⟩ rfl

theorem shake (w : World) (self : ConnId) (he : w.Extant self) (hne : (w.conns self).connecting ≠ 0) :
    Stir live sane w { ((w.setConn self fun c => { c with connecting := 0 }).setConn self fun c =>
      { c with tlsConnectTicks := CONNTICKS }) with
      service.tick := w.service.tick.register () (.checkPendingTls self) 0 } :=
  .quiet (.shake w self he hne) ⟨rfl,rfl⟩ rfl

theorem calm (w : World) (t : TickHandler) (ht : t.IsPending) :
    Stir live sane w { w with service.tick := w.service.tick.unregister () t 0 } :=
  .quiet (.calm w t ht) ⟨rfl,rfl⟩ rfl

theorem late (w : World) (self : ConnId) (he : w.Extant self) (hc : w.server.conn ≠ some self) (hl : ¬ live)
    (hst : sane → (w.conns self).connecting = 0 ∧ (w.conns self).tlsConnectSt = .none) :
    Stir live sane w (w.log self .connected) :=
  .quiet (.late w self he hc hl hst) ⟨rfl,rfl⟩ (losses_log w self .connected)

theorem establish (w : World) (self : ConnId) (hc : w.server.conn = some self)
    (hst : sane → (w.conns self).connecting = 0 ∧ (w.conns self).tlsConnectSt = .none) :
    Stir live sane w (IrcServer.connConnected self (w.log self .connected)) := by
  have hlog : (w.log self .connected).server.conn = some self := hc
  refine .quiet (.establish w self hc hst) ?_ ?_ <;> rw [IrcServer.connConnected,if_pos hlog]
  · exact ⟨rfl,rfl⟩
  · exact losses_log w self .connected

theorem later (w : World) (self : ConnId) (hself : self < w.nconns) (hc : w.server.conn ≠ some self) :
    Stir live sane w (Connection.deleteLater self w) := by
  refine .quiet (.later w self hself hc) ?_ ?_ <;> unfold Connection.deleteLater <;> split
  · exact ⟨rfl,rfl⟩
  · exact .refl w
  · exact losses_log w self .close
  · rfl

theorem connect (w : World) (env : Env) (hc : w.server.conn = none) : Stir live sane w (IrcServer.connect env w).2 := by
  refine .quiet (.connect w env hc) ?_ ?_ <;> rcases connect_shape env hc with he | ⟨_,_,_,_,he⟩ <;> rw [he]
  · exact .refl w
  · exact ⟨rfl,rfl⟩
  · rfl

/-- The server loses its connection, and gives its locks back. -/
theorem close (w t : World) (self : ConnId) (established : Bool) (hc : w.server.conn = some self)
    (h : IrcServer.raiseDisconnected (IrcServer.hangUp established (w.log self .disconnected)) = .ok t) :
    Stir live sane w (Connection.deleteLater self (IrcServer.awaitReconn t)) := by
  have hops : t.losses = w.losses + 1 :=
    (losses_of_exchanges (exchanges_of_effects (hangUp_effects h))).trans (losses_log w self .disconnected)
  obtain ⟨hlocks,hle,hpos⟩ := raiseDisconnected_returns h
  have hlater : (Connection.deleteLater self (IrcServer.awaitReconn t)).losses = t.losses := by
    unfold Connection.deleteLater
    split
    · exact losses_log _ self .close
    · rfl
  have hsame : (IrcServer.awaitReconn t).SameLocks (Connection.deleteLater self (IrcServer.awaitReconn t)) := by
    unfold Connection.deleteLater
    split
    · exact ⟨rfl,rfl⟩
    · exact .refl _
  refine ⟨.single (.close w t self established hc h),.lost (by omega) (hsame.locks.trans hlocks) ?_ ?_⟩
  · rw [hsame.shutdownRef]
    exact hle
  · rw [hsame.shutdownRef]
    exact hpos

end Stir

/-- A computation that makes moves only, with what becomes of the locks. -/
abbrev Stirs (live sane : Prop) (w : World) (r : Run) : Prop := Traced (Stir live sane) (fun _ _ => True) w id r

theorem stirs_of_same (h : w.SameNet w') (hl : w.SameLocks w') : ReflTransGen (Stir live sane) w w' :=
  .single (.swaps (.same h hl))

theorem Stirs.ofOk {r : Run} (h : ∀ w', r = .ok w' → Stir live sane w w') : Stirs live sane w r := by
  cases r with
  | ok w' => exact .pure (.single (h w' rfl))
  | error e => exact .fault trivial

theorem Stirs.result {r : Run} (h : Stirs live sane w r) (hr : r = .ok w') : Stir live sane w w' := by
  rw [hr] at h
  exact .of_steps h

theorem Stirs.moves {r : Run} (h : Stirs live sane w r) : Moves live sane w r := by
  cases r with
  | ok w' => exact (Stir.of_steps h).moves
  | error e => exact .fault trivial

/-! ### What commands and messages leave alone -/

theorem Exchange.written (h : Exchange w w') (self : ConnId) : (w.conns self).Written (w'.conns self) := by
  cases h with
  | same h =>
    rw [h.conns]
    exact .refl _
  | write conn buf => exact (write_outputs conn buf true w).written self

theorem Exchange.conn (h : Exchange w w') : w'.server.conn = w.server.conn := by
  cases h with
  | same h => exact h.conn
  | write conn buf => exact (write_outputs conn buf true w).conn

theorem Exchange.nconns (h : Exchange w w') : w'.nconns = w.nconns := by
  cases h with
  | same h => exact h.nconns
  | write conn buf => exact (write_outputs conn buf true w).same.nconns

theorem World.Extant.of_eq {self : ConnId} (h : w.Extant self) (hn : w'.nconns = w.nconns)
    (hd : (w'.conns self).deleteScheduled = (w.conns self).deleteScheduled) : w'.Extant self :=
  ⟨hn ▸ h.created,hd ▸ h.kept⟩

theorem Exchange.extant {self : ConnId} (h : Exchange w w') (he : w.Extant self) : w'.Extant self := by
  refine he.of_eq h.nconns ?_
  obtain ⟨_,_,hc⟩ := (h.written self).shape
  rw [hc]

theorem extant_of_exchanges {self : ConnId} (h : ReflTransGen Exchange w w') (he : w.Extant self) : w'.Extant self :=
  Effects.invariant (I := fun t => t.Extant self) (fun _ _ ht hs => hs.extant ht) he h

theorem nconns_of_exchanges (h : ReflTransGen Exchange w w') : w'.nconns = w.nconns :=
  Effects.invariant (I := fun t => t.nconns = w.nconns) (fun _ _ ht hs => hs.nconns.trans ht) rfl h

theorem conn_of_exchanges (h : ReflTransGen Exchange w w') : w'.server.conn = w.server.conn :=
  Effects.invariant (I := fun t => t.server.conn = w.server.conn) (fun _ _ ht hs => hs.conn.trans ht) rfl h

theorem World.Extant.setConn {self : ConnId} (h : w.Extant self) {f : Connection → Connection}
    (hf : (f (w.conns self)).deleteScheduled = (w.conns self).deleteScheduled) : (w.setConn self f).Extant self := by
  refine h.of_eq rfl ?_
  rw [setConn_conns,if_pos rfl,hf]

/-! ### Handlers of a connection -/

namespace Connection
variable {self : ConnId}

theorem swap_raise {η : Type} {event : World → Listeners η} {call : η → World → Run} {i : ℤ}
    (hcall : ∀ h t, Meets (Swaps t) (fun _ => True) (call h t)) (w : World) :
    Meets (Swaps w) (fun _ => True) (w.raise event call i) :=
  raise_invariant (fun h t ht => Meets.mono (hcall h t) (fun _ hu => ht.trans hu) fun _ he => he) (.refl w)

theorem confirm_swaps (self : ConnId) (id : Bool) (w : World) :
    Meets (Swaps w) (fun _ => True) (confirm self id w) := by
  unfold confirm
  split
  · refine swap_raise (fun _ t => ?_) w
    unfold IrcServer.connDataSent
    split
    · have hsame : t.SameNet { t with server.sendcmd := none, server.sending := false } :=
        { World.SameNet.refl t with }
      cases hs : IrcServer.sendRaw none { t with server.sendcmd := none, server.sending := false } with
      | ok u => exact (Swaps.same hsame ⟨rfl,rfl⟩).trans (swaps_of_sendRaw hs)
      | error e => trivial
    · exact .refl t
  · exact .refl w

theorem confirm_exchanges (self : ConnId) (id : Bool) (w : World) :
    Meets (ReflTransGen Exchange w) (fun _ => True) (confirm self id w) :=
  Meets.mono (confirm_swaps self id w) (fun _ ht => ht.exchanges) fun _ he => he

theorem close_stirs (h : Inv w) (hself : self < w.nconns) : Stirs live sane w (close self w) := by
  unfold close
  by_cases hc : w.server.conn = some self
  · rw [raiseClosed_own h.toLinked hc]
    have hspec := connClosed_spec hc (decide ((w.conns self).connecting = 0))
    cases hr : IrcServer.connClosed self ((w.conns self).connecting = 0) w with
    | ok u =>
      rw [hr] at hspec
      obtain ⟨t,ht,rfl⟩ := hspec
      exact .pure (.single (.close w t self _ hc ht))
    | error e => exact .fault trivial
  · rw [raiseClosed_other hc]
    exact .pure (.single (.later w self hself hc))

theorem raiseConnected_stirs (h : Inv w) (he : w.Extant self) (hl : live → w.server.conn = some self)
    (hst : sane → (w.conns self).connecting = 0 ∧ (w.conns self).tlsConnectSt = .none) :
    Meets (fun t => ReflTransGen (Stir live sane) w t ∧ t.server.conn = w.server.conn ∧ t.Extant self)
      (fun _ => True) (raiseConnected self w) := by
  by_cases hc : w.server.conn = some self
  · have hlog : (w.log self .connected).server.conn = some self := hc
    rw [raiseConnected_own h.toLinked hc]
    refine ⟨.single (.establish w self hc hst),?_,?_⟩
    · rw [IrcServer.connConnected,if_pos hlog]
      rfl
    · refine he.of_eq ?_ ?_ <;> rw [IrcServer.connConnected,if_pos hlog]
      · rfl
      · change (Function.update w.conns self _ self).deleteScheduled = _
        rw [Function.update_self]
        rfl
  · rw [raiseConnected_other hc]
    exact ⟨.single (.late w self he hc (fun hlive => hc (hl hlive)) hst),rfl,he.log self _⟩

theorem raiseDataReceived_stirs (h : Inv w) (env : Env) (self : ConnId) {data : Bytes}
    (hlen : data.length ≤ CONNBUFSZ) (hl : live → w.server.conn = some self)
    (hs : sane → (w.conns self).tls → w.Up self) :
    Meets (fun t => ReflTransGen (Stir live sane) w t ∧ ReflTransGen Exchange (w.log self .dataReceived) t)
      (fun _ => True) (raiseDataReceived env self data w) := by
  have hnote : Stir live sane w (w.log self .dataReceived) := .note w self _ trivial nofun hl fun _ => hs
  refine Meets.mono (raiseDataReceived_spec h env self hlen) (fun t ht => ?_) (fun _ _ => trivial)
  have hex : Swaps (w.log self .dataReceived) t := by
    rcases ht with rfl | ⟨_,ht⟩
    · exact .refl _
    · exact swaps_of_received ht.steps
  exact ⟨.head hnote (.single (.swaps hex)),hex.exchanges⟩

theorem sent_stirs (n : ℕ) (he : w.Extant self) (hl : live → w.server.conn = some self)
    (hs : sane → (w.conns self).tls → w.Up self) : Stirs live sane w (sent self n w) := by
  unfold sent
  dsimp only
  split
  · have hturn : ∀ record : WriteRecord, Stir live sane w (w.setConn self fun c =>
        { c with writerecs := Function.update c.writerecs c.baserecidx record }) :=
      fun record => .turn w self _ ⟨rfl,rfl,rfl,rfl,Or.inl rfl,Or.inl rfl,Or.inl ⟨rfl,rfl,rfl⟩⟩
    split
    · exact .pure (.head (hturn _) (.single (.want _ self (he.setConn rfl) hl)))
    · exact .pure (.single (hturn _))
  · have hdrop : Stir live sane w (w.setConn self dropRecord) :=
      .turn w self _ ⟨rfl,rfl,rfl,rfl,Or.inl rfl,Or.inl rfl,Or.inr hs⟩
    have hext : (w.setConn self dropRecord).Extant self := he.setConn rfl
    refine .step hdrop ?_
    split
    · -- The event comes first: what it sends may leave the interest as it is.
      refine Meets.bind (Meets.mono (confirm_swaps self _ _) (fun _ ht => ht)
        fun e _ => ⟨_,.refl,trivial⟩) (fun t ht => ?_)
      have hl' : live → t.server.conn = some self := fun hlive => (conn_of_exchanges ht.exchanges).trans (hl hlive)
      exact .tail (.single (.swaps ht)) (.want t self (extant_of_exchanges ht.exchanges hext) hl')
    · refine .step (.want _ self hext hl) ?_
      exact Meets.mono (confirm_swaps self _ _) (fun _ ht => .single (.swaps ht)) fun e _ => ⟨_,.refl,trivial⟩

theorem dowrite_stirs (h : Inv w) (env : Env) (he : w.Extant self) (hl : live → w.server.conn = some self)
    (hs : sane → (w.conns self).tls → w.Up self) : Stirs live sane w (dowrite env self w) := by
  unfold dowrite
  split
  · have hnote : Stir live sane w (w.log self .sslWrite) := .note w self _ trivial nofun hl fun _ => hs
    refine .step hnote ?_
    have hlog := h.action (log_acts self .sslWrite w)
    have hup : sane → ((w.log self .sslWrite).conns self).tls → (w.log self .sslWrite).Up self :=
      fun hsane htls => World.Up.log (hs hsane htls) self _
    have hturn : ∀ st, Stir live sane (w.log self .sslWrite)
        ((w.log self .sslWrite).setConn self fun c => { c with tlsWriteSt := st }) :=
      fun st => .turn _ self _ ⟨rfl,rfl,rfl,rfl,Or.inl rfl,Or.inl rfl,Or.inr hup⟩
    have hext : ∀ st, ((w.log self .sslWrite).setConn self fun c => { c with tlsWriteSt := st }).Extant self :=
      fun st => (he.log self _).setConn rfl
    dsimp only
    split
    · next n _ =>
      refine .step (hturn .none) (sent_stirs n (hext _) hl (fun hsane htls => ?_))
      rw [setConn_conns,if_pos rfl] at htls
      exact hup hsane htls
    · exact close_stirs hlog he.created
    · exact close_stirs hlog he.created
    · exact .pure (.head (hturn _) (.single (.want _ self (hext _) hl)))
  · next hplain =>
    have hnote : Stir live sane w (w.log self .write) := .note w self _ trivial nofun hl nofun
    refine .step hnote ?_
    have hlog := h.action (log_acts self .write w)
    dsimp only
    split
    · next n _ => exact sent_stirs n (he.log self _) hl (fun _ htls => absurd htls hplain)
    · exact .pure .refl
    · exact close_stirs hlog he.created

theorem doread_stirs (h : Inv w) (env : Env) (he : w.Extant self) (hl : live → w.server.conn = some self)
    (hs : sane → (w.conns self).tls → w.Up self) : Stirs live sane w (doread env self w) := by
  -- Behind the event the connection is looked at again.
  have hdata : ∀ (v : World) (chunk : Chunk), Inv v → v.Extant self → (live → v.server.conn = some self) →
      (sane → (v.conns self).tls → v.Up self) → Stirs live sane v
        (raiseDataReceived env self chunk.bytes v >>= fun t => pure (wantreadwrite self t)) := by
    intro v chunk hv hext hlive hup
    refine Meets.bind (Meets.mono (raiseDataReceived_stirs hv env self chunk.fits hlive hup) (fun _ ht => ht)
      fun e _ => ⟨_,.refl,trivial⟩) ?_
    rintro t ⟨ht,hex⟩
    refine ht.tail (.want t self (extant_of_exchanges hex (hext.log self _)) fun hl' => ?_)
    exact (conn_of_exchanges hex).trans (hlive hl')
  unfold doread
  split
  · have hnote : Stir live sane w (w.log self .sslRead) := .note w self _ trivial nofun hl fun _ => hs
    refine .step hnote ?_
    have hlog := h.action (log_acts self .sslRead w)
    have hup : sane → ((w.log self .sslRead).conns self).tls → (w.log self .sslRead).Up self :=
      fun hsane htls => World.Up.log (hs hsane htls) self _
    have hturn : ∀ st, Stir live sane (w.log self .sslRead)
        ((w.log self .sslRead).setConn self fun c => { c with tlsReadSt := st }) :=
      fun st => .turn _ self _ ⟨rfl,rfl,rfl,rfl,Or.inl rfl,Or.inl rfl,Or.inr hup⟩
    have hact : ∀ st, Action (w.log self .sslRead)
        ((w.log self .sslRead).setConn self fun c => { c with tlsReadSt := st }) :=
      fun st => field_acts (fun _ => ⟨rfl,rfl,rfl,rfl,rfl,rfl,rfl,rfl,rfl,rfl,rfl⟩)
    have hext : ∀ st, ((w.log self .sslRead).setConn self fun c => { c with tlsReadSt := st }).Extant self :=
      fun st => (he.log self _).setConn rfl
    dsimp only
    split
    · next chunk _ =>
      refine .step (hturn .none) (hdata _ chunk (hlog.action (hact .none)) (hext _) hl (fun hsane htls => ?_))
      rw [setConn_conns,if_pos rfl] at htls
      exact hup hsane htls
    · exact close_stirs hlog he.created
    · exact close_stirs hlog he.created
    · exact .pure (.head (hturn _) (.single (.want _ self (hext _) hl)))
  · next hplain =>
    have hnote : Stir live sane w (w.log self .read) := .note w self _ trivial nofun hl nofun
    refine .step hnote ?_
    have hlog := h.action (log_acts self .read w)
    dsimp only
    split
    · next chunk _ => exact hdata _ chunk hlog (he.log self _) hl (fun _ htls => absurd htls hplain)
    · exact .pure .refl
    · exact close_stirs hlog he.created

theorem dohandshake_stirs (h : Inv w) (env : Env) (he : w.Extant self) (hl : live → w.server.conn = some self)
    (hst : w.server.conn = some self → w.server.sendQueue = none ∧ (w.conns self).connecting = 0)
    (hs : sane → (w.conns self).connecting = 0 ∧ ¬ w.Up self) : Stirs live sane w (dohandshake env self w) := by
  have hnote : Stir live sane w (w.log self .sslConnect) := .note w self _ trivial nofun hl nofun
  refine .step hnote ?_
  have hlog := h.action (log_acts self .sslConnect w)
  have hext := he.log self .sslConnect
  have hup : sane → ((w.log self .sslConnect).conns self).connecting = 0 ∧ ¬ (w.log self .sslConnect).Up self := by
    refine fun hsane => ⟨(hs hsane).1,fun ⟨e,hmem,hself,hop⟩ => ?_⟩
    rcases List.mem_append.mp hmem with hmem | hmem
    · exact (hs hsane).2 ⟨e,hmem,hself,hop⟩
    · rw [List.mem_singleton.mp hmem] at hop
      cases hop
  replace hl : live → (w.log self .sslConnect).server.conn = some self := hl
  replace hst : (w.log self .sslConnect).server.conn = some self →
      (w.log self .sslConnect).server.sendQueue = none ∧ ((w.log self .sslConnect).conns self).connecting = 0 := hst
  unfold dohandshake
  dsimp only
  generalize w.log self .sslConnect = v at hlog hext hup hl hst
  have hturn : ∀ st, Stir live sane v (v.setConn self fun c => { c with tlsConnectSt := st }) :=
    fun st => .turn v self _ ⟨rfl,rfl,rfl,rfl,Or.inl rfl,Or.inr (Or.inr hup),Or.inl ⟨rfl,rfl,rfl⟩⟩
  have hclose : Stirs live sane v
      (close self { v with service.tick := v.service.tick.unregister () (.checkPendingTls self) 0 }) :=
    .step (.calm v (.checkPendingTls self) trivial)
      (close_stirs (hlog.action (.tickUnregister v (.checkPendingTls self) not_false)) hext.created)
  split
  · -- The handshake is complete: the timer goes, and the server learns of it.
    have hact : Action v (v.setConn self fun c => { c with tlsConnectSt := .none }) := by
      refine setConn_acts (fun hc => ?_) (fun hn => hn)
      obtain ⟨hq,hcon⟩ := hst hc
      exact ⟨rfl,rfl,rfl,rfl,rfl,rfl,rfl,rfl,rfl,Or.inl,Or.inr ⟨by rw [hq]; rfl,fun hne => absurd hcon hne⟩⟩
    have h2 := Action.tickUnregister (v.setConn self fun c => { c with tlsConnectSt := .none })
      (.checkPendingTls self) not_false
    have h3 : ∀ u : World, Action u (u.setConn self fun c => { c with tlsConnectTicks := 0 }) :=
      fun u => field_acts (fun _ => ⟨rfl,rfl,rfl,rfl,rfl,rfl,rfl,rfl,rfl,rfl,rfl⟩)
    have hticks : ∀ u : World, Stir live sane u (u.setConn self fun c => { c with tlsConnectTicks := 0 }) :=
      fun u => .turn u self _ ⟨rfl,rfl,rfl,rfl,Or.inl rfl,Or.inl rfl,Or.inl ⟨rfl,rfl,rfl⟩⟩
    refine .step (hturn .none) (.step (.calm _ (.checkPendingTls self) trivial) (.step (hticks _) ?_))
    have hinv := ((hlog.action hact).action h2).action (h3 _)
    generalize hu : World.setConn _ self (fun c => { c with tlsConnectTicks := 0 }) = u at hinv ⊢
    have hu1 : u.server = v.server ∧ u.nconns = v.nconns := by rw [← hu]; exact ⟨rfl,rfl⟩
    have hu2 : u.conns self = { v.conns self with tlsConnectSt := .none, tlsConnectTicks := 0 } := by
      rw [← hu]
      simp [World.setConn]
    have hlu : live → u.server.conn = some self := fun hlive => hu1.1 ▸ hl hlive
    have hst' : sane → (u.conns self).connecting = 0 ∧ (u.conns self).tlsConnectSt = .none := by
      intro hsane
      rw [hu2]
      exact ⟨(hup hsane).1,rfl⟩
    have hext' : u.Extant self := hext.of_eq hu1.2 (by rw [hu2])
    refine Meets.bind (Meets.mono (raiseConnected_stirs hinv hext' hlu hst') (fun _ ht => ht) fun e _ => ⟨_,.refl,trivial⟩) ?_
    rintro t ⟨ht,hc,het⟩
    exact ht.tail (.want t self het fun hlive => hc.trans (hlu hlive))
  · exact hclose
  · exact hclose
  · exact .pure (.head (hturn _) (.single (.want _ self (hext.setConn rfl) hl)))

theorem shake_stirs (h : Inv w) (env : Env) (he : w.Extant self) (hl : live → w.server.conn = some self)
    (hne : (w.conns self).connecting ≠ 0) (hs : sane → ¬ w.Up self) : Stirs live sane w
      (let w := w.setConn self fun c => { c with connecting := 0 }
      let w := w.setConn self fun c => { c with tlsConnectTicks := CONNTICKS }
      dohandshake env self { w with service.tick := w.service.tick.register () (.checkPendingTls self) 0 }) := by
  have h1 := initiate_acts h hne
  have h2 : Action (w.setConn self fun c => { c with connecting := 0 })
      ((w.setConn self fun c => { c with connecting := 0 }).setConn self fun c =>
        { c with tlsConnectTicks := CONNTICKS }) :=
    field_acts (fun _ => ⟨rfl,rfl,rfl,rfl,rfl,rfl,rfl,rfl,rfl,rfl,rfl⟩)
  have h3 := Action.tickRegister ((w.setConn self fun c => { c with connecting := 0 }).setConn self fun c =>
    { c with tlsConnectTicks := CONNTICKS }) (.checkPendingTls self) ⟨nofun,nofun⟩ not_false he.created
  have hq : w.server.conn = some self → w.server.sendQueue = none := fun hc => not_queued h hc (Or.inl hne)
  refine .step (.shake w self he hne) (dohandshake_stirs (((h.action h1).action h2).action h3) env ?_ hl ?_ ?_)
  · exact he.of_eq rfl (by simp [World.setConn])
  · exact fun hc => ⟨hq hc,by simp [World.setConn]⟩
  · exact fun hsane => ⟨by simp [World.setConn],hs hsane⟩

/-- The socket is connected, or has failed to. -/
theorem connecting_stirs (h : Inv w) (env : Env) (he : w.Extant self) (hl : live → w.server.conn = some self)
    (hne : (w.conns self).connecting ≠ 0) (hs : sane → (w.conns self).tlsConnectSt = .none ∧ ¬ w.Up self)
    (tls : Bool) : Stirs live sane w
      (if env.sockErr then close self w
      else
        let w := w.setConn self fun c => { c with connecting := 0 }
        if tls then
          let w := w.setConn self fun c => { c with tlsConnectTicks := CONNTICKS }
          dohandshake env self { w with service.tick := w.service.tick.register () (.checkPendingTls self) 0 }
        else raiseConnected self (wantreadwrite self w)) := by
  split
  · exact close_stirs h he.created
  · dsimp only
    split
    · exact shake_stirs h env he hl hne fun hsane => (hs hsane).2
    · have hturn : Stir live sane w (w.setConn self fun c => { c with connecting := 0 }) :=
        .turn w self _ ⟨rfl,rfl,rfl,rfl,Or.inr hne,Or.inl rfl,Or.inl ⟨rfl,rfl,rfl⟩⟩
      refine .step hturn (.step (.want _ self (he.setConn rfl) hl) ?_)
      have hinv := (h.action (initiate_acts h hne)).actions (wantreadwrite_acts self _)
      obtain ⟨ops,r,wr,hw⟩ := wantreadwrite_shape self (w.setConn self fun c => { c with connecting := 0 })
      rw [hw] at hinv ⊢
      have hext : (w.setConn self fun c => { c with connecting := 0 }).Extant self := he.setConn rfl
      refine Meets.mono (raiseConnected_stirs hinv ⟨hext.created,hext.kept⟩ hl fun hsane => ?_) (fun _ ht => ht.1)
        fun e _ => ⟨_,.refl,trivial⟩
      simpa [World.setConn] using (hs hsane).1

theorem writeConnection_stirs (h : Inv w) (env : Env) (he : w.Extant self) (hl : live → w.server.conn = some self)
    (hs : sane → Staged w) : Stirs live sane w (writeConnection env self w) := by
  -- A connection that is used for data is established.
  have hup : ∀ {p : Prop}, ((w.conns self).tlsReadSt = .none ∧ (w.conns self).tlsWriteSt = .none ∧
      (w.conns self).nrecs = 0 → ¬ p) → p → sane → (w.conns self).tls → w.Up self := by
    intro p hp hpos hsane htls
    by_contra hdown
    exact hp ((hs hsane).down self he.created htls hdown) hpos
  unfold writeConnection
  dsimp only
  split
  · next hne =>
    have h1 := Action.tickUnregister w (.checkPendingConnection self) not_false
    have h2 := log_acts self .getsockopt
      { w with service.tick := w.service.tick.unregister () (.checkPendingConnection self) 0 }
    have hnote : Stir live sane { w with service.tick := w.service.tick.unregister () (.checkPendingConnection self) 0 }
        (World.log { w with service.tick := w.service.tick.unregister () (.checkPendingConnection self) 0 }
          self .getsockopt) := .note _ self _ trivial nofun hl nofun
    refine .step (.calm w (.checkPendingConnection self) trivial) (.step hnote ?_)
    refine connecting_stirs ((h.action h1).action h2) env ⟨he.created,he.kept⟩ hl hne (fun hsane => ⟨?_,?_⟩) _
    · exact (hs hsane).connecting self he.created hne
    · rintro ⟨e,hmem,hself,hop⟩
      rcases List.mem_append.mp hmem with hmem | hmem
      · exact hne ((hs hsane).up self ⟨e,hmem,hself,hop⟩).1
      · rw [List.mem_singleton.mp hmem] at hop
        cases hop
  · next heq =>
    have heq : (w.conns self).connecting = 0 := not_not.mp heq
    split
    · next hst =>
      have hne : (w.conns self).tlsConnectSt ≠ .none := by
        rw [hst]
        exact nofun
      refine dohandshake_stirs h env he hl (fun hc => ⟨not_queued h hc (Or.inr hne),heq⟩) fun hsane => ⟨heq,?_⟩
      exact fun hu => hne ((hs hsane).up self hu).2
    · split
      · next hr => exact doread_stirs h env he hl (hup (fun hd hr => by rw [hd.1] at hr; cases hr) hr)
      · split
        · next hw => exact dowrite_stirs h env he hl (hup (fun hd hw => by rw [hd.2.1] at hw; cases hw) hw)
        · split
          · exact .pure (.single (.want w self he hl))
          · next hn => exact dowrite_stirs h env he hl (hup (fun hd hn => hn hd.2.2) hn)

theorem readConnection_stirs (h : Inv w) (env : Env) (he : w.Extant self) (hl : live → w.server.conn = some self)
    (hs : sane → Staged w) (hr : sane → (w.conns self).tls → w.Up self ∨ (w.conns self).tlsConnectSt = .wantRead) :
    Stirs live sane w (readConnection env self w) := by
  unfold readConnection
  dsimp only
  split
  · next hst =>
    have hne : (w.conns self).tlsConnectSt ≠ .none := by
      rw [hst]
      exact nofun
    refine dohandshake_stirs h env he hl (fun hc => ⟨not_queued h hc (Or.inr hne),?_⟩) fun hsane => ⟨?_,?_⟩
    · by_contra hcon
      exact hne ((h.attached self hc).connecting hcon)
    · by_contra hcon
      exact hne ((hs hsane).connecting self he.created hcon)
    · exact fun hu => hne ((hs hsane).up self hu).2
  · next hst =>
    have hup : sane → (w.conns self).tls → w.Up self := fun hsane htls => (hr hsane htls).resolve_right hst
    split
    · exact doread_stirs h env he hl hup
    · split
      · exact dowrite_stirs h env he hl hup
      · split
        · exact .pure .refl
        · exact doread_stirs h env he hl hup

theorem checkPendingConnection_stirs (h : Inv w) (he : w.Extant self) :
    Stirs live sane w (checkPendingConnection self w) := by
  unfold checkPendingConnection
  split
  · next hne =>
    have ht := countdown_acts h hne
    have hturn : Stir live sane w (w.setConn self fun c => { c with connecting := c.connecting - 1 }) :=
      .turn w self _ ⟨rfl,rfl,rfl,rfl,Or.inr hne,Or.inl rfl,Or.inl ⟨rfl,rfl,rfl⟩⟩
    refine .step hturn ?_
    dsimp only
    split
    · refine .step (.forget _ self (he.setConn rfl)) (close_stirs ((h.action ht).action ?_) he.created)
      exact unregisterWrite_acts _ _
    · exact .pure .refl
  · exact .pure .refl

theorem checkPendingTls_stirs (h : Inv w) (he : w.Extant self) : Stirs live sane w (checkPendingTls self w) := by
  unfold checkPendingTls
  split
  · have hturn : Stir live sane w (w.setConn self fun c => { c with tlsConnectTicks := c.tlsConnectTicks - 1 }) :=
      .turn w self _ ⟨rfl,rfl,rfl,rfl,Or.inl rfl,Or.inl rfl,Or.inl ⟨rfl,rfl,rfl⟩⟩
    refine .step hturn ?_
    dsimp only
    split
    · exact close_stirs (h.action (tlsCountdown_acts self w)) he.created
    · exact .pure .refl
  · exact .pure .refl

end Connection

/-! ### Handlers of the server -/

namespace IrcServer

theorem same_tickUnregister (w : World) (t : TickHandler) (ht : ¬ t.IsPending) :
    w.SameNet { w with service.tick := w.service.tick.unregister () t 0 } :=
  { World.SameNet.refl w with tick := fun _ _ hh => Event.count_unregister_ne _ (pending_ne ht hh) }

theorem closeConn_stirs (h : Inv w) : Stirs live sane w (closeConn w) := by
  unfold closeConn
  split
  · next conn hc => exact Connection.close_stirs h (h.created conn hc)
  · exact .fault trivial

theorem connect_stirs (env : Env) (w : World) : ReflTransGen (Stir live sane) w (connect env w).2 := by
  by_cases hc : w.server.conn = none
  · exact .single (.connect w env hc)
  · rw [connect,if_pos (Option.isSome_iff_ne_none.mpr hc)]

theorem connWaitReconn_stirs (env : Env) (w : World) : ReflTransGen (Stir live sane) w (connWaitReconn env w) := by
  have hcount : w.SameNet { w with server.reconnticks := w.server.reconnticks - 1 } := { World.SameNet.refl w with }
  refine .head (.swaps (.same hcount ⟨rfl,rfl⟩)) ?_
  unfold connWaitReconn
  dsimp only
  split
  · refine (connect_stirs env _).trans ?_
    split
    · exact stirs_of_same { World.SameNet.refl _ with } ⟨rfl,rfl⟩
    · exact stirs_of_same (same_tickUnregister _ .connWaitReconn not_false) ⟨rfl,rfl⟩
  · exact .refl

theorem connWaitLogin_stirs (h : Inv w) : Stirs live sane w (connWaitLogin w) := by
  have hcount : w.SameNet { w with server.loginticks := w.server.loginticks - 1 } := { World.SameNet.refl w with }
  have hinv := h.action (.counters w w.server.reconnticks (w.server.loginticks - 1) w.server.idleticks
    w.server.sendcreditticks)
  refine .after (stirs_of_same hcount ⟨rfl,rfl⟩) ?_
  unfold connWaitLogin
  dsimp only
  split
  · refine .after (stirs_of_same (same_tickUnregister _ .connWaitLogin not_false) ⟨rfl,rfl⟩) (closeConn_stirs ?_)
    exact hinv.action (.tickUnregister _ .connWaitLogin not_false)
  · exact .pure .refl

theorem activeTick_stirs (h : Inv w) : Stirs live sane w (activeTick w) := by
  obtain ⟨credits,h1,he⟩ := credit_acts w
  have hcredits : w.SameNet { w with server.sendcreditticks := credits } := { World.SameNet.refl w with }
  unfold activeTick
  rw [he]
  refine .after (stirs_of_same hcredits ⟨rfl,rfl⟩) ?_
  have hsend : Meets (fun t => ReflTransGen (Stir live sane) { w with server.sendcreditticks := credits } t ∧ Inv t)
      (fun _ => True) (sendRaw none { w with server.sendcreditticks := credits }) := by
    cases hs : sendRaw none { w with server.sendcreditticks := credits } with
    | error e => trivial
    | ok t => exact ⟨.single (.swaps (swaps_of_sendRaw hs)),
        (h.actions h1).change (.send _ t none nofun hs)⟩
  refine Meets.bind (Meets.mono hsend (fun _ ht => ht) fun e _ => ⟨_,.refl,trivial⟩) ?_
  rintro t ⟨ht,hinv⟩
  have hidle : t.SameNet { t with server.idleticks := t.server.idleticks - 1 } := { World.SameNet.refl t with }
  refine Traced.after (ht.trans (stirs_of_same hidle ⟨rfl,rfl⟩)) ?_
  dsimp only
  split
  · exact Stirs.ofOk fun u hu => .swaps (swaps_of_sendRawCmd (by decide) hu)
  · split
    · refine .after (stirs_of_same (same_tickUnregister _ .activeTick not_false) ⟨rfl,rfl⟩) (closeConn_stirs ?_)
      exact (hinv.action (idle_acts t)).action (.tickUnregister _ .activeTick not_false)
    · exact .pure .refl

theorem disconnect_stirs (h : Inv w) : Stirs live sane w (disconnect w) := by
  have h1 := h.action (.tickUnregister w .connWaitLogin not_false)
  have h2 := h1.action (.tickUnregister _ .connWaitReconn not_false)
  refine .after (stirs_of_same (same_tickUnregister w .connWaitLogin not_false) ⟨rfl,rfl⟩) ?_
  refine .after (stirs_of_same (same_tickUnregister _ .connWaitReconn not_false) ⟨rfl,rfl⟩) ?_
  unfold disconnect
  dsimp only
  split
  · exact Stirs.ofOk fun u hu => .swaps (swaps_of_sendRawCmd (by decide) hu)
  · split
    · next conn hc => exact Connection.close_stirs h2 (h.created conn hc)
    · exact .pure .refl

theorem part_swaps (h : Inv w) {channel : Bytes} (hp : part channel w = .ok w') : Swaps w w' := by
  cases hget : w.server.channels.get channel with
  | none =>
    rw [part,hget] at hp
    cases hp
    exact .refl w
  | some chan =>
    obtain rfl := (h.name_of_get hget).2
    have ht : MildTraces none w _ := part_mild hget
    rw [hp] at ht
    exact swaps_of_mild ht

end IrcServer

/-! ### Callbacks and calls of the application -/

/-- The connection that a callback of the tick event belongs to exists. -/
def TickHandler.Serves (w : World) : TickHandler → Prop
  | .checkPendingConnection self => w.Extant self
  | .checkPendingTls self => w.Extant self
  | _ => True

theorem callTick_stirs (h : Inv w) (env : Env) {handler : TickHandler} (hh : handler.Serves w) :
    Stirs live sane w (Service.callTick env handler w) := by
  cases handler with
  | connWaitLogin => exact IrcServer.connWaitLogin_stirs h
  | connWaitReconn => exact .pure (IrcServer.connWaitReconn_stirs env w)
  | activeTick => exact IrcServer.activeTick_stirs h
  | waitjoin self =>
    refine Stirs.ofOk fun w' hw => ?_
    have ht : MildTraces none w _ := IrcChannel.waitjoin_mild self w
    rw [show IrcChannel.waitjoin self w = .ok w' from hw] at ht
    exact .swaps (swaps_of_mild ht)
  | waitrejoin self =>
    refine Stirs.ofOk fun w' hw => ?_
    have ht : MildTraces none w _ := IrcChannel.waitrejoin_mild self w
    rw [show IrcChannel.waitrejoin self w = .ok w' from hw] at ht
    exact .swaps (swaps_of_mild ht)
  | checkPendingConnection self => exact Connection.checkPendingConnection_stirs h hh
  | checkPendingTls self => exact Connection.checkPendingTls_stirs h hh
  | other n => exact .pure .refl

/-- The bot's callback `shutdown` takes a lock before it disconnects the server. -/
def World.locked (w : World) : World :=
  Service.shutdownLock { w with server.disconnected := w.server.disconnected.register () .shutdownok 0 }

theorem locked_locks (w : World) : w.locked.locks = w.locks + 1 := by
  have h : w.locked.server.disconnected = w.server.disconnected.register () .shutdownok 0 := by
    unfold World.locked Service.shutdownLock
    split <;> rfl
  rw [World.locks,h,Event.count_register,if_pos ⟨rfl,rfl,rfl⟩]
  rfl

theorem locked_inv (h : Inv w) : Inv w.locked :=
  (h.action (.logout w)).actions (Service.shutdownLock_acts _)

theorem locked_same (w : World) : w.SameNet w.locked := by
  unfold World.locked Service.shutdownLock
  split <;> exact { World.SameNet.refl w with }

theorem shutdown_stirs (h : Inv w) : Stirs live sane w.locked (Service.shutdown w) :=
  IrcServer.disconnect_stirs (locked_inv h)

theorem shutdown_moves (h : Inv w) : Moves live sane w (Service.shutdown w) :=
  .after (.single (.exchange (.same (locked_same w)))) (shutdown_stirs h).moves

theorem startup_stirs (env : Env) (w : World) : ReflTransGen (Stir live sane) w (Service.startup env w) := by
  unfold Service.startup
  refine (IrcServer.connect_stirs env w).trans ?_
  dsimp only
  split
  · exact .refl
  · exact stirs_of_same { World.SameNet.refl _ with } ⟨rfl,rfl⟩

end LibIrcBot
