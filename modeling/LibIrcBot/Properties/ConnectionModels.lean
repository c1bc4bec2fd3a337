import LibIrcBot.Properties.HandledData
import LibIrcBot.Properties.WriteOrder
import LibIrcBot.System.Iterations

/-! # One connection in three models

The connection of a server has the handlers of `ircserver.c`, another one any receivers, and a write
ring is what is left without TLS and without reading. What the service or the application does to the first is done to
the second, if the receivers make the calls of `Connection_write` that the server makes, and to the ring.
-/
namespace LibIrcBot
open Effects Relation Outcome

variable {w w' : World} {self : ConnId} {env : Env}

/-! ## The connection of a server -/

namespace Connection

/-- The connection without the registrations on its events. -/
def bare (c : Connection) : Connection := { c with
  connected := Event.create
  closed := Event.create
  dataReceived := Event.create
  dataSent := Event.create }

theorem bare_writes (calls : List (Buffer × Bool)) (c : Connection) : (c.writes calls).bare = c.bare.writes calls := by
  induction calls generalizing c with
  | nil => rfl
  | cons call calls ih =>
    have hone : (record call.1 call.2 c).bare = record call.1 call.2 c.bare := apply_ite bare _ _ _
    exact (ih _).trans (congrArg (writes calls) hone)

theorem wantreadwrite_conns (self : ConnId) (w : World) : (wantreadwrite self w).conns = w.conns := by
  obtain ⟨_,_,_,he⟩ := wantreadwrite_shape self w
  rw [he]

theorem write_conns (conn : ConnId) (buf : Buffer) (id : Bool) (w : World) :
    (write conn buf id w).2.conns self = if self = conn then record buf id (w.conns self) else w.conns self := by
  unfold write record
  by_cases hc : self = conn
  · subst hc
    split
    · exact (if_pos rfl).symm
    · dsimp only
      rw [wantreadwrite_conns,setConn_conns]
  · rw [if_neg hc]
    split
    · rfl
    · dsimp only
      rw [wantreadwrite_conns,setConn_conns,if_neg hc]

theorem deleteLater_conns (w : World) : (deleteLater self w).conns self =
    if (w.conns self).deleteScheduled = 0 then { w.conns self with deleteScheduled := 1 } else w.conns self := by
  unfold deleteLater
  split
  · rw [setConn_conns,if_pos rfl]
    rfl
  · rfl

theorem raiseConnected_bare (hr : raiseConnected self w = .ok w') : (w'.conns self).bare = (w.conns self).bare := by
  have hbare : Meets (fun t => (t.conns self).bare = (w.conns self).bare) (fun _ => True) (raiseConnected self w) := by
    refine raise_invariant (I := fun t => (t.conns self).bare = (w.conns self).bare) (fun _ t ht => ?_) rfl
    refine Eq.trans ?_ ht
    rw [IrcServer.connConnected]
    split
    · change (Function.update t.conns self _ self).bare = _
      rw [Function.update_self]
      rfl
    · rfl
  rw [hr] at hbare
  exact hbare

/-- The server writes nothing to a connection that is closed. -/
theorem raiseClosed_conns {established : Bool} (hr : raiseClosed self established w = .ok w') : w'.conns = w.conns := by
  have hconns : Meets (fun t => t.conns = w.conns) (fun _ => True) (raiseClosed self established w) := by
    refine raise_invariant (I := fun t => t.conns = w.conns) (fun _ t ht => ?_) rfl
    by_cases hc : t.server.conn = some self
    · refine Meets.mono (connClosed_spec hc established) ?_ fun _ _ => trivial
      rintro u ⟨v,hv,rfl⟩
      exact (same_of_exchanges (exchanges_of_effects (hangUp_effects hv)) rfl).conns.trans ht
    · rw [IrcServer.connClosed,if_neg hc]
      exact ht
  rw [hr] at hconns
  exact hconns

theorem confirm_written {id : Bool} (hr : confirm self id w = .ok w') : (w.conns self).Written (w'.conns self) := by
  unfold confirm at hr
  split at hr
  · have hwritten : Meets (fun t => (w.conns self).Written (t.conns self)) (fun _ => True) (raiseDataSent self w) := by
      refine raise_invariant (I := fun t => (w.conns self).Written (t.conns self)) (fun _ t ht => ?_) (.refl _)
      unfold IrcServer.connDataSent
      split
      · cases hs : IrcServer.sendRaw none { t with server.sendcmd := none, server.sending := false } with
        | ok u => exact ht.trans ((sendRaw_outputs hs).written self)
        | error e => trivial
      · exact ht
    rw [hr] at hwritten
    exact hwritten
  · cases hr
    exact .refl _

theorem raiseDataReceived_written (h : Inv w) {data : Bytes} (hlen : data.length ≤ CONNBUFSZ)
    (hr : raiseDataReceived env self data w = .ok w') : (w.conns self).Written (w'.conns self) := by
  have hspec := raiseDataReceived_spec h env self hlen
  rw [hr] at hspec
  rcases hspec with rfl | ⟨_,hreads⟩
  · exact .refl _
  · exact written_of_received hreads.steps self

theorem close_conns (hr : close self w = .ok w') : w'.conns self =
    if (w.conns self).deleteScheduled = 0 then { w.conns self with deleteScheduled := 1 } else w.conns self := by
  obtain ⟨t,ht,hr⟩ := ok_of_bind hr
  cases hr
  rw [deleteLater_conns,raiseClosed_conns ht]

end Connection

/-! ## A connection with receivers -/

namespace Handling
variable {s : Handling} {c : Connection} {receiving : Bool}

def Mirrors (s : Handling) (c : Connection) : Prop := s.conn.bare = c.bare

def writing (calls : List (Buffer × Bool)) : List (ConnCall receiving) := calls.map fun call => .write call.1 call.2

theorem wantreadwrite_conn (s : Handling) : s.wantreadwrite.conn = s.conn := by
  obtain ⟨_,_,he⟩ := wantreadwrite_shape s
  rw [he]

theorem write_conn (buf : Buffer) (id : Bool) (s : Handling) :
    (s.write buf id).2.conn = Connection.record buf id s.conn := by
  unfold write Connection.record
  split
  · rfl
  · exact wantreadwrite_conn _

theorem calls_writing (l : List (Buffer × Bool)) (s : Handling) :
    (calls (writing l : List (ConnCall receiving)) s).conn = s.conn.writes l := by
  induction l generalizing s with
  | nil => rw [writing,List.map_nil,calls]; rfl
  | cons b l ih =>
    rw [writing,List.map_cons,calls,call]
    exact (ih _).trans (congrArg (Connection.writes l) (write_conn b.1 b.2 s))

namespace Mirrors

/-- The interest is no part of the connection. -/
theorem wantreadwrite (h : s.Mirrors (w.conns self)) :
    s.wantreadwrite.Mirrors ((Connection.wantreadwrite self w).conns self) := by
  rw [Mirrors,wantreadwrite_conn,Connection.wantreadwrite_conns]
  exact h

theorem unregisterWrite (h : s.Mirrors (w.conns self)) {fd : ℤ} :
    s.unregisterWrite.Mirrors ((Service.unregisterWrite fd w).conns self) := h

/-- A receiver that writes does what the server does. -/
theorem written {d : Connection} (h : s.Mirrors c) (hw : c.Written d) : ∃ l, ∀ receiving,
    (calls (writing l : List (ConnCall receiving)) s).Mirrors d := by
  obtain ⟨l,rfl⟩ := hw
  refine ⟨l,fun _ => ?_⟩
  rw [Mirrors,calls_writing,Connection.bare_writes,Connection.bare_writes,h]

theorem field {α : Type} (h : s.Mirrors c) (f : Connection → α) (hf : ∀ c, f c.bare = f c) : f s.conn = f c :=
  (hf s.conn).symm.trans ((congrArg f h).trans (hf c))

/-- A change that does not concern the registrations. -/
theorem map (h : s.Mirrors c) {f : Connection → Connection} (hf : ∀ c, (f c).bare = f c.bare) :
    (s.setConn f).Mirrors (f c) :=
  (hf s.conn).trans ((congrArg f h).trans (hf c).symm)

theorem setConn (h : s.Mirrors (w.conns self)) {f : Connection → Connection} (hf : ∀ c, (f c).bare = f c.bare) :
    (s.setConn f).Mirrors ((w.setConn self f).conns self) := by
  rw [setConn_conns,if_pos rfl]
  exact h.map hf

theorem close (h : s.Mirrors (w.conns self)) (hr : Connection.close self w = .ok w') :
    (Handling.close [] s).Mirrors (w'.conns self) := by
  rw [Connection.close_conns hr,Handling.close,call,calls,deleteLater,h.field Connection.deleteScheduled fun _ => rfl]
  split
  · exact h.map (f := fun c => { c with deleteScheduled := 1 }) fun _ => rfl
  · exact h

end Mirrors

/-! ## The handlers of the service -/

/-- The answers of the environment, where the server writes some lines on data and when one is sent. -/
def answers (env : Env) (received sent : List (Buffer × Bool)) : Answers where
  sockErr := env.sockErr
  sslConnect := env.sslConnect
  read := env.read
  write := env.write
  connected := []
  closed := []
  dataReceived := writing received
  dataSent := writing sent

theorem checkPendingConnection_mirrors (h : s.Mirrors (w.conns self))
    (hr : Connection.checkPendingConnection self w = .ok w') :
    (checkPendingConnection [] s).Mirrors (w'.conns self) := by
  have hset := h.setConn (f := fun c => { c with connecting := c.connecting - 1 }) fun _ => rfl
  unfold Connection.checkPendingConnection at hr
  unfold checkPendingConnection
  rw [h.field Connection.connecting fun _ => rfl]
  dsimp only
  rw [hset.field Connection.connecting fun _ => rfl]
  split at hr
  · next hne =>
    rw [if_pos hne]
    dsimp only at hr
    split at hr
    · next hzero =>
      rw [if_pos hzero]
      exact Mirrors.close hset.unregisterWrite hr
    · next hzero =>
      rw [if_neg hzero]
      cases hr
      exact hset
  · next hne =>
    rw [if_neg hne]
    cases hr
    exact h

theorem checkPendingTls_mirrors (h : s.Mirrors (w.conns self)) (hr : Connection.checkPendingTls self w = .ok w') :
    (checkPendingTls [] s).Mirrors (w'.conns self) := by
  have hset := h.setConn (f := fun c => { c with tlsConnectTicks := c.tlsConnectTicks - 1 }) fun _ => rfl
  unfold Connection.checkPendingTls at hr
  unfold checkPendingTls
  rw [h.field Connection.tlsConnectTicks fun _ => rfl]
  dsimp only
  rw [hset.field Connection.tlsConnectTicks fun _ => rfl]
  split at hr
  · next hne =>
    rw [if_pos hne]
    dsimp only at hr
    split at hr
    · next hzero =>
      rw [if_pos hzero]
      exact hset.close hr
    · next hzero =>
      rw [if_neg hzero]
      cases hr
      exact hset
  · next hne =>
    rw [if_neg hne]
    cases hr
    exact h

theorem dohandshake_mirrors (h : s.Mirrors (w.conns self)) (hr : Connection.dohandshake env self w = .ok w')
    (received sent : List (Buffer × Bool)) : (dohandshake (answers env received sent) s).Mirrors (w'.conns self) := by
  have hlog : s.Mirrors ((w.log self .sslConnect).conns self) := h
  have hset := fun st => hlog.setConn (f := fun c => { c with tlsConnectSt := st }) fun _ => rfl
  unfold Connection.dohandshake at hr
  unfold dohandshake
  rw [show (answers env received sent).sslConnect = env.sslConnect from rfl]
  cases hc : env.sslConnect with
  | done =>
    rw [hc] at hr
    obtain ⟨t,ht,hr⟩ := ok_of_bind hr
    cases hr
    refine Mirrors.wantreadwrite ?_
    rw [Mirrors,Connection.raiseConnected_bare ht]
    exact Mirrors.setConn (f := fun c => { c with tlsConnectTicks := 0 }) (hset .none) fun _ => rfl
  | failed =>
    rw [hc] at hr
    exact Mirrors.close (by exact h) hr
  | want st =>
    rw [hc] at hr
    cases st with
    | none => exact Mirrors.close (by exact h) hr
    | wantRead | wantWrite =>
      cases hr
      exact (hset _).wantreadwrite

theorem Mirrors.confirm (h : s.Mirrors (w.conns self)) {record : WriteRecord}
    (hr : Connection.confirm self record.id w = .ok w') :
    ∃ sent, ∀ received, (raiseDataSent (answers env received sent) record s).Mirrors (w'.conns self) := by
  unfold raiseDataSent
  cases hid : record.id with
  | false =>
    rw [hid] at hr
    cases hr
    exact ⟨[],fun _ => h⟩
  | true =>
    obtain ⟨sent,hsent⟩ := h.written (Connection.confirm_written hr)
    exact ⟨sent,fun _ => hsent false⟩

theorem sent_mirrors {n : ℕ} (h : s.Mirrors (w.conns self)) (hr : Connection.sent self n w = .ok w') :
    ∃ sent, ∀ received, (Handling.sent (answers env received sent) n s).Mirrors (w'.conns self) := by
  have hset := fun record => h.setConn
    (f := fun c => { c with writerecs := Function.update c.writerecs c.baserecidx record }) fun _ => rfl
  have hdrop := h.setConn (f := Connection.dropRecord) fun _ => rfl
  unfold Connection.sent at hr
  unfold Handling.sent
  dsimp only at hr ⊢
  rw [h.field Connection.tls fun _ => rfl,h.field Connection.baserecidx fun _ => rfl,
    h.field Connection.writerecs fun _ => rfl]
  split at hr
  · next hlt =>
    refine ⟨[],fun _ => ?_⟩
    rw [if_pos hlt]
    cases hr
    split
    · exact (hset _).wantreadwrite
    · exact hset _
  · next hge =>
    simp only [if_neg hge]
    split at hr
    · next htls =>
      obtain ⟨t,ht,hr⟩ := ok_of_bind hr
      cases hr
      obtain ⟨sent,hsent⟩ := hdrop.confirm ht
      refine ⟨sent,fun received => ?_⟩
      rw [if_pos htls]
      exact (hsent received).wantreadwrite
    · next htls =>
      obtain ⟨sent,hsent⟩ := hdrop.wantreadwrite.confirm hr
      refine ⟨sent,fun received => ?_⟩
      rw [if_neg htls]
      exact hsent received

theorem dowrite_mirrors (h : s.Mirrors (w.conns self)) (hr : Connection.dowrite env self w = .ok w') :
    ∃ sent, ∀ received, (dowrite (answers env received sent) s).Mirrors (w'.conns self) := by
  have hssl : s.Mirrors ((w.log self .sslWrite).conns self) := h
  have hset := fun st => hssl.setConn (f := fun c => { c with tlsWriteSt := st }) fun _ => rfl
  have hplain : s.Mirrors ((w.log self .write).conns self) := h
  have hwrite : ∀ received sent, (answers env received sent).write = env.write := fun _ _ => rfl
  unfold Connection.dowrite at hr
  unfold dowrite
  simp only [h.field Connection.tls fun _ => rfl,hwrite]
  split at hr
  · next htls =>
    simp only [if_pos htls]
    cases hc : env.write with
    | sent n =>
      rw [hc] at hr
      exact sent_mirrors (hset .none) hr
    | failed =>
      rw [hc] at hr
      exact ⟨[],fun _ => hssl.close hr⟩
    | want st =>
      rw [hc] at hr
      cases st with
      | none => exact ⟨[],fun _ => hssl.close hr⟩
      | wantRead | wantWrite =>
        cases hr
        exact ⟨[],fun _ => (hset _).wantreadwrite⟩
  · next htls =>
    simp only [if_neg htls]
    cases hc : env.write with
    | sent n =>
      rw [hc] at hr
      exact sent_mirrors hplain hr
    | failed =>
      rw [hc] at hr
      exact ⟨[],fun _ => hplain.close hr⟩
    | want st =>
      rw [hc] at hr
      cases hr
      exact ⟨[],fun _ => h⟩

theorem Mirrors.receive (hi : LibIrcBot.Inv w) (h : s.Mirrors (w.conns self)) {chunk : Chunk}
    (hr : Connection.raiseDataReceived env self chunk.bytes w = .ok w') :
    ∃ received, ∀ sent, (Handling.receive (answers env received sent) chunk s).Mirrors
      ((Connection.wantreadwrite self w').conns self) := by
  have hbuf : ({ s with rdbuf := chunk.bytes } : Handling).Mirrors (w.conns self) := h
  obtain ⟨received,hreceived⟩ := hbuf.written (Connection.raiseDataReceived_written hi chunk.fits hr)
  exact ⟨received,fun _ => (hreceived true).wantreadwrite⟩

theorem doread_mirrors (hi : LibIrcBot.Inv w) (h : s.Mirrors (w.conns self))
    (hr : Connection.doread env self w = .ok w') :
    ∃ received, ∀ sent, (doread (answers env received sent) s).Mirrors (w'.conns self) := by
  have hssl : ({ s with reads := s.reads ++ [s.conn.handling] } : Handling).Mirrors ((w.log self .sslRead).conns self) := h
  have hset := fun st => hssl.setConn (f := fun c => { c with tlsReadSt := st }) fun _ => rfl
  have hplain : ({ s with reads := s.reads ++ [s.conn.handling] } : Handling).Mirrors ((w.log self .read).conns self) := h
  have hread : ∀ received sent, (answers env received sent).read = env.read := fun _ _ => rfl
  unfold Connection.doread at hr
  unfold doread
  simp only [h.field Connection.tls fun _ => rfl,hread]
  split at hr
  · next htls =>
    simp only [if_pos htls]
    cases hc : env.read with
    | data chunk =>
      rw [hc] at hr
      obtain ⟨t,ht,hr⟩ := ok_of_bind hr
      cases hr
      have hlog := hi.action (Connection.log_acts self .sslRead w)
      have hfield : Action (w.log self .sslRead) ((w.log self .sslRead).setConn self fun c =>
          { c with tlsReadSt := .none }) := Connection.field_acts fun _ => ⟨rfl,rfl,rfl,rfl,rfl,rfl,rfl,rfl,rfl,rfl,rfl⟩
      exact (hset .none).receive (hlog.action hfield) ht
    | failed =>
      rw [hc] at hr
      exact ⟨[],fun _ => hssl.close hr⟩
    | want st =>
      rw [hc] at hr
      cases st with
      | none => exact ⟨[],fun _ => hssl.close hr⟩
      | wantRead | wantWrite =>
        cases hr
        exact ⟨[],fun _ => (hset _).wantreadwrite⟩
  · next htls =>
    simp only [if_neg htls]
    cases hc : env.read with
    | data chunk =>
      rw [hc] at hr
      obtain ⟨t,ht,hr⟩ := ok_of_bind hr
      cases hr
      exact hplain.receive (hi.action (Connection.log_acts self .read w)) ht
    | failed =>
      rw [hc] at hr
      exact ⟨[],fun _ => hplain.close hr⟩
    | want st =>
      rw [hc] at hr
      cases hr
      exact ⟨[],fun _ => hplain⟩

/-- The connection of a server becomes writable. -/
theorem writeConnection_mirrors (hi : LibIrcBot.Inv w) (h : s.Mirrors (w.conns self))
    (hr : Connection.writeConnection env self w = .ok w') :
    ∃ received sent, (writeConnection (answers env received sent) s).Mirrors (w'.conns self) := by
  have hopt : s.Mirrors ((World.log { w with service.tick := w.service.tick.unregister () (.checkPendingConnection self) 0 }
    self .getsockopt).conns self) := h
  have hset := hopt.setConn (f := fun c => { c with connecting := 0 }) fun _ => rfl
  have herr : ∀ received sent, (answers env received sent).sockErr = env.sockErr := fun _ _ => rfl
  unfold Connection.writeConnection at hr
  unfold writeConnection
  simp only [h.field Connection.connecting fun _ => rfl,h.field Connection.tls fun _ => rfl,
    h.field Connection.tlsConnectSt fun _ => rfl,h.field Connection.tlsReadSt fun _ => rfl,
    h.field Connection.tlsWriteSt fun _ => rfl,h.field Connection.nrecs fun _ => rfl,herr]
  dsimp only at hr
  split at hr
  · next hs =>
    simp only [if_pos hs]
    split at hr
    · next he =>
      simp only [if_pos he]
      exact ⟨[],[],hopt.close hr⟩
    · next he =>
      simp only [if_neg he]
      split at hr
      · next htls =>
        simp only [if_pos htls]
        refine ⟨[],[],dohandshake_mirrors ?_ hr [] []⟩
        exact Mirrors.setConn (f := fun c => { c with tlsConnectTicks := CONNTICKS }) hset fun _ => rfl
      · next htls =>
        simp only [if_neg htls]
        refine ⟨[],[],?_⟩
        rw [Mirrors,Connection.raiseConnected_bare hr]
        exact hset.wantreadwrite
  rename_i hs
  simp only [if_neg hs]
  split at hr
  · next hs =>
    simp only [if_pos hs]
    exact ⟨[],[],dohandshake_mirrors h hr [] []⟩
  rename_i hs
  simp only [if_neg hs]
  split at hr
  · next hs =>
    simp only [if_pos hs]
    obtain ⟨received,hreceived⟩ := doread_mirrors hi h hr
    exact ⟨received,[],hreceived []⟩
  rename_i hs
  simp only [if_neg hs]
  have hwrite : ∀ {u}, Connection.dowrite env self w = .ok u →
      ∃ received sent, (dowrite (answers env received sent) s).Mirrors (u.conns self) := by
    intro u hu
    obtain ⟨sent,hsent⟩ := dowrite_mirrors h hu
    exact ⟨[],sent,hsent []⟩
  split at hr
  · next hs =>
    simp only [if_pos hs]
    exact hwrite hr
  rename_i hs
  simp only [if_neg hs]
  split at hr
  · next hs =>
    simp only [if_pos hs]
    cases hr
    exact ⟨[],[],h.wantreadwrite⟩
  · next hs =>
    simp only [if_neg hs]
    exact hwrite hr

/-- The connection of a server becomes readable. -/
theorem readConnection_mirrors (hi : LibIrcBot.Inv w) (h : s.Mirrors (w.conns self))
    (hr : Connection.readConnection env self w = .ok w') :
    ∃ received sent, (readConnection (answers env received sent) s).Mirrors (w'.conns self) := by
  have hread : ∀ {u}, Connection.doread env self w = .ok u →
      ∃ received sent, (doread (answers env received sent) s).Mirrors (u.conns self) := by
    intro u hu
    obtain ⟨received,hreceived⟩ := doread_mirrors hi h hu
    exact ⟨received,[],hreceived []⟩
  unfold Connection.readConnection at hr
  unfold readConnection
  simp only [h.field Connection.tlsConnectSt fun _ => rfl,h.field Connection.tlsReadSt fun _ => rfl,
    h.field Connection.tlsWriteSt fun _ => rfl,h.field Connection.handling fun _ => rfl]
  dsimp only at hr
  split at hr
  · next hs =>
    simp only [if_pos hs]
    exact ⟨[],[],dohandshake_mirrors h hr [] []⟩
  rename_i hs
  simp only [if_neg hs]
  split at hr
  · next hs =>
    simp only [if_pos hs]
    exact hread hr
  rename_i hs
  simp only [if_neg hs]
  split at hr
  · next hs =>
    simp only [if_pos hs]
    obtain ⟨sent,hsent⟩ := dowrite_mirrors h hr
    exact ⟨[],sent,hsent []⟩
  rename_i hs
  simp only [if_neg hs]
  split at hr
  · next hs =>
    simp only [if_pos hs]
    cases hr
    exact ⟨[],[],h⟩
  · next hs =>
    simp only [if_neg hs]
    exact hread hr

/-- Whatever the service calls for a connection of the server is a step of the one with receivers. -/
theorem callback_mirrors (hi : LibIrcBot.Inv w) (h : s.Mirrors (w.conns self))
    (hr : Service.callTick env (.checkPendingConnection self) w = .ok w' ∨
      Service.callTick env (.checkPendingTls self) w = .ok w' ∨
      Service.callRead env (.readConnection self) w = .ok w' ∨
      Service.callWrite env (.writeConnection self) w = .ok w') : ∃ l, (s.step l).Mirrors (w'.conns self) := by
  rcases hr with hr | hr | hr | hr
  · exact ⟨.checkPendingConnection [],checkPendingConnection_mirrors h hr⟩
  · exact ⟨.checkPendingTls [],checkPendingTls_mirrors h hr⟩
  · obtain ⟨received,sent,hm⟩ := readConnection_mirrors hi h hr
    exact ⟨.readConnection (answers env received sent),hm⟩
  · obtain ⟨received,sent,hm⟩ := writeConnection_mirrors hi h hr
    exact ⟨.writeConnection (answers env received sent),hm⟩

/-- A command that reaches a connection is written there by a receiver. -/
theorem exchange_mirrors (h : s.Mirrors (w.conns self)) (hx : Exchange w w') :
    ∃ ls, (s.run ls).Mirrors (w'.conns self) := by
  cases hx with
  | same hsame => exact ⟨[],hsame.conns ▸ h⟩
  | write conn buf =>
    rw [Connection.write_conns]
    split
    · next hc =>
      subst hc
      refine ⟨[.call (.write buf true)],?_⟩
      rw [run,List.foldl_cons,List.foldl_nil,step,call,Mirrors,write_conn]
      have hbare := Connection.bare_writes [(buf,true)]
      exact (hbare s.conn).trans ((congrArg (Connection.writes [(buf,true)]) h).trans (hbare (w.conns self)).symm)
    · exact ⟨[],h⟩

/-- What the application calls between two events is done by calls of the receivers. -/
theorem call_mirrors (hi : LibIrcBot.Inv w) (h : s.Mirrors (w.conns self)) {l : LibIrcBot.Label} (hl : l.IsCall)
    (hs : ∀ env, l ≠ .startup env) (hd : l ≠ .disconnect) (hr : World.step l w = .ok w') :
    ∃ ls, (s.run ls).Mirrors (w'.conns self) := by
  have hex := call_exchanges hi hl hs hd
  rw [hr] at hex
  have hstart : ∃ ls, (s.run ls).Mirrors (w.conns self) := ⟨[],h⟩
  refine Effects.invariant (I := fun t => ∃ ls, (s.run ls).Mirrors (t.conns self)) ?_ hstart hex
  rintro _ _ ⟨ls,hls⟩ hx
  obtain ⟨ls',hls'⟩ := exchange_mirrors hls hx
  exact ⟨ls ++ ls',by rwa [run,List.foldl_append]⟩

end Handling

/-! ## A write ring -/

/-- A connection that was created without TLS. -/
structure Connection.Plain (c : Connection) : Prop where
  tls : c.tls = false
  tlsConnectSt : c.tlsConnectSt = .none
  tlsReadSt : c.tlsReadSt = .none
  tlsWriteSt : c.tlsWriteSt = .none

namespace WriteRing
open Handling
variable {r : WriteRing} {s : Handling} {received sent : List (Buffer × Bool)}

theorem write_conn (buf : Buffer) (id : Bool) (r : WriteRing) : (r.write buf id).2.conn = Connection.record buf id r.conn := by
  unfold write Connection.record
  split <;> rfl

theorem writes_conn (l : List (Buffer × Bool)) (r : WriteRing) : (r.writes l).conn = r.conn.writes l := by
  induction l generalizing r with
  | nil => rfl
  | cons b l ih => exact (ih _).trans (congrArg (Connection.writes l) (write_conn b.1 b.2 r))

theorem deleteLater_ring (h : s.Mirrors r.conn) : (Handling.close [] s).Mirrors r.deleteLater.conn := by
  rw [Handling.close,call,calls,Handling.deleteLater,deleteLater,h.field Connection.deleteScheduled fun _ => rfl]
  split
  · exact h.map (f := fun c => { c with deleteScheduled := 1 }) fun _ => rfl
  · exact h

theorem confirm_ring {record : WriteRecord} (h : s.Mirrors r.conn) :
    (raiseDataSent (answers env received sent) record s).Mirrors
      (if record.id then (r.confirm record).writes sent else r.confirm record).conn := by
  have hconfirm : (r.confirm record).conn = r.conn := by
    unfold confirm
    split <;> rfl
  unfold raiseDataSent
  split
  · rw [writes_conn,hconfirm,Mirrors,Connection.bare_writes,← h,← Connection.bare_writes]
    exact congrArg Connection.bare (calls_writing sent s)
  · rw [hconfirm]
    exact h

theorem sent_ring {n : ℕ} (h : s.Mirrors r.conn) (htls : r.conn.tls = false) :
    (Handling.sent (answers env received sent) n s).Mirrors (r.sent n sent).conn := by
  have hdrop : (Handling.wantreadwrite (s.setConn Connection.dropRecord)).Mirrors (Connection.dropRecord r.conn) := by
    rw [Mirrors,wantreadwrite_conn]
    exact h.map fun _ => rfl
  have hset := fun record => h.map (f := fun c => { c with
    writerecs := Function.update c.writerecs c.baserecidx record }) fun _ => rfl
  have hplain : ¬ s.conn.tls = true := by rw [h.field Connection.tls fun _ => rfl,htls]; exact Bool.false_ne_true
  unfold Handling.sent WriteRing.sent base
  dsimp only
  rw [if_neg hplain,if_neg hplain,h.field Connection.baserecidx fun _ => rfl,h.field Connection.writerecs fun _ => rfl]
  split
  · exact hset _
  · exact confirm_ring hdrop

theorem dowrite_ring (h : s.Mirrors r.conn) (htls : r.conn.tls = false) :
    (Handling.dowrite (answers env received sent) s).Mirrors (r.dowrite env.write sent).conn := by
  have hplain : ¬ s.conn.tls = true := by rw [h.field Connection.tls fun _ => rfl,htls]; exact Bool.false_ne_true
  unfold Handling.dowrite WriteRing.dowrite
  rw [if_neg hplain,show (answers env received sent).write = env.write from rfl]
  cases env.write with
  | sent n => exact sent_ring h htls
  | want _ => exact h
  | failed => exact deleteLater_ring h

theorem writeConnection_ring (h : s.Mirrors r.conn) (hp : r.conn.Plain) :
    (Handling.writeConnection (answers env received sent) s).Mirrors
      (r.writeConnection env.sockErr env.write sent).conn := by
  have hset := h.map (f := fun c => { c with connecting := 0 }) fun _ => rfl
  have hplain : s.conn.tls = false := (h.field Connection.tls fun _ => rfl).trans hp.tls
  have hconnect : s.conn.tlsConnectSt = .none := (h.field Connection.tlsConnectSt fun _ => rfl).trans hp.tlsConnectSt
  have hread : s.conn.tlsReadSt = .none := (h.field Connection.tlsReadSt fun _ => rfl).trans hp.tlsReadSt
  have hwrite : s.conn.tlsWriteSt = .none := (h.field Connection.tlsWriteSt fun _ => rfl).trans hp.tlsWriteSt
  unfold Handling.writeConnection WriteRing.writeConnection
  simp only [hplain,hconnect,hread,hwrite,h.field Connection.connecting fun _ => rfl,h.field Connection.nrecs fun _ => rfl,
    show (answers env received sent).sockErr = env.sockErr from rfl,reduceCtorEq,if_false,Bool.false_eq_true]
  split
  · split
    · exact deleteLater_ring h
    · rw [show (answers env received sent).connected = [] from rfl,calls,Mirrors,wantreadwrite_conn]
      exact hset
  · split
    · rw [Mirrors,wantreadwrite_conn]
      exact h
    · exact dowrite_ring h hp.tls

/-- The connection of a server without TLS writes like a ring whose handlers of `dataSent` write what the server does. -/
theorem writeConnection_server {self : ConnId} (hi : LibIrcBot.Inv w) (hp : (w.conns self).Plain)
    (h : r.conn.bare = (w.conns self).bare) (hr : Connection.writeConnection env self w = .ok w') :
    ∃ calls, (r.writeConnection env.sockErr env.write calls).conn.bare = (w'.conns self).bare := by
  let s : Handling := ⟨w.conns self,[],Watch.init,[],[],false⟩
  obtain ⟨received,sent,hs⟩ := writeConnection_mirrors hi (s := s) rfl hr
  have hring : r.conn.Plain := by
    constructor
    · exact (congrArg Connection.tls h :).trans hp.tls
    · exact (congrArg Connection.tlsConnectSt h :).trans hp.tlsConnectSt
    · exact (congrArg Connection.tlsReadSt h :).trans hp.tlsReadSt
    · exact (congrArg Connection.tlsWriteSt h :).trans hp.tlsWriteSt
  exact ⟨sent,(writeConnection_ring (s := s) h.symm hring).symm.trans hs⟩

end WriteRing
end LibIrcBot
