import LibIrcBot.System.Actions

/-! # Steps as sequences of actions

Each function that the service or the application calls is traced by actions. In a state
that satisfies the invariant it meets neither a null queue nor a null connection, with
the exception of the timer `activeTick`, and no loop of the model runs out of fuel.
-/
namespace LibIrcBot
open CString Effects Relation Outcome

/-- A fault other than the use of a null queue or a null connection. -/
structure Safe (e : Fault × World) : Prop where
  queue : e.1 ≠ .nullQueue
  conn : e.1 ≠ .nullConn
  fuel : e.1 ≠ .outOfFuel

theorem Sound.safe {w : World} {e : Fault × World} (h : Sound w e) : Safe e := ⟨h.queue,h.conn,h.fuel⟩

/-- A computation that takes actions only and has no other faults. -/
abbrev Acts (w : World) (r : Run) : Prop := Traced Action (fun _ => Safe) w id r

variable {w w' : World}

theorem Acts.ofChanges {r : Run} (h : Changes w r) : Acts w r :=
  h.mono (fun _ _ hc => .change hc) (fun _ _ he => he.safe)

theorem actions_of_changes (h : ReflTransGen Change w w') : ReflTransGen Action w w' :=
  ReflTransGen.mono (fun _ _ hc => .change hc) _ _ h

/-- What follows on changes. -/
theorem Changes.acts_bind {r : Run} {f : World → Run} (h : Changes w r)
    (hf : ∀ t, ReflTransGen Change w t → Acts t (f t)) : Acts w (r >>= f) := by
  cases r with
  | ok t => exact .after (actions_of_changes h) (hf t h)
  | error e =>
    obtain ⟨t,ht,he⟩ := h
    exact ⟨t,actions_of_changes ht,he.safe⟩

/-! ## The events of a connection -/

theorem Connection.Written.events {c c' : Connection} (h : c.Written c') :
    c'.closed = c.closed ∧ c'.dataReceived = c.dataReceived ∧ c'.dataSent = c.dataSent := by
  obtain ⟨_,_,rfl⟩ := h.shape
  exact ⟨rfl,rfl,rfl⟩

theorem World.Outputs.written (h : w.Outputs w') (self : ConnId) : (w.conns self).Written (w'.conns self) := by
  obtain ⟨_,_,_,_,_,_,_,_,_,_,_,hc,rfl⟩ := h
  exact hc self

theorem Effect.written (h : Effect w w') (self : ConnId) : (w.conns self).Written (w'.conns self) := by
  cases h with
  | send _ cmd args hcmd _ hs => exact (sendRawCmd_outputs hcmd hs).written self
  | remove c _ =>
    obtain ⟨_,_,he⟩ := remove_shape (w.chans c).name c w
    rw [he]
    exact .refl _
  | _ => exact .refl _

theorem written_of_effects (h : ReflTransGen Effect w w') (self : ConnId) :
    (w.conns self).Written (w'.conns self) :=
  Effects.invariant (I := fun t => (w.conns self).Written (t.conns self))
    (fun _ _ ht hs => ht.trans (hs.written self)) (.refl _) h

theorem Change.written (h : Change w w') (self : ConnId) : (w.conns self).Written (w'.conns self) := by
  cases h with
  | call hd => exact written_of_effects hd.effects self
  | send _ command _ hs => exact (sendRaw_outputs hs).written self
  | addChannel name _ =>
    obtain ⟨_,_,_,_,_,he⟩ := addChannel_shape name w
    rw [he]
    exact .refl _
  | _ => exact .refl _

theorem written_of_received (h : ReflTransGen Received w w') (self : ConnId) :
    (w.conns self).Written (w'.conns self) := by
  induction h with
  | refl => exact .refl _
  | tail _ hr ih =>
    cases hr with
    | change hc => exact ih.trans (hc.written self)
    | _ => exact ih

namespace Connection
variable {self : ConnId}

theorem log_acts (self : ConnId) (operation : Operation) (w : World) : Action w (w.log self operation) :=
  .service w _ _ _ _ _ _ _ _

theorem wantreadwrite_acts (self : ConnId) (w : World) : ReflTransGen Action w (wantreadwrite self w) := by
  obtain ⟨ops,r,wr,h⟩ := wantreadwrite_shape self w
  rw [h]
  exact .single (.service w ops r wr _ _ _ _ _)

theorem raiseConnected_own (h : Linked w) (hc : w.server.conn = some self) :
    raiseConnected self w = .ok (IrcServer.connConnected self (w.log self .connected)) := by
  refine raise_only (h.attached self hc).connected (fun t ht => ?_)
  cases ht
  unfold IrcServer.connConnected
  rw [if_pos (show (w.log self .connected).server.conn = some self from hc)]
  change (Function.update w.conns self _ self).connected.size = _
  rw [Function.update_self]

theorem raiseConnected_other (hc : w.server.conn ≠ some self) :
    raiseConnected self w = .ok (w.log self .connected) := by
  refine raise_const (fun _ => ?_)
  rw [IrcServer.connConnected,if_neg (show (w.log self .connected).server.conn ≠ some self from hc)]

theorem raiseConnected_acts (h : Inv w) (hst : w.server.conn = some self → w.server.sendQueue = none ∧
    (w.conns self).connecting = 0 ∧ (w.conns self).tlsConnectSt = .none) : Acts w (raiseConnected self w) := by
  refine .step (log_acts self .connected w) ?_
  by_cases hc : w.server.conn = some self
  · rw [raiseConnected_own h.toLinked hc]
    exact .pure (.single (.establish _ self hc (hst hc).1 (hst hc).2))
  · rw [raiseConnected_other hc]
    exact .pure .refl

theorem destroyQueue_cases (w : World) :
    IrcServer.destroyQueue w = .ok w ∨ IrcServer.destroyQueue w = .error (.wildPointer,w) := by
  unfold IrcServer.destroyQueue
  split
  · exact Or.inl rfl
  · split
    · exact Or.inl rfl
    · exact Or.inr rfl

/-- With a logged out server, what listens to `disconnected` cannot fail. -/
theorem raiseDisconnected_safe (hst : w.server.connst = 0) :
    Traced Effect (fun _ => Safe) w id (IrcServer.raiseDisconnected w) := by
  have ht : Traces none w (IrcServer.raiseDisconnected w) := IrcServer.raiseDisconnected_traces (le_of_eq hst)
  refine ht.faults (I := fun t => t.server.connst = 0) (fun t u hi hs => hs.same.connst.trans hi) hst ?_
  intro t e hi he
  cases he with
  | send _ cmd args hcmd hst => rw [hi] at hst; cases hst
  | noPrefix c m hm => cases hm
  | freedName c m hm => cases hm

theorem connClosed_spec (hc : w.server.conn = some self) (established : Bool) :
    Meets (fun u => ∃ t, IrcServer.raiseDisconnected (IrcServer.hangUp established (w.log self .disconnected)) =
        .ok t ∧ u = IrcServer.awaitReconn t)
      Safe (IrcServer.connClosed self established w) := by
  unfold IrcServer.connClosed
  rw [if_pos hc]
  dsimp only
  generalize w.log self .disconnected = v
  rcases destroyQueue_cases { v with
    ghost.closings := v.ghost.closings ++
      [⟨v.service.tick.count () .activeTick 0,v.server.sending,v.server.recvbuf⟩]
    server.conn := none
    server.reconnticks := if established then QUICKRECONNTICKS else RECONNTICKS
    server.connst := 0 } with hq | hq
  · rw [hq]
    refine Meets.bind (P := fun t => t = _) rfl ?_
    rintro _ rfl
    change Meets _ _ (IrcServer.raiseDisconnected (IrcServer.hangUp established v) >>= _)
    have hsafe := raiseDisconnected_safe (w := IrcServer.hangUp established v) rfl
    cases hr : IrcServer.raiseDisconnected (IrcServer.hangUp established v) with
    | ok t => exact ⟨t,rfl,rfl⟩
    | error e =>
      rw [hr] at hsafe
      exact hsafe.elim fun _ he => he.2
  · rw [hq]
    exact ⟨nofun,nofun,nofun⟩

theorem raiseClosed_own (h : Linked w) (hc : w.server.conn = some self) (established : Bool) :
    raiseClosed self established w = IrcServer.connClosed self established w := by
  refine raise_only (h.attached self hc).closed (fun u hu => ?_)
  have hspec := connClosed_spec hc established
  rw [hu] at hspec
  obtain ⟨t,ht,rfl⟩ := hspec
  exact congrArg Event.size (written_of_effects (hangUp_effects ht) self).events.1

theorem raiseClosed_other (hc : w.server.conn ≠ some self) (established : Bool) :
    raiseClosed self established w = .ok w := by
  refine raise_const (fun _ => ?_)
  rw [IrcServer.connClosed,if_neg hc]

theorem raiseClosed_spec (h : Inv w) (self : ConnId) (established : Bool) :
    Meets (fun t => ReflTransGen Action w t ∧ t.server.conn ≠ some self ∧ t.nconns = w.nconns) Safe
      (raiseClosed self established w) := by
  by_cases hc : w.server.conn = some self
  · rw [raiseClosed_own h.toLinked hc]
    refine Meets.mono (connClosed_spec hc established) ?_ (fun _ he => he)
    rintro u ⟨t,ht,rfl⟩
    have hs := same_of_effects (hangUp_effects ht)
    have hsome : (w.log self .disconnected).server.conn.isSome := Option.isSome_of_eq_some hc
    refine ⟨.head (log_acts self .disconnected w) (.single (.close _ t established hsome ht)),?_,hs.nconns⟩
    change t.server.conn ≠ some self
    rw [hs.conn]
    exact nofun
  · rw [raiseClosed_other hc]
    exact ⟨.refl,hc,rfl⟩

theorem setConn_acts {f : Connection → Connection}
    (hown : w.server.conn = some self → Tweaked w.server.sendQueue.isSome (w.conns self) (f (w.conns self)))
    (hn : (w.conns self).nrecs ≤ 255 → (f (w.conns self)).nrecs ≤ 255) : Action w (w.setConn self f) := by
  by_cases hc : w.server.conn = some self
  · exact .own w self f hc (hown hc)
  · exact .other w self f hc hn

theorem deleteLater_acts (hd : self < w.nconns ∧ w.server.conn ≠ some self) :
    ReflTransGen Action w (deleteLater self w) := by
  unfold deleteLater
  split
  · refine .head (log_acts self .close w) (.head (.doneRegister _ self hd) (.single (.other _ self _ hd.2 ?_)))
    exact fun hn => hn
  · exact .refl

theorem close_acts (h : Inv w) (hself : self < w.nconns) : Acts w (close self w) := by
  refine Meets.bind (Meets.mono (raiseClosed_spec h self _) (fun _ ht => ht) (fun e he => ⟨w,.refl,he⟩)) ?_
  rintro t ⟨ht,hc,hn⟩
  exact ht.trans (deleteLater_acts ⟨hn ▸ hself,hc⟩)

/-! ## Pending writes -/

theorem confirm_other (hc : w.server.conn ≠ some self) (id : Bool) : confirm self id w = .ok w := by
  unfold confirm
  split
  · refine raise_const (fun _ => ?_)
    rw [IrcServer.connDataSent,if_neg hc]
  · rfl

/-- The event for a complete write reaches the server, which then sends its next command. -/
theorem confirm_own {u : World} (hc : u.server.conn = some self)
    (ho : (u.conns self).dataSent.Only () .connDataSent 0) :
    confirm self true u = IrcServer.sendRaw none { u with server.sendcmd := none, server.sending := false } := by
  have hs : IrcServer.connDataSent self u =
      IrcServer.sendRaw none { u with server.sendcmd := none, server.sending := false } := by
    rw [IrcServer.connDataSent,if_pos hc]
  rw [← hs]
  refine raise_only ho (fun t ht => ?_)
  rw [hs] at ht
  exact congrArg Event.size ((sendRaw_outputs ht).written self).events.2.2

/-- A complete write on the server's connection, and the command that follows it. -/
theorem acknowledged_acts (h : Inv w) (hc : w.server.conn = some self) (hn : (w.conns self).nrecs ≠ 0)
    (ht : (w.conns self).tlsWriteSt = .none) (ops : List Entry) (r wr : ℤ → Bool) :
    Acts w (confirm self true { w.setConn self dropRecord with
      ghost.operations := ops, service.readfds := r, service.writefds := wr }) := by
  have hq := ((h.attached self hc).pending hn).2.1
  have hack := Action.acknowledge w self ops r wr hc hn ht
  have ha := (h.attached self hc).established hq
  have hsent : ((w.setConn self dropRecord).conns self).dataSent.Only () .connDataSent 0 := by
    rw [setConn_conns,if_pos rfl]
    exact ha.2.2.2
  have hconf : confirm self true { w.setConn self dropRecord with
      ghost.operations := ops, service.readfds := r, service.writefds := wr } =
      IrcServer.sendRaw none (IrcServer.acknowledged self ops r wr w) := confirm_own hc hsent
  rw [hconf]
  have hon : (IrcServer.acknowledged self ops r wr w).Online := ⟨by change w.server.conn.isSome; rw [hc]; rfl,hq⟩
  exact .step hack (Acts.ofChanges (IrcServer.sendRaw_changes hon nofun))

theorem sent_acts (h : Inv w) (n : ℕ)
    (hn : w.server.conn = some self → (w.conns self).nrecs ≠ 0 ∧ (w.conns self).tlsWriteSt = .none) :
    Acts w (sent self n w) := by
  unfold sent
  dsimp only
  split
  · -- The record stays where it is, with more of it written.
    have ht : ∀ record : WriteRecord,
        record.wrbuf = ((w.conns self).writerecs (w.conns self).baserecidx).wrbuf →
        record.id = ((w.conns self).writerecs (w.conns self).baserecidx).id →
        Action w (w.setConn self fun c =>
          { c with writerecs := Function.update c.writerecs c.baserecidx record }) := by
      intro record hbuf hid
      refine setConn_acts (fun _ => ?_) (fun hn => hn)
      have hget : Function.update (w.conns self).writerecs (w.conns self).baserecidx record
          (w.conns self).baserecidx = record := Function.update_self _ _ _
      exact ⟨rfl,rfl,rfl,rfl,rfl,rfl,rfl,(congrArg WriteRecord.wrbuf hget).trans hbuf,
        (congrArg WriteRecord.id hget).trans hid,Or.inl,Or.inl ⟨rfl,rfl⟩⟩
    split
    · refine .pure (.head (ht _ ?_ ?_) (wantreadwrite_acts self _)) <;> rfl
    · refine .pure (.single (ht _ ?_ ?_)) <;> rfl
  · by_cases hc : w.server.conn = some self
    · obtain ⟨hne,htls⟩ := hn hc
      have hid := ((h.attached self hc).pending hne).2.2.2.2
      rw [hid]
      split
      · refine Traced.bind (acknowledged_acts h hc hne htls w.ghost.operations w.service.readfds
          w.service.writefds) (fun t _ => ?_)
        exact .pure (wantreadwrite_acts self t)
      · obtain ⟨ops,r,wr,hw⟩ := wantreadwrite_shape self (w.setConn self dropRecord)
        rw [hw]
        exact acknowledged_acts h hc hne htls ops r wr
    · have hdrop := Action.other w self dropRecord hc (fun _ => dropRecord_nrecs _)
      have hd : ReflTransGen Action w (wantreadwrite self (w.setConn self dropRecord)) :=
        .head hdrop (wantreadwrite_acts self _)
      split
      · rw [confirm_other (w := w.setConn self dropRecord) hc]
        exact .pure hd
      · obtain ⟨ops,r,wr,hw⟩ := wantreadwrite_shape self (w.setConn self dropRecord)
        have hc' : (wantreadwrite self (w.setConn self dropRecord)).server.conn ≠ some self := by
          rw [hw]
          exact hc
        rw [confirm_other hc']
        exact .pure hd

/-- A change of a connection in fields the invariant does not speak about. -/
theorem field_acts {f : Connection → Connection} (hf : ∀ c,
    (f c).connected = c.connected ∧ (f c).closed = c.closed ∧ (f c).dataReceived = c.dataReceived ∧
    (f c).dataSent = c.dataSent ∧ (f c).tls = c.tls ∧ (f c).nrecs = c.nrecs ∧ (f c).baserecidx = c.baserecidx ∧
    (f c).writerecs = c.writerecs ∧ (f c).tlsWriteSt = c.tlsWriteSt ∧ (f c).connecting = c.connecting ∧
    (f c).tlsConnectSt = c.tlsConnectSt) : Action w (w.setConn self f) := by
  obtain ⟨h1,h2,h3,h4,h5,h6,h7,h8,h9,h10,h11⟩ := hf (w.conns self)
  refine setConn_acts (fun _ => ?_) (fun hn => h6 ▸ hn)
  exact ⟨h1,h2,h3,h4,h5,h6,h7,by rw [h8],by rw [h8],fun hw => Or.inl (h9 ▸ hw),Or.inl ⟨h10,h11⟩⟩

theorem dowrite_acts (h : Inv w) (env : Env) (hself : self < w.nconns)
    (hn : w.server.conn = some self → (w.conns self).nrecs ≠ 0) : Acts w (dowrite env self w) := by
  unfold dowrite
  split
  · next htls =>
    refine .step (log_acts self .sslWrite w) ?_
    have hlog := h.action (log_acts self .sslWrite w)
    dsimp only
    split
    · next n _ =>
      have ht : Action (w.log self .sslWrite)
          ((w.log self .sslWrite).setConn self fun c => { c with tlsWriteSt := .none }) := by
        refine setConn_acts (fun _ => ?_) (fun hn => hn)
        exact ⟨rfl,rfl,rfl,rfl,rfl,rfl,rfl,rfl,rfl,fun hw => absurd rfl hw,Or.inl ⟨rfl,rfl⟩⟩
      refine .step ht (sent_acts (hlog.action ht) n (fun hc => ?_))
      rw [setConn_conns,if_pos rfl]
      exact ⟨hn hc,rfl⟩
    · exact close_acts hlog hself
    · exact close_acts hlog hself
    · have ht : ∀ st, Action (w.log self .sslWrite)
          ((w.log self .sslWrite).setConn self fun c => { c with tlsWriteSt := st }) := by
        refine fun st => setConn_acts (fun hc => ?_) (fun hn => hn)
        exact ⟨rfl,rfl,rfl,rfl,rfl,rfl,rfl,rfl,rfl,fun _ => Or.inr ⟨htls,hn hc⟩,Or.inl ⟨rfl,rfl⟩⟩
      exact .step (ht _) (.pure (wantreadwrite_acts self _))
  · next htls =>
    refine .step (log_acts self .write w) ?_
    have hlog := h.action (log_acts self .write w)
    dsimp only
    split
    · next n _ =>
      refine sent_acts hlog n (fun hc => ⟨hn hc,(h.attached self hc).plain ?_⟩)
      simpa using htls
    · exact .pure .refl
    · exact close_acts hlog hself

/-! ## Reading -/

/-- The server handles the data if it is its own connection and established. -/
theorem raiseDataReceived_spec (h : Inv w) (env : Env) (self : ConnId) {data : Bytes}
    (hlen : data.length ≤ CONNBUFSZ) :
    Meets (fun t => t = w.log self .dataReceived ∨
        ((w.log self .dataReceived).Online ∧ IrcServer.Reads (w.log self .dataReceived) data t)) Safe
      (raiseDataReceived env self data w) := by
  have hlog := h.action (log_acts self .dataReceived w)
  change Meets _ _ ((w.log self .dataReceived).raise _ _ 0)
  generalize w.log self .dataReceived = v at hlog
  by_cases hc : v.server.conn = some self
  · by_cases hq : v.server.sendQueue.isSome
    · have hon : v.Online := ⟨by rw [hc]; rfl,hq⟩
      have hfit : v.server.recvbuf.length + data.length ≤ RECVBUFSZ := Nat.add_le_add hlog.recvbuf hlen
      have hspec := IrcServer.connDataReceived_spec env hon hc hfit
      rw [raise_only ((hlog.attached self hc).established hq).2.2.1 (fun t ht => ?_)]
      · refine Meets.mono hspec (fun t ht => Or.inr ⟨hon,ht⟩) (fun e he => ?_)
        obtain ⟨t,_,ht⟩ := he.steps
        exact ht.safe
      · rw [ht] at hspec
        exact congrArg Event.size (written_of_received hspec.steps self).events.2.1
    · rw [raise_none ((hlog.attached self hc).fresh (by simpa using hq)).1]
      exact Or.inl rfl
  · rw [raise_const (fun _ => IrcServer.connDataReceived_other env data hc)]
    exact Or.inl rfl

theorem raiseDataReceived_acts (h : Inv w) (env : Env) (self : ConnId) {data : Bytes}
    (hlen : data.length ≤ CONNBUFSZ) : Acts w (raiseDataReceived env self data w) := by
  refine Meets.mono (raiseDataReceived_spec h env self hlen) (fun t ht => ?_) (fun e he => ⟨w,.refl,he⟩)
  rcases ht with rfl | ⟨hon,ht⟩
  · exact .single (log_acts self .dataReceived w)
  · exact .head (log_acts self .dataReceived w) (.single (.receive _ t data hon ht))

theorem doread_acts (h : Inv w) (env : Env) (hself : self < w.nconns) : Acts w (doread env self w) := by
  unfold doread
  have hfield : ∀ (v : World) st, Action v (v.setConn self fun c => { c with tlsReadSt := st }) :=
    fun v st => field_acts (fun _ => ⟨rfl,rfl,rfl,rfl,rfl,rfl,rfl,rfl,rfl,rfl,rfl⟩)
  split
  · refine .step (log_acts self .sslRead w) ?_
    have hlog := h.action (log_acts self .sslRead w)
    dsimp only
    split
    · next chunk _ =>
      refine .step (hfield _ .none) ?_
      refine (raiseDataReceived_acts (hlog.action (hfield _ .none)) env self chunk.fits).bind (fun t _ => ?_)
      exact .pure (wantreadwrite_acts self t)
    · exact close_acts hlog hself
    · exact close_acts hlog hself
    · exact .step (hfield _ _) (.pure (wantreadwrite_acts self _))
  · refine .step (log_acts self .read w) ?_
    have hlog := h.action (log_acts self .read w)
    dsimp only
    split
    · next chunk _ =>
      refine (raiseDataReceived_acts hlog env self chunk.fits).bind (fun t _ => ?_)
      exact .pure (wantreadwrite_acts self t)
    · exact .pure .refl
    · exact close_acts hlog hself

/-! ## Deletion -/

theorem drain_acts {n : ℕ} (hc : w.server.conn ≠ some self) (hn : (w.conns self).nrecs ≤ n) (hmax : n ≤ 255) :
    Acts w (drain self n w) := by
  induction n generalizing w with
  | zero =>
    rw [drain,if_pos (Nat.le_zero.mp hn)]
    exact .pure .refl
  | succ n ih =>
    rw [drain]
    split
    · exact .pure .refl
    · next hne =>
      rw [confirm_other hc]
      have hdrop := Action.other w self dropRecord hc (fun _ => dropRecord_nrecs _)
      refine .step hdrop (ih hc ?_ (by omega))
      rw [setConn_conns,if_pos rfl,dropRecord]
      change ((w.conns self).nrecs + 255) % 256 ≤ n
      omega

theorem destroy_acts (h : Inv w) (hself : self < w.nconns) (hc : w.server.conn ≠ some self) :
    Acts w (destroy self w) := by
  unfold destroy
  split
  · exact .pure .refl
  · refine .step (log_acts self .destroy w) ?_
    replace h := h.action (log_acts self .destroy w)
    replace hself : self < (w.log self .destroy).nconns := hself
    replace hc : (w.log self .destroy).server.conn ≠ some self := hc
    dsimp only
    generalize w.log self .destroy = w at h hself hc
    have hfd : Action w (Service.unregisterWrite (w.conns self).fd (Service.unregisterRead (w.conns self).fd w)) :=
      .service w _ _ _ _ _ _ _ _
    have hdrain := drain_acts (w := Service.unregisterWrite (w.conns self).fd
      (Service.unregisterRead (w.conns self).fd w)) hc (Nat.le_refl _) (h.records self hself)
    refine .step hfd (hdrain.bind (fun t _ => ?_))
    have hlast : ∀ u : World, ReflTransGen Action u { u with
        service.tick :=
          (u.service.tick.unregister () (.checkPendingTls self) 0).unregister () (.checkPendingConnection self) 0
        service.readyRead := u.service.readyRead.unregister () (.readConnection self) (w.conns self).fd
        service.readyWrite := u.service.readyWrite.unregister () (.writeConnection self) (w.conns self).fd } := by
      intro u
      refine .head (.tickUnregister u (.checkPendingTls self) not_false) ?_
      refine .head (.tickUnregister _ (.checkPendingConnection self) not_false) ?_
      refine .head (.readUnregister _ (.readConnection self) (w.conns self).fd) ?_
      exact .single (.writeUnregister _ (.writeConnection self) (w.conns self).fd)
    split
    · exact .step (.doneUnregister _ (.deleteConnection self)) (.pure (hlast _))
    · exact .step (log_acts self .close _) (.pure (hlast _))

theorem deleteConnection_acts (h : Inv w) (hd : self < w.nconns ∧ w.server.conn ≠ some self) :
    Acts w (deleteConnection self w) := by
  have ha := Action.other w self (fun c => { c with deleteScheduled := 2 }) hd.2 (fun hn => hn)
  exact .step ha (destroy_acts (h.action ha) hd.1 hd.2)

/-! ## Connecting -/

theorem not_queued (h : Inv w) (hc : w.server.conn = some self)
    (hst : (w.conns self).connecting ≠ 0 ∨ (w.conns self).tlsConnectSt ≠ .none) : w.server.sendQueue = none := by
  by_contra hq
  have he := (h.attached self hc).established (Option.isSome_iff_ne_none.mpr hq)
  rcases hst with hst | hst
  · exact hst he.1
  · exact hst he.2.1

theorem countdown_acts (h : Inv w) (hne : (w.conns self).connecting ≠ 0) :
    Action w (w.setConn self fun c => { c with connecting := c.connecting - 1 }) := by
  refine setConn_acts (fun hc => ?_) (fun hn => hn)
  have hq := not_queued h hc (Or.inl hne)
  exact ⟨rfl,rfl,rfl,rfl,rfl,rfl,rfl,rfl,rfl,Or.inl,
    Or.inr ⟨by rw [hq]; rfl,fun _ => (h.attached self hc).connecting hne⟩⟩

theorem initiate_acts (h : Inv w) (hne : (w.conns self).connecting ≠ 0) :
    Action w (w.setConn self fun c => { c with connecting := 0 }) := by
  refine setConn_acts (fun hc => ?_) (fun hn => hn)
  have hq := not_queued h hc (Or.inl hne)
  exact ⟨rfl,rfl,rfl,rfl,rfl,rfl,rfl,rfl,rfl,Or.inl,Or.inr ⟨by rw [hq]; rfl,fun hn => absurd rfl hn⟩⟩

theorem unregisterWrite_acts (fd : ℤ) (w : World) : Action w (Service.unregisterWrite fd w) :=
  .service w _ _ _ _ _ _ _ _

theorem checkPendingConnection_acts (h : Inv w) (hself : self < w.nconns) :
    Acts w (checkPendingConnection self w) := by
  unfold checkPendingConnection
  split
  · next hne =>
    have ht := countdown_acts h hne
    refine .step ht ?_
    dsimp only
    split
    · have hs := unregisterWrite_acts
      exact .step (hs _ _) (close_acts ((h.action ht).action (hs _ _)) hself)
    · exact .pure .refl
  · exact .pure .refl

theorem tlsCountdown_acts (self : ConnId) (w : World) :
    Action w (w.setConn self fun c => { c with tlsConnectTicks := c.tlsConnectTicks - 1 }) :=
  field_acts (fun _ => ⟨rfl,rfl,rfl,rfl,rfl,rfl,rfl,rfl,rfl,rfl,rfl⟩)

theorem checkPendingTls_acts (h : Inv w) (hself : self < w.nconns) : Acts w (checkPendingTls self w) := by
  unfold checkPendingTls
  split
  · have ht := tlsCountdown_acts self w
    refine .step ht ?_
    dsimp only
    split
    · exact close_acts (h.action ht) hself
    · exact .pure .refl
  · exact .pure .refl

theorem dohandshake_acts (h : Inv w) (env : Env) (hself : self < w.nconns)
    (hst : w.server.conn = some self → w.server.sendQueue = none ∧ (w.conns self).connecting = 0) :
    Acts w (dohandshake env self w) := by
  refine .step (log_acts self .sslConnect w) ?_
  have hlog := h.action (log_acts self .sslConnect w)
  replace hst : (w.log self .sslConnect).server.conn = some self →
      (w.log self .sslConnect).server.sendQueue = none ∧ ((w.log self .sslConnect).conns self).connecting = 0 := hst
  replace hself : self < (w.log self .sslConnect).nconns := hself
  unfold dohandshake
  dsimp only
  generalize w.log self .sslConnect = v at hlog hst hself
  have htls : ∀ st, Action v (v.setConn self fun c => { c with tlsConnectSt := st }) := by
    refine fun st => setConn_acts (fun hc => ?_) (fun hn => hn)
    obtain ⟨hq,hcon⟩ := hst hc
    exact ⟨rfl,rfl,rfl,rfl,rfl,rfl,rfl,rfl,rfl,Or.inl,Or.inr ⟨by rw [hq]; rfl,fun hne => absurd hcon hne⟩⟩
  split
  · have h1 := htls .none
    have h2 := Action.tickUnregister (v.setConn self fun c => { c with tlsConnectSt := .none }) (.checkPendingTls self) not_false
    have h3 : ∀ u : World, Action u (u.setConn self fun c => { c with tlsConnectTicks := 0 }) :=
      fun u => field_acts (fun _ => ⟨rfl,rfl,rfl,rfl,rfl,rfl,rfl,rfl,rfl,rfl,rfl⟩)
    refine .step h1 (.step h2 (.step (h3 _) ?_))
    refine (raiseConnected_acts (((hlog.action h1).action h2).action (h3 _)) ?_).bind (fun t _ => ?_)
    · intro hc
      obtain ⟨hq,hcon⟩ := hst hc
      exact ⟨hq,by simp [World.setConn,hcon],by simp [World.setConn]⟩
    · exact .pure (wantreadwrite_acts self t)
  · have h1 := Action.tickUnregister v (.checkPendingTls self) not_false
    exact .step h1 (close_acts (hlog.action h1) hself)
  · have h1 := Action.tickUnregister v (.checkPendingTls self) not_false
    exact .step h1 (close_acts (hlog.action h1) hself)
  · exact .step (htls _) (.pure (wantreadwrite_acts self _))

/-- A TLS connection goes on with the handshake, any other one is established. -/
theorem initiated_acts (h : Inv w) (env : Env) (hself : self < w.nconns) (hst : w.server.conn = some self →
    w.server.sendQueue = none ∧ (w.conns self).connecting = 0 ∧ (w.conns self).tlsConnectSt = .none) (tls : Bool) :
    Acts w
      (if tls then
        let w := w.setConn self fun c => { c with tlsConnectTicks := CONNTICKS }
        dohandshake env self { w with service.tick := w.service.tick.register () (.checkPendingTls self) 0 }
      else raiseConnected self (wantreadwrite self w)) := by
  split
  · have h1 : Action w (w.setConn self fun c => { c with tlsConnectTicks := CONNTICKS }) :=
      field_acts (fun _ => ⟨rfl,rfl,rfl,rfl,rfl,rfl,rfl,rfl,rfl,rfl,rfl⟩)
    have h2 := Action.tickRegister (w.setConn self fun c => { c with tlsConnectTicks := CONNTICKS })
      (.checkPendingTls self) ⟨nofun,nofun⟩ not_false hself
    refine .step h1 (.step h2 (dohandshake_acts ((h.action h1).action h2) env hself (fun hc => ?_)))
    exact ⟨(hst hc).1,by simp [World.setConn,(hst hc).2.1]⟩
  · obtain ⟨ops,r,wr,hw⟩ := wantreadwrite_shape self w
    have h1 := wantreadwrite_acts self w
    have hinv := h.actions h1
    rw [hw] at h1 hinv ⊢
    exact .after h1 (raiseConnected_acts hinv hst)

theorem writeConnection_acts (h : Inv w) (env : Env) (hself : self < w.nconns) :
    Acts w (writeConnection env self w) := by
  unfold writeConnection
  dsimp only
  split
  · next hne =>
    have h1 := Action.tickUnregister w (.checkPendingConnection self) not_false
    have h2 := log_acts self .getsockopt
      { w with service.tick := w.service.tick.unregister () (.checkPendingConnection self) 0 }
    refine .step h1 (.step h2 ?_)
    have hlog := (h.action h1).action h2
    split
    · exact close_acts hlog hself
    · have h3 := initiate_acts hlog hne
      refine .step h3 (initiated_acts (hlog.action h3) env hself (fun hc => ?_) _)
      have hq : w.server.sendQueue = none := not_queued h hc (Or.inl hne)
      have hst : (w.conns self).tlsConnectSt = .none := (h.attached self hc).connecting hne
      rw [setConn_conns,if_pos rfl]
      exact ⟨hq,rfl,hst⟩
  · next heq =>
    have heq : (w.conns self).connecting = 0 := not_not.mp heq
    have hshake : (w.conns self).tlsConnectSt ≠ .none → Acts w (dohandshake env self w) :=
      fun hst => dohandshake_acts h env hself (fun hc => ⟨not_queued h hc (Or.inr hst),heq⟩)
    split
    · next hst => exact hshake (by rw [hst]; exact nofun)
    · split
      · exact doread_acts h env hself
      · split
        · next hw =>
          exact dowrite_acts h env hself (fun hc => (h.attached self hc).writing (by rw [hw]; exact nofun))
        · split
          · exact .pure (wantreadwrite_acts self w)
          · next hn => exact dowrite_acts h env hself (fun _ => hn)

theorem readConnection_acts (h : Inv w) (env : Env) (hself : self < w.nconns) :
    Acts w (readConnection env self w) := by
  unfold readConnection
  dsimp only
  split
  · next hst =>
    have hne : (w.conns self).tlsConnectSt ≠ .none := by
      rw [hst]
      exact nofun
    refine dohandshake_acts h env hself (fun hc => ⟨not_queued h hc (Or.inr hne),?_⟩)
    by_contra hcon
    exact hne ((h.attached self hc).connecting hcon)
  · split
    · exact doread_acts h env hself
    · split
      · next hw =>
        exact dowrite_acts h env hself (fun hc => (h.attached self hc).writing (by rw [hw]; exact nofun))
      · split
        · exact .pure .refl
        · exact doread_acts h env hself

end Connection

/-! ## The server -/

theorem Inv.logged (h : Inv w) : 0 < w.server.connst → w.Online := fun hst => h.online (ne_of_gt hst)

namespace IrcServer

theorem closeConn_acts (h : Inv w) (hc : w.server.conn.isSome) : Acts w (closeConn w) := by
  obtain ⟨conn,hconn⟩ := Option.isSome_iff_exists.mp hc
  rw [closeConn,hconn]
  exact Connection.close_acts h (h.created conn hconn)

theorem connect_acts (env : Env) (w : World) : ReflTransGen Action w (connect env w).2 := by
  by_cases hc : w.server.conn = none
  · exact .single (.connect w env hc)
  · rw [connect,if_pos (Option.isSome_iff_ne_none.mpr hc)]

theorem connWaitReconn_acts (env : Env) (w : World) : ReflTransGen Action w (connWaitReconn env w) := by
  have h1 := Action.counters w (w.server.reconnticks - 1) w.server.loginticks w.server.idleticks
    w.server.sendcreditticks
  refine .head h1 ?_
  unfold connWaitReconn
  dsimp only
  split
  · refine (connect_acts env _).trans ?_
    split
    · exact .single (.counters _ RECONNTICKS _ _ _)
    · exact .single (.tickUnregister _ .connWaitReconn not_false)
  · exact .refl

theorem connWaitLogin_acts (h : Inv w) (hn : 0 < w.service.tick.count () .connWaitLogin 0) :
    Acts w (connWaitLogin w) := by
  have hon : w.Online := h.online (ne_of_lt (h.waiting hn))
  unfold connWaitLogin
  have h1 := Action.counters w w.server.reconnticks (w.server.loginticks - 1) w.server.idleticks
    w.server.sendcreditticks
  refine .step h1 ?_
  dsimp only
  split
  · have h2 := fun t => Action.tickUnregister t .connWaitLogin not_false
    exact .step (h2 _) (closeConn_acts ((h.action h1).action (h2 _)) hon.conn)
  · exact .pure .refl

/-- The first thing `activeTick` does. -/
theorem credit_acts (w : World) : ∃ credits, ReflTransGen Action w { w with server.sendcreditticks := credits } ∧
    (if w.server.sendcreditticks < FULLSENDCREDIT then
      { w with server.sendcreditticks := w.server.sendcreditticks + 1 } else w) =
      { w with server.sendcreditticks := credits } := by
  split
  · exact ⟨_,.single (.counters w _ _ _ _),rfl⟩
  · exact ⟨_,.refl,rfl⟩

theorem idle_acts (w : World) : Action w { w with server.idleticks := w.server.idleticks - 1 } :=
  .counters w w.server.reconnticks w.server.loginticks (w.server.idleticks - 1) w.server.sendcreditticks

theorem activeTick_acts (h : Inv w) (hon : w.Online) : Acts w (activeTick w) := by
  obtain ⟨credits,h1,he⟩ := credit_acts w
  unfold activeTick
  rw [he]
  have hon' : World.Online { w with server.sendcreditticks := credits } := ⟨hon.conn,hon.sendQueue⟩
  refine .after h1 (Changes.acts_bind (sendRaw_changes hon' nofun) fun t ht => ?_)
  have hont := online_of_changes ht hon'
  have hinv := (h.actions h1).actions (actions_of_changes ht)
  have h2 := idle_acts t
  have hon'' : World.Online { t with server.idleticks := t.server.idleticks - 1 } := ⟨hont.conn,hont.sendQueue⟩
  refine .step h2 ?_
  dsimp only
  split
  · exact Acts.ofChanges (sendRawCmd_changes hon'' _ _)
  · split
    · have h3 := fun u => Action.tickUnregister u .activeTick not_false
      exact .step (h3 _) (closeConn_acts ((hinv.action h2).action (h3 _)) hont.conn)
    · exact .pure .refl

theorem disconnect_acts (h : Inv w) : Acts w (disconnect w) := by
  have h1 := Action.tickUnregister w .connWaitLogin not_false
  have h2 := Action.tickUnregister { w with service.tick := w.service.tick.unregister () .connWaitLogin 0 }
    .connWaitReconn not_false
  have hinv := (h.action h1).action h2
  refine .step h1 (.step h2 ?_)
  unfold disconnect
  dsimp only
  split
  · next hst => exact Acts.ofChanges (sendRawCmd_changes (hinv.logged hst) _ _)
  · split
    · next conn hc => exact Connection.close_acts hinv (h.created conn hc)
    · exact .pure .refl

/-! ### Parting -/

theorem part_acts (h : Inv w) (channel : Bytes) : Acts w (part channel w) := by
  cases hget : w.server.channels.get channel with
  | none =>
    rw [part,hget]
    exact .pure .refl
  | some chan =>
    obtain rfl := (h.name_of_get hget).2
    exact Acts.ofChanges (Changes.ofCalls (Calls.ofTraces (part_traces hget : Traces none w _)
      (fun _ he => ⟨_,.part chan hget he⟩) h.logged))

end IrcServer
end LibIrcBot
