import LibIrcBot.System.Moves

/-! # The life of a connection

A connection is created as the connection of the server, stays open as long as it is, is
closed when the server loses it, and is destroyed by the next raise of `eventsDone`.
-/
namespace LibIrcBot
open CString Effects Relation Outcome

variable {w w' : World} {live sane : Prop}

/-! ## The interest of a connection -/

namespace Connection

theorem wantreadwrite_eq (self : ConnId) (w : World) : wantreadwrite self w = { w.log self .wantreadwrite with
    service.readfds := Function.update w.service.readfds (w.conns self).fd (w.conns self).wantsRead
    service.writefds := Function.update w.service.writefds (w.conns self).fd (w.conns self).wantsWrite } := by
  change (if (w.conns self).wantsRead then Service.registerRead (w.conns self).fd
      (if (w.conns self).wantsWrite then Service.registerWrite (w.conns self).fd (w.log self .wantreadwrite)
        else Service.unregisterWrite (w.conns self).fd (w.log self .wantreadwrite))
    else Service.unregisterRead (w.conns self).fd
      (if (w.conns self).wantsWrite then Service.registerWrite (w.conns self).fd (w.log self .wantreadwrite)
        else Service.unregisterWrite (w.conns self).fd (w.log self .wantreadwrite))) = _
  cases (w.conns self).wantsRead <;> cases (w.conns self).wantsWrite <;> rfl

end Connection

/-! ## The shapes of creation, closing and destruction -/

def World.noted (w : World) (conn : ConnId) (operation : Operation) : ℕ :=
  w.ghost.operations.countP fun e => e.self = conn && e.operation = operation

theorem noted_append (w : World) (entries : List Entry) (conn : ConnId) (operation : Operation)
    (hw : w'.ghost.operations = w.ghost.operations ++ entries) : w'.noted conn operation =
      w.noted conn operation + entries.countP fun e => e.self = conn && e.operation = operation := by
  rw [World.noted,hw,List.countP_append,World.noted]

theorem noted_log (w : World) (self conn : ConnId) (o operation : Operation) :
    (w.log self o).noted conn operation =
      w.noted conn operation + if self = conn ∧ o = operation then 1 else 0 := by
  rw [noted_append w _ conn operation rfl]
  simp [List.countP_singleton]

/-- Without a connection nothing is written to one. -/
theorem same_of_exchanges (h : ReflTransGen Exchange w w') (hc : w.server.conn = none) : w.SameNet w' := by
  induction h with
  | refl => exact .refl w
  | tail ht h ih =>
    cases h with
    | same h => exact ih.trans h
    | write conn buf hconn =>
      rw [ih.conn,hc] at hconn
      cases hconn

structure World.Closes (w w' : World) (c : ConnId) : Prop where
  conns : w'.conns = Function.update w.conns c { w.conns c with deleteScheduled := 1 }
  nconns : w'.nconns = w.nconns
  conn : w'.server.conn = none
  queued : w'.server.sendQueue.isSome = false
  operations : w'.ghost.operations =
    w.ghost.operations ++ [⟨c,.disconnected,w.conns c⟩,⟨c,.close,w.conns c⟩]
  tick : ∀ (h : TickHandler) (id : ℤ), h.IsPending → w'.service.tick.count () h id = w.service.tick.count () h id
  readyRead : w'.service.readyRead = w.service.readyRead
  readyWrite : w'.service.readyWrite = w.service.readyWrite
  eventsDone : w'.service.eventsDone = w.service.eventsDone.register () (.deleteConnection c) 0
  readfds : w'.service.readfds = w.service.readfds
  writefds : w'.service.writefds = w.service.writefds
  todo : w'.service.todo = w.service.todo
  slot : w'.service.slot = w.service.slot
  selecting : w'.service.selecting = w.service.selecting

theorem close_shape {self : ConnId} {established : Bool} {t : World}
    (hd : (w.conns self).deleteScheduled = 0)
    (h : IrcServer.raiseDisconnected (IrcServer.hangUp established (w.log self .disconnected)) = .ok t) :
    w.Closes (Connection.deleteLater self (IrcServer.awaitReconn t)) self := by
  have hs := same_of_exchanges (exchanges_of_effects (hangUp_effects h)) rfl
  have hconns : t.conns = w.conns := hs.conns
  have hops : t.ghost.operations = w.ghost.operations ++ [⟨self,.disconnected,w.conns self⟩] := hs.operations
  unfold Connection.deleteLater
  rw [if_pos (show ((IrcServer.awaitReconn t).conns self).deleteScheduled = 0 from hconns ▸ hd)]
  constructor
  · change Function.update t.conns self { t.conns self with deleteScheduled := 1 } = _
    rw [hconns]
  · exact hs.nconns
  · exact hs.conn
  · exact hs.queued
  · change t.ghost.operations ++ [⟨self,.close,t.conns self⟩] = _
    rw [hops,hconns,List.append_assoc]
    rfl
  · intro h id hh
    change ((t.service.tick.unregister () .connWaitLogin 0).register () .connWaitReconn 0).count () h id = _
    rw [Event.count_register_ne _ (pending_ne (t := .connWaitReconn) not_false hh),
      Event.count_unregister_ne _ (pending_ne (t := .connWaitLogin) not_false hh)]
    exact hs.tick h id hh
  · exact hs.readyRead
  · exact hs.readyWrite
  · change t.service.eventsDone.register () _ 0 = _
    rw [hs.eventsDone]
    rfl
  · exact hs.readfds
  · exact hs.writefds
  · exact hs.todo
  · exact hs.slot
  · exact hs.selecting

structure World.Destroys (w w' : World) (c : ConnId) : Prop where
  other : ∀ d, d ≠ c → w'.conns d = w.conns d
  scheduled : (w'.conns c).deleteScheduled = 2
  nrecs : (w'.conns c).nrecs = 0
  fields : (w'.conns c).fd = (w.conns c).fd ∧ (w'.conns c).tls = (w.conns c).tls ∧
    (w'.conns c).connecting = (w.conns c).connecting ∧
    (w'.conns c).tlsConnectSt = (w.conns c).tlsConnectSt ∧
    (w'.conns c).tlsReadSt = (w.conns c).tlsReadSt ∧ (w'.conns c).tlsWriteSt = (w.conns c).tlsWriteSt
  nconns : w'.nconns = w.nconns
  conn : w'.server.conn = w.server.conn
  queued : w'.server.sendQueue = w.server.sendQueue
  operations : w'.ghost.operations =
    w.ghost.operations ++ [⟨c,.destroy,{ w.conns c with deleteScheduled := 2 }⟩]
  tick : w'.service.tick =
    (w.service.tick.unregister () (.checkPendingTls c) 0).unregister () (.checkPendingConnection c) 0
  readyRead : w'.service.readyRead = w.service.readyRead.unregister () (.readConnection c) (w.conns c).fd
  readyWrite : w'.service.readyWrite = w.service.readyWrite.unregister () (.writeConnection c) (w.conns c).fd
  eventsDone : w'.service.eventsDone = w.service.eventsDone.unregister () (.deleteConnection c) 0
  readfds : w'.service.readfds = Function.update w.service.readfds (w.conns c).fd false
  writefds : w'.service.writefds = Function.update w.service.writefds (w.conns c).fd false
  todo : w'.service.todo = w.service.todo
  slot : w'.service.slot = w.service.slot
  selecting : w'.service.selecting = w.service.selecting

theorem setConn_eq {self : ConnId} {f : Connection → Connection} (h : f (w.conns self) = w.conns self) :
    w.setConn self f = w := by
  rw [World.setConn,h,Function.update_eq_self]

/-- The loop over the records of a closed connection drops them all. -/
theorem drain_shape {self : ConnId} {n : ℕ} (hc : w.server.conn ≠ some self)
    (h : Connection.drain self n w = .ok w') :
    ∃ base, w' = w.setConn self fun c => { c with nrecs := 0, baserecidx := base } := by
  have hidle : (w.conns self).nrecs = 0 →
      w = w.setConn self fun c => { c with nrecs := 0, baserecidx := (w.conns self).baserecidx } :=
    fun hn => (setConn_eq (by rw [← hn])).symm
  induction n generalizing w with
  | zero =>
    rw [Connection.drain] at h
    split at h
    · next hn => exact ⟨_,(Except.ok.inj h).symm.trans (hidle hn)⟩
    · cases h
  | succ n ih =>
    rw [Connection.drain] at h
    split at h
    · next hn => exact ⟨_,(Except.ok.inj h).symm.trans (hidle hn)⟩
    · rw [Connection.confirm_other hc] at h
      obtain ⟨base,hw⟩ := ih (w := w.setConn self Connection.dropRecord) hc h
        fun hn => (setConn_eq (by rw [← hn])).symm
      refine ⟨base,?_⟩
      rw [hw]
      simp [World.setConn,Connection.dropRecord]

theorem deleteConnection_shape {self : ConnId} (hc : w.server.conn ≠ some self)
    (h : Connection.deleteConnection self w = .ok w') : w.Destroys w' self := by
  unfold Connection.deleteConnection Connection.destroy at h
  rw [if_neg (by simp [World.setConn])] at h
  dsimp only at h
  cases hd : Connection.drain self _ _ with
  | error e =>
    rw [hd] at h
    cases h
  | ok t =>
    rw [hd] at h
    obtain ⟨base,rfl⟩ := drain_shape (by exact hc) hd
    cases h
    clear hd
    constructor
    case other =>
      intro d hne
      simp [World.setConn,World.log,Service.unregisterRead,Service.unregisterWrite,hne]
    all_goals simp [World.setConn,World.log,Service.unregisterRead,Service.unregisterWrite]

/-- A connection that `IrcServer_connect` creates. -/
structure Connection.Created (c : Connection) (fd : ℤ) (tls : Bool) : Prop where
  fd : c.fd = fd
  tls : c.tls = tls
  handling : c.handling = false
  connecting : c.connecting = CONNTICKS
  tlsConnectSt : c.tlsConnectSt = .none
  tlsReadSt : c.tlsReadSt = .none
  tlsWriteSt : c.tlsWriteSt = .none
  deleteScheduled : c.deleteScheduled = 0
  nrecs : c.nrecs = 0

/-- A connection is created as the connection of the server. -/
structure World.Creates (w w' : World) (fd : ℤ) (c : Connection) : Prop where
  created : Connection.Created c fd w.server.tls
  conns : w'.conns = Function.update w.conns w.nconns c
  nconns : w'.nconns = w.nconns + 1
  conn : w'.server.conn = some w.nconns
  queued : w'.server.sendQueue = w.server.sendQueue
  operations : w'.ghost.operations = w.ghost.operations
  tick : w'.service.tick = w.service.tick.register () (.checkPendingConnection w.nconns) 0
  readyRead : w'.service.readyRead = w.service.readyRead.register () (.readConnection w.nconns) fd
  readyWrite : w'.service.readyWrite = w.service.readyWrite.register () (.writeConnection w.nconns) fd
  eventsDone : w'.service.eventsDone = w.service.eventsDone
  readfds : w'.service.readfds = w.service.readfds
  writefds : w'.service.writefds = Function.update w.service.writefds fd true
  todo : w'.service.todo = w.service.todo
  slot : w'.service.slot = w.service.slot
  selecting : w'.service.selecting = w.service.selecting

theorem connect_creates (env : Env) (hc : w.server.conn = none) : (IrcServer.connect env w).2 = w ∨
    ∃ fd c, env.socket = some fd ∧ w.Creates (IrcServer.connect env w).2 fd c := by
  unfold IrcServer.connect
  rw [if_neg (by simp [hc])]
  cases hs : env.socket with
  | none => exact Or.inl rfl
  | some fd =>
    refine Or.inr ⟨fd,_,rfl,?_,Function.update_idem _ _ _,rfl,rfl,rfl,rfl,rfl,rfl,rfl,rfl,rfl,rfl,rfl,rfl,rfl⟩
    simp only [Service.registerWrite,Function.update_self]
    exact ⟨rfl,rfl,rfl,rfl,rfl,rfl,rfl,rfl,rfl⟩

/-! ## Moves that neither create a connection nor close one -/

structure World.Steady (w w' : World) : Prop where
  nconns : w'.nconns = w.nconns
  conn : w'.server.conn = w.server.conn
  scheduled : ∀ c, (w'.conns c).deleteScheduled = (w.conns c).deleteScheduled
  fd : ∀ c, (w'.conns c).fd = (w.conns c).fd
  connecting : ∀ c, (w.conns c).connecting = 0 → (w'.conns c).connecting = 0
  noted : ∀ c operation, ¬ operation.IsCall → w'.noted c operation = w.noted c operation
  tick : ∀ (h : TickHandler) (id : ℤ), h.IsPending → w'.service.tick.count () h id ≤ w.service.tick.count () h id
  readyRead : w'.service.readyRead = w.service.readyRead
  readyWrite : w'.service.readyWrite = w.service.readyWrite
  eventsDone : w'.service.eventsDone = w.service.eventsDone
  todo : w'.service.todo = w.service.todo
  slot : w'.service.slot = w.service.slot
  selecting : w'.service.selecting = w.service.selecting

namespace World.Steady

theorem refl (w : World) : w.Steady w where
  nconns := rfl
  conn := rfl
  scheduled := fun _ => rfl
  fd := fun _ => rfl
  connecting := fun _ h => h
  noted := fun _ _ _ => rfl
  tick := fun _ _ _ => le_refl _
  readyRead := rfl
  readyWrite := rfl
  eventsDone := rfl
  todo := rfl
  slot := rfl
  selecting := rfl

theorem trans {w'' : World} (h : w.Steady w') (h' : w'.Steady w'') : w.Steady w'' where
  nconns := h'.nconns.trans h.nconns
  conn := h'.conn.trans h.conn
  scheduled := fun c => (h'.scheduled c).trans (h.scheduled c)
  fd := fun c => (h'.fd c).trans (h.fd c)
  connecting := fun c hc => h'.connecting c (h.connecting c hc)
  noted := fun c o ho => (h'.noted c o ho).trans (h.noted c o ho)
  tick := fun t id ht => (h'.tick t id ht).trans (h.tick t id ht)
  readyRead := h'.readyRead.trans h.readyRead
  readyWrite := h'.readyWrite.trans h.readyWrite
  eventsDone := h'.eventsDone.trans h.eventsDone
  todo := h'.todo.trans h.todo
  slot := h'.slot.trans h.slot
  selecting := h'.selecting.trans h.selecting

theorem log (w : World) (self : ConnId) {o : Operation} (ho : o.IsCall) : w.Steady (w.log self o) :=
  { refl w with
    noted := fun c operation hop => by
      rw [noted_log,if_neg, Nat.add_zero]
      rintro ⟨_,rfl⟩
      exact hop ho }

theorem setConn (w : World) (self : ConnId) {f : Connection → Connection}
    (hd : (f (w.conns self)).deleteScheduled = (w.conns self).deleteScheduled)
    (hfd : (f (w.conns self)).fd = (w.conns self).fd)
    (hc : (w.conns self).connecting = 0 → (f (w.conns self)).connecting = 0) : w.Steady (w.setConn self f) := by
  refine { refl w with scheduled := fun c => ?_, fd := fun c => ?_, connecting := fun c => ?_ } <;>
    rw [setConn_conns] <;> split
  · next he => exact he ▸ hd
  · rfl
  · next he => exact he ▸ hfd
  · rfl
  · next he => exact he ▸ hc
  · exact fun h => h

theorem wantreadwrite (self : ConnId) (w : World) : w.Steady (Connection.wantreadwrite self w) := by
  rw [Connection.wantreadwrite_eq]
  exact { log w self (o := .wantreadwrite) trivial with }

theorem exchange (h : Exchange w w') : w.Steady w' := by
  cases h with
  | same h =>
    exact {
      nconns := h.nconns
      conn := h.conn
      scheduled := fun c => by rw [h.conns]
      fd := fun c => by rw [h.conns]
      connecting := fun c hc => by rwa [h.conns]
      noted := fun c o _ => by rw [World.noted,h.operations,World.noted]
      tick := fun t id ht => (h.tick t id ht).le
      readyRead := h.readyRead
      readyWrite := h.readyWrite
      eventsDone := h.eventsDone
      todo := h.todo
      slot := h.slot
      selecting := h.selecting }
  | write conn buf hc hq =>
    unfold Connection.write
    split
    · exact .refl w
    · exact (setConn w conn rfl rfl fun h => h).trans (wantreadwrite conn _)

theorem establish (self : ConnId) (w : World) : w.Steady (IrcServer.connConnected self w) := by
  unfold IrcServer.connConnected
  split
  · exact { setConn w self (f := fun c => { c with
        dataReceived := c.dataReceived.register () .connDataReceived 0
        dataSent := c.dataSent.register () .connDataSent 0 }) rfl rfl fun h => h with
      tick := fun t id ht => (Event.count_register_ne _ (pending_ne (t := .connWaitLogin) not_false ht)).le }
  · exact .refl w

end World.Steady

theorem steady_of_exchanges (h : ReflTransGen Exchange w w') : w.Steady w' :=
  Effects.invariant (fun _ _ ht hs => ht.trans (.exchange hs)) (.refl w) h

/-! ## Stages -/

inductive Stage where
  | absent | opened | closed | destroyed
deriving DecidableEq

/-- How often an operation has been noted for a connection at this stage. -/
def Stage.count : Stage → Operation → ℕ
  | .closed, .close | .closed, .disconnected => 1
  | .destroyed, .close | .destroyed, .disconnected | .destroyed, .destroy => 1
  | _, _ => 0

def Stage.kept : Stage → ℕ
  | .opened | .closed => 1
  | _ => 0

/-- Whether the connection waits for its destruction, as a number. -/
def Stage.pending : Stage → ℕ
  | .closed => 1
  | _ => 0

def World.stage (w : World) (c : ConnId) : Stage :=
  if c < w.nconns then
    match (w.conns c).deleteScheduled with
    | 0 => .opened
    | 2 => .destroyed
    | _ => .closed
  else .absent

namespace World
variable {c : ConnId}

theorem stage_eq (hn : w'.nconns = w.nconns) (hd : (w'.conns c).deleteScheduled = (w.conns c).deleteScheduled) :
    w'.stage c = w.stage c := by
  rw [stage,stage,hn,hd]

theorem stage_opened : w.stage c = .opened ↔ c < w.nconns ∧ (w.conns c).deleteScheduled = 0 := by
  unfold stage
  split
  · next hlt => split <;> simp_all
  · next hlt => simp [hlt]

theorem stage_destroyed : w.stage c = .destroyed ↔ c < w.nconns ∧ (w.conns c).deleteScheduled = 2 := by
  unfold stage
  split
  · next hlt => split <;> simp_all
  · next hlt => simp [hlt]

theorem stage_absent : w.stage c = .absent ↔ ¬ c < w.nconns := by
  unfold stage
  split
  · next hlt => split <;> simp_all
  · next hlt => simp [hlt]

theorem Extant.stage_cases (h : w.Extant c) : w.stage c = .opened ∨ w.stage c = .closed := by
  have habsent : w.stage c ≠ .absent := fun he => stage_absent.mp he h.created
  have hdestroyed : w.stage c ≠ .destroyed := fun he => h.kept (stage_destroyed.mp he).2
  cases hs : w.stage c with
  | opened => exact Or.inl rfl
  | closed => exact Or.inr rfl
  | absent => exact absurd hs habsent
  | destroyed => exact absurd hs hdestroyed

theorem Extant.kept_one (h : w.Extant c) : (w.stage c).kept = 1 := by
  rcases h.stage_cases with hs | hs <;> rw [hs] <;> rfl

theorem extant_of_kept (h : (w.stage c).kept ≠ 0) : w.Extant c := by
  constructor
  · by_contra hn
    rw [stage_absent.mpr hn] at h
    exact h rfl
  · intro hd
    unfold stage at h
    split at h
    · rw [hd] at h
      exact h rfl
    · exact h rfl

end World

/-! ### Changes of stage -/

theorem World.Closes.stage {c : ConnId} (h : w.Closes w' c) (hc : c < w.nconns) (d : ConnId) :
    w'.stage d = if d = c then .closed else w.stage d := by
  split
  · next he =>
    subst he
    unfold World.stage
    rw [h.nconns,if_pos hc,h.conns,Function.update_self]
    rfl
  · next hne => exact World.stage_eq h.nconns (by rw [h.conns,Function.update_of_ne hne])

theorem World.Closes.fields {c : ConnId} (h : w.Closes w' c) (d : ConnId) :
    (w'.conns d).fd = (w.conns d).fd ∧ (w'.conns d).connecting = (w.conns d).connecting := by
  rw [h.conns]
  by_cases he : d = c
  · subst he
    rw [Function.update_self]
    exact ⟨rfl,rfl⟩
  · rw [Function.update_of_ne he]
    exact ⟨rfl,rfl⟩

theorem World.Destroys.stage {c : ConnId} (h : w.Destroys w' c) (hc : c < w.nconns) (d : ConnId) :
    w'.stage d = if d = c then .destroyed else w.stage d := by
  split
  · next he =>
    subst he
    exact World.stage_destroyed.mpr ⟨h.nconns ▸ hc,h.scheduled⟩
  · next hne => exact World.stage_eq h.nconns (by rw [h.other d hne])

theorem World.Destroys.kept {c : ConnId} (h : w.Destroys w' c) (d : ConnId) :
    (w'.conns d).fd = (w.conns d).fd ∧ (w'.conns d).connecting = (w.conns d).connecting := by
  by_cases he : d = c
  · subst he
    exact ⟨h.fields.1,h.fields.2.2.1⟩
  · rw [h.other d he]
    exact ⟨rfl,rfl⟩

theorem World.Creates.stage {fd : ℤ} {c : Connection} (h : w.Creates w' fd c) (d : ConnId) :
    w'.stage d = if d = w.nconns then .opened else w.stage d := by
  split
  · next he =>
    subst he
    refine World.stage_opened.mpr ⟨h.nconns ▸ Nat.lt_succ_self _,?_⟩
    rw [h.conns,Function.update_self,h.created.deleteScheduled]
  · next hne =>
    unfold World.stage
    rw [h.nconns,h.conns,Function.update_of_ne hne]
    refine if_congr ?_ rfl rfl
    exact ⟨fun hlt => lt_of_le_of_ne (Nat.le_of_lt_succ hlt) hne,fun hlt => Nat.lt_succ_of_lt hlt⟩

/-- A handler that is registered at most once, and only under the given id, is gone. -/
theorem unregister_gone {η : Type} [DecidableEq η] {e : Listeners η} {handler : η} {i : ℤ} {n : ℕ} (hn : n ≤ 1)
    (h : ∀ id, e.count () handler id ≤ if i = id then n else 0) (id : ℤ) :
    (e.unregister () handler i).count () handler id = 0 := by
  by_cases hid : i = id
  · subst hid
    refine Event.count_unregister_once ((h i).trans ?_)
    rwa [if_pos rfl]
  · have hle := (Event.count_unregister_le e () () handler handler id i).trans (h id)
    rw [if_neg hid] at hle
    exact Nat.le_zero.mp hle

theorem Stage.kept_le (s : Stage) : s.kept ≤ 1 := by
  cases s <;> decide

/-- The registrations of the connections, and what is noted of them, follow their stages. -/
structure Tracked (w : World) : Prop where
  opened : ∀ c, w.stage c = .opened ↔ w.server.conn = some c
  noted : ∀ c operation, ¬ operation.IsCall → w.noted c operation = (w.stage c).count operation
  done : ∀ c id, w.service.eventsDone.count () (.deleteConnection c) id = if id = 0 then (w.stage c).pending else 0
  reads : ∀ c id, w.service.readyRead.count () (.readConnection c) id =
    if (w.conns c).fd = id then (w.stage c).kept else 0
  writes : ∀ c id, w.service.readyWrite.count () (.writeConnection c) id =
    if (w.conns c).fd = id then (w.stage c).kept else 0
  connects : ∀ c id, w.service.tick.count () (.checkPendingConnection c) id ≤ if id = 0 then (w.stage c).kept else 0
  handshakes : ∀ c id, w.service.tick.count () (.checkPendingTls c) id ≤
    if id = 0 ∧ (w.conns c).connecting = 0 then (w.stage c).kept else 0

namespace Tracked

theorem initial (h : w.Initial) : Tracked w := by
  have hstage : ∀ c, w.stage c = .absent := fun c => World.stage_absent.mpr (by rw [h.nconns]; exact Nat.not_lt_zero c)
  constructor
  · intro c
    rw [hstage,h.conn]
    exact ⟨nofun,nofun⟩
  · intro c operation _
    rw [hstage,World.noted,h.ghost]
    rfl
  · intro c id
    rw [hstage,h.eventsDone]
    simp [Stage.pending]
  · intro c id
    rw [hstage,h.readyRead]
    simp [Stage.kept]
  · intro c id
    rw [hstage,h.readyWrite]
    simp [Stage.kept]
  · intro c id
    rw [h.tick]
    simp
  · intro c id
    rw [h.tick]
    simp

theorem steady (h : Tracked w) (hs : w.Steady w') : Tracked w' := by
  have hstage : ∀ c, w'.stage c = w.stage c := fun c => World.stage_eq hs.nconns (hs.scheduled c)
  constructor
  · intro c
    rw [hstage,hs.conn]
    exact h.opened c
  · intro c operation ho
    rw [hstage,hs.noted c operation ho]
    exact h.noted c operation ho
  · intro c id
    rw [hstage,hs.eventsDone]
    exact h.done c id
  · intro c id
    rw [hstage,hs.readyRead,hs.fd]
    exact h.reads c id
  · intro c id
    rw [hstage,hs.readyWrite,hs.fd]
    exact h.writes c id
  · intro c id
    rw [hstage]
    exact (hs.tick (.checkPendingConnection c) id trivial).trans (h.connects c id)
  · intro c id
    rw [hstage]
    refine (hs.tick (.checkPendingTls c) id trivial).trans ((h.handshakes c id).trans ?_)
    split
    · next hc => rw [if_pos ⟨hc.1,hs.connecting c hc.2⟩]
    · exact Nat.zero_le _

/-- The timer of the handshake starts when the connection is no longer connecting. -/
theorem shake (h : Tracked w) {self : ConnId} (he : w.Extant self) (hne : (w.conns self).connecting ≠ 0)
    (hs : w.Steady w') (hz : (w'.conns self).connecting = 0) :
    Tracked { w' with service.tick := w'.service.tick.register () (.checkPendingTls self) 0 } := by
  have ht := h.steady hs
  refine { ht with connects := fun c id => ?_, handshakes := fun c id => ?_ }
  · refine le_trans (le_of_eq ?_) (ht.connects c id)
    exact Event.count_register_ne _ nofun
  · change (w'.service.tick.register () (.checkPendingTls self) 0).count () (.checkPendingTls c) id ≤
      if id = 0 ∧ (w'.conns c).connecting = 0 then (w'.stage c).kept else 0
    rw [Event.count_register]
    by_cases hc : self = c ∧ id = 0
    · obtain ⟨rfl,rfl⟩ := hc
      have hbefore := (hs.tick (.checkPendingTls self) 0 trivial).trans (h.handshakes self 0)
      rw [if_neg (fun hand => hne hand.2)] at hbefore
      rw [Nat.le_zero.mp hbefore,(he.of_eq hs.nconns (hs.scheduled self)).kept_one]
      simp [hz]
    · rw [if_neg]
      · exact ht.handshakes c id
      · rintro ⟨-,he,rfl⟩
        cases he
        exact hc ⟨rfl,rfl⟩

/-! ### Changes of stage -/

theorem closes (h : Tracked w) {c : ConnId} (hc : w.server.conn = some c) (hs : w.Closes w' c) : Tracked w' := by
  have hopen : w.stage c = .opened := (h.opened c).mpr hc
  have hstage := hs.stage (World.stage_opened.mp hopen).1
  have hkept : ∀ d, (w'.stage d).kept = (w.stage d).kept := by
    intro d
    rw [hstage]
    split
    · next he => rw [he,hopen]; rfl
    · rfl
  constructor
  · intro d
    rw [hstage,hs.conn]
    split
    · exact ⟨nofun,nofun⟩
    · next hne =>
      rw [h.opened d,hc]
      exact ⟨fun he => absurd (Option.some.inj he).symm hne,nofun⟩
  · intro d operation ho
    rw [noted_append w _ d operation hs.operations,h.noted d operation ho,hstage]
    by_cases he : d = c
    · subst he
      rw [hopen,if_pos rfl]
      cases operation <;> first | exact absurd trivial ho | simp [Stage.count]
    · rw [if_neg he]
      simp [Ne.symm he]
  · intro d id
    rw [hs.eventsDone,Event.count_register,h.done d id,hstage]
    by_cases he : d = c
    · subst he
      rw [hopen,if_pos rfl]
      by_cases hid : id = 0
      · simp [hid,Stage.pending]
      · simp [hid,Ne.symm hid]
    · simp [he,Ne.symm he]
  · intro d id
    rw [hkept,hs.readyRead,(hs.fields d).1]
    exact h.reads d id
  · intro d id
    rw [hkept,hs.readyWrite,(hs.fields d).1]
    exact h.writes d id
  · intro d id
    rw [hkept,hs.tick (.checkPendingConnection d) id trivial]
    exact h.connects d id
  · intro d id
    rw [hkept,hs.tick (.checkPendingTls d) id trivial,(hs.fields d).2]
    exact h.handshakes d id

theorem destroys (h : Tracked w) {c : ConnId} (hc : w.stage c = .closed) (hs : w.Destroys w' c) : Tracked w' := by
  have hlt : c < w.nconns := by
    by_contra hn
    rw [World.stage_absent.mpr hn] at hc
    cases hc
  have hstage := hs.stage hlt
  constructor
  · intro d
    rw [hstage,hs.conn]
    split
    · next he =>
      rw [he,← h.opened c,hc]
      exact ⟨nofun,nofun⟩
    · exact h.opened d
  · intro d operation ho
    rw [noted_append w _ d operation hs.operations,h.noted d operation ho,hstage]
    by_cases he : d = c
    · subst he
      rw [hc,if_pos rfl]
      cases operation <;> first | exact absurd trivial ho | simp [Stage.count]
    · rw [if_neg he]
      simp [Ne.symm he]
  · intro d id
    rw [hs.eventsDone,hstage]
    by_cases he : d = c
    · subst he
      rw [if_pos rfl,unregister_gone (n := 1) (le_refl 1) (fun id => ?_)]
      · exact (ite_self 0).symm
      · rw [h.done d id,hc]
        by_cases hid : id = 0
        · simp [hid,Stage.pending]
        · simp [hid]
    · rw [Event.count_unregister_ne _ (fun heq => he (DoneHandler.deleteConnection.inj heq).symm),if_neg he]
      exact h.done d id
  · intro d id
    rw [hs.readyRead,hstage,(hs.kept d).1]
    by_cases he : d = c
    · subst he
      rw [if_pos rfl,unregister_gone (Stage.kept_le _) fun id => le_of_eq (h.reads d id)]
      exact (ite_self 0).symm
    · rw [Event.count_unregister_ne _ (fun heq => he (ReadHandler.readConnection.inj heq).symm),if_neg he]
      exact h.reads d id
  · intro d id
    rw [hs.readyWrite,hstage,(hs.kept d).1]
    by_cases he : d = c
    · subst he
      rw [if_pos rfl,unregister_gone (Stage.kept_le _) fun id => le_of_eq (h.writes d id)]
      exact (ite_self 0).symm
    · rw [Event.count_unregister_ne _ (fun heq => he (WriteHandler.writeConnection.inj heq).symm),if_neg he]
      exact h.writes d id
  · intro d id
    have hother : (w.service.tick.unregister () (.checkPendingTls c) 0).count () (.checkPendingConnection d) id =
        w.service.tick.count () (.checkPendingConnection d) id := Event.count_unregister_ne _ nofun
    rw [hs.tick,hstage]
    by_cases he : d = c
    · subst he
      rw [unregister_gone (Stage.kept_le (w.stage d)) fun id => ?_]
      · exact Nat.zero_le _
      · refine (Event.count_unregister_le _ _ _ _ _ _ _).trans ((h.connects d id).trans ?_)
        exact le_of_eq (if_congr eq_comm rfl rfl)
    · rw [Event.count_unregister_ne _ (fun heq => he (TickHandler.checkPendingConnection.inj heq).symm),hother,
        if_neg he]
      exact h.connects d id
  · intro d id
    have hother : ((w.service.tick.unregister () (.checkPendingTls c) 0).unregister () (.checkPendingConnection c)
        0).count () (.checkPendingTls d) id = (w.service.tick.unregister () (.checkPendingTls c) 0).count ()
          (.checkPendingTls d) id := Event.count_unregister_ne _ nofun
    rw [hs.tick,hother,hstage,(hs.kept d).2]
    by_cases he : d = c
    · subst he
      rw [unregister_gone (Stage.kept_le (w.stage d)) fun id => (h.handshakes d id).trans ?_]
      · exact Nat.zero_le _
      · by_cases hid : id = 0
        · rw [if_pos hid.symm]
          split
          · exact le_refl _
          · exact Nat.zero_le _
        · rw [if_neg (fun hand => hid hand.1)]
          exact Nat.zero_le _
    · rw [Event.count_unregister_ne _ (fun heq => he (TickHandler.checkPendingTls.inj heq).symm),if_neg he]
      exact h.handshakes d id

theorem creates (h : Tracked w) {fd : ℤ} {c : Connection} (hs : w.Creates w' fd c) (hc : w.server.conn = none) :
    Tracked w' := by
  have hstage := hs.stage
  have habsent : w.stage w.nconns = .absent := World.stage_absent.mpr (lt_irrefl _)
  have hother : ∀ d, d ≠ w.nconns → w'.conns d = w.conns d := by
    intro d hne
    rw [hs.conns,Function.update_of_ne hne]
  have hown : w'.conns w.nconns = c := by
    rw [hs.conns,Function.update_self]
  constructor
  · intro d
    rw [hstage,hs.conn]
    split
    · next he =>
      rw [he]
      exact ⟨fun _ => rfl,fun _ => rfl⟩
    · next hne =>
      rw [h.opened d,hc]
      exact ⟨fun he => (by simp at he),fun he => absurd (Option.some.inj he).symm hne⟩
  · intro d operation ho
    rw [hstage,World.noted,hs.operations]
    refine (h.noted d operation ho).trans ?_
    split
    · next he => rw [he,habsent]; rfl
    · rfl
  · intro d id
    rw [hstage,hs.eventsDone,h.done d id]
    split
    · split
      · next he => rw [he,habsent]; rfl
      · rfl
    · rfl
  · intro d id
    rw [hstage,hs.readyRead,Event.count_register,h.reads d id]
    by_cases he : d = w.nconns
    · subst he
      rw [habsent,hown,hs.created.fd]
      simp [Stage.kept]
    · rw [hother d he]
      simp [he,Ne.symm he]
  · intro d id
    rw [hstage,hs.readyWrite,Event.count_register,h.writes d id]
    by_cases he : d = w.nconns
    · subst he
      rw [habsent,hown,hs.created.fd]
      simp [Stage.kept]
    · rw [hother d he]
      simp [he,Ne.symm he]
  · intro d id
    rw [hstage,hs.tick,Event.count_register]
    have hd := h.connects d id
    by_cases he : d = w.nconns
    · subst he
      rw [habsent] at hd
      have hzero : w.service.tick.count () (.checkPendingConnection w.nconns) id = 0 := by
        simpa [Stage.kept] using hd
      rw [hzero]
      simp [Stage.kept,eq_comm]
    · simpa [he,Ne.symm he] using hd
  · intro d id
    have hsame : w'.service.tick.count () (.checkPendingTls d) id = w.service.tick.count () (.checkPendingTls d) id := by
      rw [hs.tick]
      exact Event.count_register_ne _ (by simp)
    rw [hsame,hstage]
    have hd := h.handshakes d id
    by_cases he : d = w.nconns
    · subst he
      rw [habsent] at hd
      refine (Nat.le_zero.mp (hd.trans (le_of_eq (ite_self 0)))).trans_le (Nat.zero_le _)
    · rw [if_neg he,hother d he]
      exact hd

end Tracked

/-! ### Moves -/

/-- A move as far as the stages are concerned. -/
inductive Passage : World → World → Prop where
  | steady {w w' : World} (h : w.Steady w') : Passage w w'
  | shake {w t : World} {self : ConnId} (he : w.Extant self) (hne : (w.conns self).connecting ≠ 0) (hs : w.Steady t)
      (hz : (t.conns self).connecting = 0) :
      Passage w { t with service.tick := t.service.tick.register () (.checkPendingTls self) 0 }
  | closes {w w' : World} {c : ConnId} (hc : w.server.conn = some c) (h : w.Closes w' c) : Passage w w'
  | creates {w w' : World} {fd : ℤ} {c : Connection} (hc : w.server.conn = none) (h : w.Creates w' fd c) : Passage w w'

theorem Move.passage (hm : Move live sane w w') (h : Tracked w) : Passage w w' := by
  cases hm with
  | exchange he => exact .steady (.exchange he)
  | note self operation ho => exact .steady (.log w self ho)
  | want self => exact .steady (.wantreadwrite self w)
  | forget self => exact .steady { World.Steady.refl w with }
  | turn self f hf =>
    refine .steady (.setConn w self hf.deleteScheduled hf.fd fun hz => ?_)
    rcases hf.connecting with he | hne
    · exact he.trans hz
    · exact absurd hz hne
  | shake self he hne =>
    refine .shake he hne ((World.Steady.setConn w self (f := fun c => { c with connecting := 0 }) rfl rfl
      fun _ => rfl).trans (.setConn _ self (f := fun c => { c with tlsConnectTicks := CONNTICKS }) rfl rfl
        fun hz => hz)) ?_
    simp [World.setConn]
  | calm t ht =>
    exact .steady { World.Steady.refl w with tick := fun _ _ _ => Event.count_unregister_le _ _ _ _ _ _ _ }
  | late self => exact .steady (.log w self trivial)
  | establish self hc =>
    exact .steady ((World.Steady.log w self (o := .connected) trivial).trans (.establish self _))
  | close t self established hc ht =>
    have hd : (w.conns self).deleteScheduled = 0 := (World.stage_opened.mp ((h.opened self).mpr hc)).2
    exact .closes hc (close_shape hd ht)
  | later self hself hc =>
    have hd : (w.conns self).deleteScheduled ≠ 0 := fun hd => hc ((h.opened self).mp (World.stage_opened.mpr ⟨hself,hd⟩))
    rw [Connection.deleteLater,if_neg hd]
    exact .steady (.refl w)
  | connect env hc =>
    rcases connect_creates env hc with he | ⟨fd,c,_,hs⟩
    · rw [he]
      exact .steady (.refl w)
    · exact .creates hc hs

theorem Passage.tracked (hp : Passage w w') (h : Tracked w) : Tracked w' := by
  cases hp with
  | steady hs => exact h.steady hs
  | shake he hne hs hz => exact h.shake he hne hs hz
  | closes hc hs => exact h.closes hc hs
  | creates hc hs => exact h.creates hs hc

theorem Passage.position (hp : Passage w w') : w'.service.todo = w.service.todo ∧
    w'.service.slot = w.service.slot ∧ w'.service.selecting = w.service.selecting := by
  cases hp with
  | steady hs => exact ⟨hs.todo,hs.slot,hs.selecting⟩
  | shake _ _ hs => exact ⟨hs.todo,hs.slot,hs.selecting⟩
  | closes _ hs => exact ⟨hs.todo,hs.slot,hs.selecting⟩
  | creates _ hs => exact ⟨hs.todo,hs.slot,hs.selecting⟩

theorem Passage.destroyed (hp : Passage w w') {c : ConnId} : w'.noted c .destroy = w.noted c .destroy := by
  cases hp with
  | steady hs => exact hs.noted c .destroy not_false
  | shake _ _ hs => exact hs.noted c .destroy not_false
  | closes _ hs => simp [noted_append w _ c .destroy hs.operations]
  | creates _ hs => rw [World.noted,hs.operations,World.noted]

/-- What a connection that exists has registered for readiness is not added to. -/
structure World.Onward (w w' : World) : Prop where
  nconns : w.nconns ≤ w'.nconns
  fd : ∀ c, c < w.nconns → (w'.conns c).fd = (w.conns c).fd
  reads : ∀ c, c < w.nconns → ∀ k id, w'.service.readyRead.countFrom k () (.readConnection c) id ≤
    w.service.readyRead.countFrom k () (.readConnection c) id
  writes : ∀ c, c < w.nconns → ∀ k id, w'.service.readyWrite.countFrom k () (.writeConnection c) id ≤
    w.service.readyWrite.countFrom k () (.writeConnection c) id

theorem World.Onward.refl (w : World) : w.Onward w :=
  ⟨le_refl _,fun _ _ => rfl,fun _ _ _ _ => le_refl _,fun _ _ _ _ => le_refl _⟩

theorem World.Onward.trans {w'' : World} (h : w.Onward w') (h' : w'.Onward w'') : w.Onward w'' where
  nconns := h.nconns.trans h'.nconns
  fd := fun c hc => (h'.fd c (hc.trans_le h.nconns)).trans (h.fd c hc)
  reads := fun c hc k id => (h'.reads c (hc.trans_le h.nconns) k id).trans (h.reads c hc k id)
  writes := fun c hc k id => (h'.writes c (hc.trans_le h.nconns) k id).trans (h.writes c hc k id)

theorem World.Steady.onward (h : w.Steady w') : w.Onward w' where
  nconns := h.nconns.ge
  fd := fun c _ => h.fd c
  reads := fun _ _ _ _ => by rw [h.readyRead]
  writes := fun _ _ _ _ => by rw [h.readyWrite]

theorem Passage.onward (hp : Passage w w') : w.Onward w' := by
  cases hp with
  | steady hs => exact hs.onward
  | shake _ _ hs =>
    have ho := hs.onward
    exact { ho with }
  | closes _ hs => exact ⟨hs.nconns.ge,fun c _ => (hs.fields c).1,fun _ _ _ _ => by rw [hs.readyRead],
      fun _ _ _ _ => by rw [hs.readyWrite]⟩
  | creates _ hs =>
    refine ⟨hs.nconns ▸ Nat.le_succ _,fun c hc => ?_,fun c hc k id => ?_,fun c hc k id => ?_⟩
    · rw [hs.conns,Function.update_of_ne (Nat.ne_of_lt hc)]
    · rw [hs.readyRead]
      exact Event.countFrom_register_le _ (fun he => Nat.ne_of_gt hc (ReadHandler.readConnection.inj he)) k
    · rw [hs.readyWrite]
      exact Event.countFrom_register_le _ (fun he => Nat.ne_of_gt hc (WriteHandler.writeConnection.inj he)) k

theorem tracked_of_moves (hm : ReflTransGen (Move live sane) w w') (h : Tracked w) : Tracked w' :=
  Effects.invariant (fun _ _ ht hs => (hs.passage ht).tracked ht) h hm

theorem position_of_moves (hm : ReflTransGen (Move live sane) w w') (h : Tracked w) :
    w'.service.todo = w.service.todo ∧ w'.service.slot = w.service.slot ∧
      w'.service.selecting = w.service.selecting := by
  have hboth := Effects.invariant (I := fun t => Tracked t ∧ t.service.todo = w.service.todo ∧
    t.service.slot = w.service.slot ∧ t.service.selecting = w.service.selecting) ?_ ⟨h,rfl,rfl,rfl⟩ hm
  · exact hboth.2
  · rintro t u ⟨ht,h1,h2,h3⟩ hs
    have hp := hs.passage ht
    obtain ⟨g1,g2,g3⟩ := hp.position
    exact ⟨hp.tracked ht,g1.trans h1,g2.trans h2,g3.trans h3⟩

theorem onward_of_moves (hm : ReflTransGen (Move live sane) w w') (h : Tracked w) : w.Onward w' := by
  have hboth := Effects.invariant (I := fun t => Tracked t ∧ w.Onward t)
    (fun _ _ ht hs => ⟨(hs.passage ht.1).tracked ht.1,ht.2.trans (hs.passage ht.1).onward⟩) ⟨h,.refl w⟩ hm
  exact hboth.2

theorem destroyed_of_moves (hm : ReflTransGen (Move live sane) w w') (h : Tracked w) {c : ConnId} :
    w'.noted c .destroy = w.noted c .destroy := by
  have hboth := Effects.invariant (I := fun t => Tracked t ∧ t.noted c .destroy = w.noted c .destroy)
    (fun _ _ ht hs => ⟨(hs.passage ht.1).tracked ht.1,(hs.passage ht.1).destroyed.trans ht.2⟩) ⟨h,rfl⟩ hm
  exact hboth.2

end LibIrcBot
