import LibIrcBot.Properties.SingleClosing

/-! # I/O on closed descriptors

A connection keeps its callbacks until it is destroyed. Where its I/O fails in front of a
readiness of the same descriptor in the same iteration, the second callback reads from or
writes to the closed descriptor; in all other runs there is no such operation.
-/
namespace LibIrcBot
open CString Effects Relation Outcome Transitions

/-! ## Failing I/O -/

def ConnectResult.fails : ConnectResult → Bool
  | .want .none | .failed => true
  | _ => false

def ReadResult.fails (tls : Bool) : ReadResult → Bool
  | .want .none => tls
  | .failed => true
  | _ => false

def WriteResult.fails (tls : Bool) : WriteResult → Bool
  | .want .none => tls
  | .failed => true
  | _ => false

namespace Connection

/-- The operation that a readiness for writing leads to fails. -/
def writeFails (env : Env) (c : Connection) : Bool :=
  if c.connecting ≠ 0 then env.sockErr || (c.tls && env.sslConnect.fails)
  else if c.tlsConnectSt = .wantWrite then env.sslConnect.fails
  else if c.tlsReadSt = .wantWrite then env.read.fails c.tls
  else if c.tlsWriteSt = .wantWrite then env.write.fails c.tls
  else if c.nrecs = 0 then false
  else env.write.fails c.tls

/-- The operation that a readiness for reading leads to fails. -/
def readFails (env : Env) (c : Connection) : Bool :=
  if c.tlsConnectSt = .wantRead then env.sslConnect.fails
  else if c.tlsReadSt = .wantRead then env.read.fails c.tls
  else if c.tlsWriteSt = .wantRead then env.write.fails c.tls
  else if c.handling then false
  else env.read.fails c.tls

end Connection

variable {w w' : World} {fails : Prop}

/-- No connection is created, and the server loses its connection only if I/O fails. -/
abbrev Kept (fails : Prop) (w : World) (r : Run) : Prop :=
  Meets (fun t => t.nconns = w.nconns ∧ (t.server.conn = w.server.conn ∨ fails)) (fun _ => True) r

theorem Kept.of_eq {u : World} {r : Run} (h : Kept fails u r) (hn : u.nconns = w.nconns)
    (hc : u.server.conn = w.server.conn) : Kept fails w r := by
  rwa [Kept,hn,hc] at h

theorem kept_of_exchanges {r : Run} (h : Meets (ReflTransGen Exchange w) (fun _ => True) r) : Kept fails w r :=
  Meets.mono h (fun _ ht => ⟨nconns_of_exchanges ht,Or.inl (conn_of_exchanges ht)⟩) fun _ _ => trivial

namespace Connection
variable {self : ConnId}

theorem wantreadwrite_kept (self : ConnId) (w : World) :
    (wantreadwrite self w).nconns = w.nconns ∧ (wantreadwrite self w).server.conn = w.server.conn := by
  rw [wantreadwrite_eq]
  exact ⟨rfl,rfl⟩

/-- The interest is looked at again behind what has happened. -/
theorem kept_want {r : Run} (h : Kept fails w r) : Kept fails w (r >>= fun t => pure (wantreadwrite self t)) := by
  refine Meets.bind h fun t ht => ?_
  obtain ⟨h1,h2⟩ := wantreadwrite_kept self t
  exact ⟨h1.trans ht.1,ht.2.imp_left fun hc => h2.trans hc⟩

theorem close_kept (h : Inv w) (self : ConnId) (hf : fails) : Kept fails w (close self w) := by
  refine Meets.bind (P := fun t => t.nconns = w.nconns)
    (Meets.mono (raiseClosed_spec h self _) (fun _ ht => ht.2.2) fun _ _ => trivial) fun t ht => ?_
  refine ⟨?_,Or.inr hf⟩
  unfold deleteLater
  split <;> exact ht

theorem raiseConnected_kept (self : ConnId) (w : World) : Kept fails w (raiseConnected self w) := by
  refine raise_invariant (I := fun t => t.nconns = w.nconns ∧ (t.server.conn = w.server.conn ∨ fails)) ?_ ⟨rfl,Or.inl rfl⟩
  intro _ t ht
  unfold IrcServer.connConnected
  split <;> exact ht

theorem raiseDataReceived_kept (h : Inv w) (env : Env) (self : ConnId) (chunk : Chunk) :
    Kept fails w (raiseDataReceived env self chunk.bytes w) := by
  refine Meets.mono (raiseDataReceived_spec h env self chunk.fits) (fun t ht => ?_) fun _ _ => trivial
  rcases ht with rfl | ⟨_,ht⟩
  · exact ⟨rfl,Or.inl rfl⟩
  · have hex := exchanges_of_received ht.steps
    exact ⟨(nconns_of_exchanges hex).trans rfl,Or.inl ((conn_of_exchanges hex).trans rfl)⟩

theorem sent_kept (self : ConnId) (n : ℕ) (w : World) : Kept fails w (sent self n w) := by
  unfold sent
  dsimp only
  split
  · split
    · obtain ⟨h1,h2⟩ := wantreadwrite_kept self (w.setConn self fun c => { c with
        writerecs := Function.update c.writerecs c.baserecidx _ })
      exact ⟨h1,Or.inl h2⟩
    · exact ⟨rfl,Or.inl rfl⟩
  · have hdrop := confirm_exchanges self ((w.conns self).writerecs (w.conns self).baserecidx).id
    split
    · have hk : Kept fails _ _ := kept_of_exchanges (hdrop (w.setConn self dropRecord))
      exact Kept.of_eq (kept_want hk) rfl rfl
    · obtain ⟨h1,h2⟩ := wantreadwrite_kept self (w.setConn self dropRecord)
      exact Kept.of_eq (kept_of_exchanges (hdrop (wantreadwrite self (w.setConn self dropRecord)))) h1 h2

theorem dowrite_kept (h : Inv w) (env : Env) (self : ConnId) (hf : env.write.fails (w.conns self).tls → fails) :
    Kept fails w (dowrite env self w) := by
  unfold dowrite
  split
  · next htls =>
    have hlog := h.action (log_acts self .sslWrite w)
    rw [htls] at hf
    dsimp only
    split
    · exact sent_kept self _ _
    · next he => exact close_kept hlog self (hf (by rw [he]; rfl))
    · next he => exact close_kept hlog self (hf (by rw [he]; rfl))
    · obtain ⟨h1,h2⟩ := wantreadwrite_kept self ((w.log self .sslWrite).setConn self fun c =>
        { c with tlsWriteSt := _ })
      exact ⟨h1,Or.inl h2⟩
  · have hlog := h.action (log_acts self .write w)
    dsimp only
    split
    · exact sent_kept self _ _
    · exact ⟨rfl,Or.inl rfl⟩
    · next he => exact close_kept hlog self (hf (by rw [he]; rfl))

theorem doread_kept (h : Inv w) (env : Env) (self : ConnId) (hf : env.read.fails (w.conns self).tls → fails) :
    Kept fails w (doread env self w) := by
  unfold doread
  split
  · next htls =>
    have hlog := h.action (log_acts self .sslRead w)
    have hturn : Action (w.log self .sslRead) ((w.log self .sslRead).setConn self fun c => { c with tlsReadSt := .none }) :=
      field_acts (fun _ => ⟨rfl,rfl,rfl,rfl,rfl,rfl,rfl,rfl,rfl,rfl,rfl⟩)
    rw [htls] at hf
    dsimp only
    split
    · next chunk _ => exact Kept.of_eq (kept_want (raiseDataReceived_kept (hlog.action hturn) env self chunk)) rfl rfl
    · next he => exact close_kept hlog self (hf (by rw [he]; rfl))
    · next he => exact close_kept hlog self (hf (by rw [he]; rfl))
    · obtain ⟨h1,h2⟩ := wantreadwrite_kept self ((w.log self .sslRead).setConn self fun c =>
        { c with tlsReadSt := _ })
      exact ⟨h1,Or.inl h2⟩
  · have hlog := h.action (log_acts self .read w)
    dsimp only
    split
    · next chunk _ => exact Kept.of_eq (kept_want (raiseDataReceived_kept hlog env self chunk)) rfl rfl
    · exact ⟨rfl,Or.inl rfl⟩
    · next he => exact close_kept hlog self (hf (by rw [he]; rfl))

theorem dohandshake_kept (h : Inv w) (env : Env) (self : ConnId) (hf : env.sslConnect.fails → fails) :
    Kept fails w (dohandshake env self w) := by
  have hlog := h.action (log_acts self .sslConnect w)
  have hcalm := hlog.action (.tickUnregister (w.log self .sslConnect) (.checkPendingTls self) not_false)
  unfold dohandshake
  dsimp only
  split
  · exact Kept.of_eq (kept_want (raiseConnected_kept self _)) rfl rfl
  · next he => exact Kept.of_eq (close_kept hcalm self (hf (by rw [he]; rfl))) rfl rfl
  · next he => exact Kept.of_eq (close_kept hcalm self (hf (by rw [he]; rfl))) rfl rfl
  · obtain ⟨h1,h2⟩ := wantreadwrite_kept self ((w.log self .sslConnect).setConn self fun c =>
      { c with tlsConnectSt := _ })
    exact ⟨h1,Or.inl h2⟩

theorem writeConnection_kept (h : Inv w) (env : Env) (he : w.Extant self) :
    Kept ((w.conns self).writeFails env) w (writeConnection env self w) := by
  unfold writeConnection
  dsimp only
  split
  · next hne =>
    have hfails : (w.conns self).writeFails env =
        (env.sockErr || ((w.conns self).tls && env.sslConnect.fails)) := if_pos hne
    have hinv := (h.action (.tickUnregister w (.checkPendingConnection self) not_false)).action
      (log_acts self .getsockopt _)
    rw [hfails]
    split
    · next herr => exact Kept.of_eq (close_kept hinv self (by rw [herr]; rfl)) rfl rfl
    · split
      · next htls =>
        rw [htls]
        have h1 := initiate_acts hinv hne
        have h2 : ∀ u : World, Action u (u.setConn self fun c => { c with tlsConnectTicks := CONNTICKS }) :=
          fun u => field_acts fun _ => ⟨rfl,rfl,rfl,rfl,rfl,rfl,rfl,rfl,rfl,rfl,rfl⟩
        have h3 := fun u : World => Action.tickRegister u (.checkPendingTls self) ⟨nofun,nofun⟩ not_false
        have hall := ((hinv.action h1).action (h2 _)).action (h3 _ he.created)
        exact Kept.of_eq (dohandshake_kept hall env self fun hf => by rw [hf]; simp) rfl rfl
      · obtain ⟨h1,h2⟩ := wantreadwrite_kept self ((World.log { w with
            service.tick := w.service.tick.unregister () (.checkPendingConnection self) 0 } self .getsockopt).setConn
              self fun c => { c with connecting := 0 })
        exact Kept.of_eq (raiseConnected_kept self _) h1 h2
  · next heq =>
    have hfails : (w.conns self).writeFails env =
        (if (w.conns self).tlsConnectSt = .wantWrite then env.sslConnect.fails
        else if (w.conns self).tlsReadSt = .wantWrite then env.read.fails (w.conns self).tls
        else if (w.conns self).tlsWriteSt = .wantWrite then env.write.fails (w.conns self).tls
        else if (w.conns self).nrecs = 0 then false
        else env.write.fails (w.conns self).tls) := if_neg heq
    rw [hfails]
    split
    · exact dohandshake_kept h env self fun hf => hf
    · split
      · exact doread_kept h env self fun hf => hf
      · split
        · exact dowrite_kept h env self fun hf => hf
        · split
          · obtain ⟨h1,h2⟩ := wantreadwrite_kept self w
            exact ⟨h1,Or.inl h2⟩
          · exact dowrite_kept h env self fun hf => hf

theorem readConnection_kept (h : Inv w) (env : Env) (self : ConnId) :
    Kept ((w.conns self).readFails env) w (readConnection env self w) := by
  unfold readConnection readFails
  dsimp only
  split
  · exact dohandshake_kept h env self fun hf => hf
  · split
    · exact doread_kept h env self fun hf => hf
    · split
      · exact dowrite_kept h env self fun hf => hf
      · split
        · exact ⟨rfl,Or.inl rfl⟩
        · exact doread_kept h env self fun hf => hf

end Connection

/-! ## Operations on descriptors -/

/-- The operation reads from the descriptor of its connection, writes to it, asks for its
error or registers it. -/
def Operation.UsesDescriptor : Operation → Prop
  | .getsockopt | .sslRead | .sslWrite | .read | .write | .wantreadwrite => True
  | _ => False

def World.Dry (w : World) : Prop :=
  ∀ e ∈ w.ghost.operations, e.operation.UsesDescriptor → e.conn.deleteScheduled = 0

theorem World.Dry.of_eq (h : w.Dry) (ho : w'.ghost.operations = w.ghost.operations) : w'.Dry := by
  rwa [Dry,ho]

theorem World.Dry.append (h : w.Dry) (entries : List Entry) (ho : w'.ghost.operations = w.ghost.operations ++ entries)
    (he : ∀ e ∈ entries, e.operation.UsesDescriptor → e.conn.deleteScheduled = 0) : w'.Dry := by
  intro e hmem
  rw [ho] at hmem
  rcases List.mem_append.mp hmem with hmem | hmem
  · exact h e hmem
  · exact he e hmem

theorem World.Dry.log (h : w.Dry) (self : ConnId) (operation : Operation)
    (hd : operation.UsesDescriptor → (w.conns self).deleteScheduled = 0) : (w.log self operation).Dry := by
  refine h.append [⟨self,operation,w.conns self⟩] rfl fun e he => ?_
  rw [List.mem_singleton.mp he]
  exact hd

theorem World.Dry.want (h : w.Dry) {self : ConnId} (hd : (w.conns self).deleteScheduled = 0) :
    (Connection.wantreadwrite self w).Dry := by
  rw [Connection.wantreadwrite_eq]
  exact (h.log self .wantreadwrite fun _ => hd).of_eq rfl

/-- Moves for the server's connection use an open descriptor. -/
theorem Move.dry {sane : Prop} (hm : Move True sane w w') (ht : Tracked w) (h : w.Dry) : w'.Dry := by
  have hopen : ∀ self, w.server.conn = some self → (w.conns self).deleteScheduled = 0 :=
    fun self hc => (World.stage_opened.mp ((ht.opened self).mpr hc)).2
  cases hm with
  | exchange he =>
    cases he with
    | same hs => exact h.of_eq hs.operations
    | write conn buf hc _ =>
      unfold Connection.write
      split
      · exact h
      · have hwant : (Connection.wantreadwrite conn (w.setConn conn (Connection.addRecord buf true))).Dry := by
          have hadd : (w.setConn conn (Connection.addRecord buf true)).Dry := h.of_eq rfl
          refine hadd.want ?_
          rw [setConn_conns,if_pos rfl]
          exact hopen conn hc
        exact hwant
  | note self operation ho hn hl hs => exact h.log self operation fun _ => hopen self (hl trivial)
  | want self he hl => exact h.want (hopen self (hl trivial))
  | forget self => exact h.of_eq rfl
  | turn self f => exact h.of_eq rfl
  | shake self => exact h.of_eq rfl
  | calm t => exact h.of_eq rfl
  | late self he hc hl => exact absurd trivial hl
  | establish self hc =>
    refine World.Dry.of_eq (h.log self .connected not_false.elim) ?_
    unfold IrcServer.connConnected
    split <;> rfl
  | close t self established hc hr =>
    refine h.append _ (close_shape (hopen self hc) hr).operations fun e he => ?_
    rcases List.mem_pair.mp he with rfl | rfl <;> exact False.elim
  | later self hself hc =>
    have hd : (w.conns self).deleteScheduled ≠ 0 :=
      fun hd => hc ((ht.opened self).mp (World.stage_opened.mpr ⟨hself,hd⟩))
    rw [Connection.deleteLater,if_neg hd]
    exact h
  | connect env hc =>
    rcases connect_creates env hc with he | ⟨fd,c,_,hs⟩
    · rw [he]
      exact h
    · exact h.of_eq hs.operations

theorem dry_of_moves {sane : Prop} (hm : ReflTransGen (Move True sane) w w') (ht : Tracked w) (h : w.Dry) : w'.Dry := by
  have hboth := Effects.invariant (I := fun t => Tracked t ∧ t.Dry)
    (fun _ _ ht hs => ⟨(hs.passage ht.1).tracked ht.1,hs.dry ht.1 ht.2⟩) ⟨ht,h⟩ hm
  exact hboth.2

/-! ## Readiness that is still to be reported -/

def ServiceEvent.descriptor : ServiceEvent → Option ℤ
  | .readyWrite id | .readyRead id => some id
  | _ => none

/-- The descriptor of the connection is reported behind the event being raised. -/
def World.Behind (w : World) (c : ConnId) : Prop := ∃ e ∈ w.service.todo.tail, e.descriptor = some (w.conns c).fd

/-- A callback of the connection for its readiness is still to be called in this iteration. -/
def World.Ahead (w : World) (c : ConnId) : Prop := w.Behind c ∨
  ∃ id rest, (w.service.todo = .readyRead id :: rest ∧
      0 < w.service.readyRead.countFrom w.service.slot () (.readConnection c) id) ∨
    (w.service.todo = .readyWrite id :: rest ∧
      0 < w.service.readyWrite.countFrom w.service.slot () (.writeConnection c) id)

/-- The connection whose I/O fails in the callback that comes next. -/
def World.failing (env : Env) (w : World) : Option ConnId :=
  match w.service.todo with
  | .readyWrite id :: _ => (w.callback w.service.readyWrite id).bind fun
    | .writeConnection self => if (w.conns self).writeFails env then some self else none
  | .readyRead id :: _ => (w.callback w.service.readyRead id).bind fun
    | .readConnection self => if (w.conns self).readFails env then some self else none
  | _ => none

/-- Where I/O fails the iteration does not report the descriptor again. The server is
connected and disconnected from outside only when no event is being raised. -/
def Label.Careful : Label → World → Prop
  | .startup _, w => w.service.selecting = false ∧ w.service.todo = []
  | .disconnect, w => w.service.selecting = false ∧ w.service.todo = []
  | .next env, w => ∀ self ∈ w.failing env, ∀ e ∈ w.service.todo.tail, e.descriptor ≠ some (w.conns self).fd
  | _, _ => True

instance (l : Label) (w : World) : Decidable (l.Careful w) :=
  match l with
  | .startup _ | .disconnect => inferInstanceAs (Decidable (w.service.selecting = false ∧ w.service.todo = []))
  | .next env => inferInstanceAs (Decidable (∀ self ∈ w.failing env, ∀ e ∈ w.service.todo.tail,
      e.descriptor ≠ some (w.conns self).fd))
  | .loop | .select _ | .join _ | .part _ | .sendCmd _ _ | .sendMsg _ _ _ | .setNick _
  | .otherRegister _ | .otherUnregister _ => instDecidableTrue

theorem Label.Careful.outside {l : Label} (h : l.Careful w) : l.Outside w := by
  cases l <;> first | exact h.1 | trivial

/-- Of a closed connection nothing is still to be called behind `pselect`. -/
structure Settled (w : World) : Prop where
  tick : .tick ∈ w.service.todo → w.service.todo = [.tick]
  closed : w.service.selecting = false → ∀ c, w.stage c = .closed → ¬ w.Ahead c
  dry : w.Dry

namespace Settled
variable {c : ConnId}

theorem initial (h : w.Initial) : Settled w := by
  refine ⟨fun hmem => ?_,fun _ c hc => ?_,fun e he => ?_⟩
  · rw [h.todo] at hmem
    cases hmem
  · have hlt : c < w.nconns := by
      by_contra hn
      rw [World.stage_absent.mpr hn] at hc
      cases hc
    rw [h.nconns] at hlt
    cases hlt
  · rw [h.ghost] at he
    cases he

/-- Nothing is to be called when nothing is to be raised. -/
theorem not_ahead (h : w.service.todo = []) : ¬ w.Ahead c := by
  rintro (⟨e,he,-⟩ | ⟨_,_,⟨ht,-⟩ | ⟨ht,-⟩⟩)
  · rw [h] at he
    cases he
  · rw [h] at ht
    cases ht
  · rw [h] at ht
    cases ht

theorem ahead_onward (ho : w.Onward w') (htodo : w'.service.todo = w.service.todo)
    (hslot : w'.service.slot = w.service.slot) (hc : c < w.nconns) (h : w'.Ahead c) : w.Ahead c := by
  rcases h with ⟨e,he,hd⟩ | ⟨id,rest,⟨ht,hpos⟩ | ⟨ht,hpos⟩⟩
  · exact Or.inl ⟨e,htodo ▸ he,ho.fd c hc ▸ hd⟩
  · rw [hslot] at hpos
    exact Or.inr ⟨id,rest,Or.inl ⟨htodo ▸ ht,hpos.trans_le (ho.reads c hc _ _)⟩⟩
  · rw [hslot] at hpos
    exact Or.inr ⟨id,rest,Or.inr ⟨htodo ▸ ht,hpos.trans_le (ho.writes c hc _ _)⟩⟩

theorem countFrom_succ_le {η : Type} [DecidableEq η] (e : Listeners η) (k : ℕ) (handler : η) (id : ℤ) :
    e.countFrom (k + 1) () handler id ≤ e.countFrom k () handler id :=
  (List.drop_sublist_drop_left e.handlers (Nat.le_succ k)).countP_le

/-- In the next slot no more is to be called. -/
theorem ahead_succ (h : World.Ahead { w with service.slot := w.service.slot + 1 } c) : w.Ahead c := by
  rcases h with hb | ⟨id,rest,⟨ht,hpos⟩ | ⟨ht,hpos⟩⟩
  · exact Or.inl hb
  · exact Or.inr ⟨id,rest,Or.inl ⟨ht,hpos.trans_le (countFrom_succ_le _ _ _ _)⟩⟩
  · exact Or.inr ⟨id,rest,Or.inr ⟨ht,hpos.trans_le (countFrom_succ_le _ _ _ _)⟩⟩

/-- Nor is there behind an event. -/
theorem ahead_tail (ht : Tracked w) {event : ServiceEvent} {rest : List ServiceEvent}
    (htodo : w.service.todo = event :: rest) (h : World.Ahead { w with service.todo := rest, service.slot := 0 } c) :
    w.Ahead c := by
  have htail : w.service.todo.tail = rest := by rw [htodo]; rfl
  left
  rcases h with ⟨e,he,hd⟩ | ⟨id,rest',⟨hr,hpos⟩ | ⟨hr,hpos⟩⟩
  · exact ⟨e,htail ▸ List.mem_of_mem_tail he,hd⟩
  · change rest = _ at hr
    have hfd := (World.extant_of_count (ht.reads c id).le (hpos.trans_le (Event.countFrom_le _ _ _ _ _))).2
    exact ⟨.readyRead id,by rw [htail,hr]; exact List.mem_cons_self,by rw [hfd]; rfl⟩
  · change rest = _ at hr
    have hfd := (World.extant_of_count (ht.writes c id).le (hpos.trans_le (Event.countFrom_le _ _ _ _ _))).2
    exact ⟨.readyWrite id,by rw [htail,hr]; exact List.mem_cons_self,by rw [hfd]; rfl⟩

theorem not_ahead_tick (h : w.service.todo = [.tick]) : ¬ w.Ahead c := by
  rintro (⟨e,he,-⟩ | ⟨_,_,⟨ht,-⟩ | ⟨ht,-⟩⟩)
  · rw [h] at he
    cases he
  · rw [h] at ht
    cases ht
  · rw [h] at ht
    cases ht

/-- A connection that a callback leaves closed was open or closed before. -/
theorem closed_before (ht : Tracked w) (ht' : Tracked w') (hn : w'.nconns = w.nconns)
    (hd : w'.noted c .destroy = w.noted c .destroy) (hc : w'.stage c = .closed) :
    w.stage c = .opened ∨ w.stage c = .closed := by
  have habsent : w.stage c ≠ .absent := by
    intro he
    have hnot := World.stage_absent.mp he
    rw [← hn] at hnot
    rw [World.stage_absent.mpr hnot] at hc
    cases hc
  rw [ht.noted c .destroy not_false,ht'.noted c .destroy not_false,hc] at hd
  cases hs : w.stage c with
  | opened => exact Or.inl rfl
  | closed => exact Or.inr rfl
  | absent => exact absurd hs habsent
  | destroyed =>
    rw [hs] at hd
    cases hd

theorem visits_ahead {η : Type} [DecidableEq η] {e : Listeners η} {id : ℤ} {handler : η} (h : w.Visits e id handler) :
    0 < e.countFrom w.service.slot () handler id := by
  obtain ⟨slot,hs,hh,hid⟩ := h
  rw [Event.countFrom_succ hs,if_pos (by simp [Event.Matches,hh,hid])]
  exact Nat.succ_pos _

/-- The callbacks for readiness belong to the connection of the server. -/
theorem served (ht : Tracked w) (h : Settled w) (hsel : w.service.selecting = false) (self : ConnId)
    (hv : w.Reads self ∨ w.Writes self) : w.server.conn = some self := by
  have hcase : w.Extant self ∧ w.Ahead self := by
    rcases hv with ⟨id,rest,htodo,hv⟩ | ⟨id,rest,htodo,hv⟩
    · exact ⟨(ht.reading hv).1,Or.inr ⟨id,rest,Or.inl ⟨htodo,visits_ahead hv⟩⟩⟩
    · exact ⟨(ht.writing hv).1,Or.inr ⟨id,rest,Or.inr ⟨htodo,visits_ahead hv⟩⟩⟩
  rcases hcase.1.stage_cases with hs | hs
  · exact (ht.opened self).mp hs
  · exact absurd hcase.2 (h.closed hsel self hs)

/-- Nothing is still to be called for a connection that a callback for its readiness has closed. -/
theorem closed_quiet (ht : Tracked w) (h : Settled w) (hsel : w.service.selecting = false) {self : ConnId}
    {event : ServiceEvent} {rest : List ServiceEvent} {t : World} (htodo : w.service.todo = event :: rest)
    (hm : ReflTransGen (Move True False) w t) (hn : t.nconns = w.nconns) (hconn : w.server.conn = some self)
    (hk : t.server.conn = w.server.conn ∨ ∀ e ∈ rest, e.descriptor ≠ some (w.conns self).fd)
    (hread : ∀ id, event = .readyRead id → w.service.readyRead.countFrom (w.service.slot + 1) ()
      (.readConnection self) id = 0)
    (hwrite : ∀ id, event = .readyWrite id → w.service.readyWrite.countFrom (w.service.slot + 1) ()
      (.writeConnection self) id = 0) (hc : t.stage c = .closed) :
    ¬ World.Ahead { t with service.slot := t.service.slot + 1 } c := by
  intro hahead
  have ht' := tracked_of_moves hm ht
  have ho := onward_of_moves hm ht
  obtain ⟨htodo',hslot',-⟩ := position_of_moves hm ht
  have hlt : c < w.nconns := by
    rw [← hn]
    by_contra hnot
    rw [World.stage_absent.mpr hnot] at hc
    cases hc
  rcases closed_before ht ht' hn (destroyed_of_moves hm ht) hc with hopen | hclosed
  · -- The callback has closed the connection itself.
    obtain rfl : self = c := Option.some.inj (hconn.symm.trans ((ht.opened c).mp hopen))
    have hlost : t.server.conn ≠ w.server.conn := by
      intro he
      rw [(ht'.opened self).mpr (he.trans hconn)] at hc
      cases hc
    have hrest := hk.resolve_left hlost
    rcases hahead with ⟨e,he,hd⟩ | ⟨id,rest',⟨hr,hpos⟩ | ⟨hr,hpos⟩⟩
    · change e ∈ t.service.todo.tail at he
      rw [htodo',htodo] at he
      exact hrest e he (hd.trans (congrArg some (ho.fd self hlt)))
    · change t.service.todo = _ at hr
      change 0 < t.service.readyRead.countFrom (t.service.slot + 1) () _ id at hpos
      rw [htodo',htodo] at hr
      rw [hslot'] at hpos
      have hle := ho.reads self hlt (w.service.slot + 1) id
      rw [hread id (List.cons.inj hr).1] at hle
      exact Nat.not_lt.mpr hle hpos
    · change t.service.todo = _ at hr
      change 0 < t.service.readyWrite.countFrom (t.service.slot + 1) () _ id at hpos
      rw [htodo',htodo] at hr
      rw [hslot'] at hpos
      have hle := ho.writes self hlt (w.service.slot + 1) id
      rw [hwrite id (List.cons.inj hr).1] at hle
      exact Nat.not_lt.mpr hle hpos
  · exact h.closed hsel c hclosed (ahead_onward ho htodo' hslot' hlt (ahead_succ hahead))

theorem calls (hinv : Inv w) (ht : Tracked w) (hw : Swept w) (h : Settled w) {env : Env}
    (hl : (Label.next env).Careful w) (hsel : w.service.selecting = false) {event : ServiceEvent}
    {rest : List ServiceEvent} (htodo : w.service.todo = event :: rest) {t : World} (hc : w.Calls env event t) :
    Settled { t with service.slot := t.service.slot + 1 } := by
  have hno : event ≠ .eventsDone := by
    rintro rfl
    exact hw.idle hsel (htodo ▸ List.mem_cons_self)
  have hserved := served ht h hsel
  have hm : ReflTransGen (Move True False) w t :=
    calls_moves hinv ht htodo hno hc (fun _ => hserved) nofun nofun
  obtain ⟨htodo',-,-⟩ := position_of_moves hm ht
  have hcareful : ∀ self ∈ w.failing env, ∀ e ∈ rest, e.descriptor ≠ some (w.conns self).fd := by
    have htail : w.service.todo.tail = rest := by rw [htodo]; rfl
    exact fun self hs e he => hl self hs e (htail ▸ he)
  refine ⟨fun hmem => ?_,fun _ c hclosed => ?_,(dry_of_moves hm ht h.dry).of_eq rfl⟩
  · exact htodo'.trans (h.tick (htodo' ▸ hmem))
  have hclosed : t.stage c = .closed := hclosed
  cases event with
  | eventsDone => exact absurd rfl hno
  | tick => exact not_ahead_tick (htodo'.trans (h.tick (htodo ▸ List.mem_cons_self)))
  | readyWrite id =>
    obtain ⟨⟨self⟩,hv,hc⟩ := hc
    have hconn := hserved self (Or.inr ⟨id,rest,htodo,hv⟩)
    have hkept := Connection.writeConnection_kept hinv env (ht.writing hv).1
    rw [show Connection.writeConnection env self w = .ok t from hc] at hkept
    refine closed_quiet ht h hsel htodo hm hkept.1 hconn (hkept.2.imp_right fun hf => hcareful self ?_) nofun ?_ hclosed
    · simp [World.failing,htodo,hv.callback,hf]
    · rintro id' ⟨⟩
      exact hv.countFrom ((ht.writes self id).le.trans (by split <;> first | exact Stage.kept_le _ | exact Nat.zero_le _))
  | readyRead id =>
    obtain ⟨⟨self⟩,hv,hc⟩ := hc
    have hconn := hserved self (Or.inl ⟨id,rest,htodo,hv⟩)
    have hkept := Connection.readConnection_kept hinv env self
    rw [show Connection.readConnection env self w = .ok t from hc] at hkept
    refine closed_quiet ht h hsel htodo hm hkept.1 hconn (hkept.2.imp_right fun hf => hcareful self ?_) ?_ nofun hclosed
    · simp [World.failing,htodo,hv.callback,hf]
    · rintro id' ⟨⟩
      exact hv.countFrom ((ht.reads self id).le.trans (by split <;> first | exact Stage.kept_le _ | exact Nat.zero_le _))

theorem same (h : Settled w) (hs : w.Steady w') (hd : w'.Dry) : Settled w' := by
  refine ⟨fun hmem => hs.todo.trans (h.tick (hs.todo ▸ hmem)),fun hsel c hc hahead => ?_,hd⟩
  have hlt : c < w.nconns := by
    by_contra hnot
    rw [World.stage_absent.mpr (hs.nconns ▸ hnot)] at hc
    cases hc
  have hstage : w'.stage c = w.stage c := World.stage_eq hs.nconns (hs.scheduled c)
  exact h.closed (hs.selecting ▸ hsel) c (hstage ▸ hc) (ahead_onward hs.onward hs.todo hs.slot hlt hahead)

theorem next (hinv : Inv w) (ht : Tracked w) (hw : Swept w) (h : Settled w) {env : Env}
    (hl : (Label.next env).Careful w) (hs : Service.next env w = .ok w') : Settled w' := by
  rcases next_cases hs with ⟨-,rfl⟩ | ⟨event,rest,htodo,⟨-,rfl⟩ | ⟨-,rfl⟩ | ⟨t,hc,rfl⟩⟩
  · exact h
  · refine ⟨fun hmem => ?_,fun hsel c hc hahead => h.closed hsel c hc (ahead_tail ht htodo hahead),h.dry⟩
    have hone := h.tick (htodo ▸ List.mem_cons_of_mem _ hmem)
    rw [htodo] at hone
    rw [show rest = [] from (List.cons.inj hone).2] at hmem
    cases hmem
  · exact ⟨h.tick,fun hsel c hc hahead => h.closed hsel c hc (ahead_succ hahead),h.dry⟩
  · by_cases hsel : w.service.selecting = false
    · exact calls hinv ht hw h hl hsel htodo hc
    · -- While `eventsDone` is raised connections are destroyed only.
      have hsel := Bool.not_eq_false _ ▸ hsel
      have hevent : event = .eventsDone := by
        rcases hw.sweeping hsel with ⟨hnil,-⟩ | ⟨hone,-⟩
        · rw [htodo] at hnil
          cases hnil
        · exact (List.cons.inj (htodo.symm.trans hone)).1
      subst hevent
      obtain ⟨c,-,-,hd⟩ := calls_destroys ht hc
      refine ⟨fun hmem => hd.todo.trans (h.tick (hd.todo ▸ hmem)),fun hfalse => ?_,?_⟩
      · exact absurd (hd.selecting.trans hsel) (Bool.eq_false_iff.mp hfalse)
      · refine h.dry.append _ hd.operations fun e he => ?_
        rw [List.mem_singleton.mp he]
        exact False.elim

theorem step (hinv : Inv w) (ht : Tracked w) (hw : Swept w) (h : Settled w) {l : Label} (hl : l.Careful w)
    (hs : World.step l w = .ok w') : Settled w' := by
  by_cases hcall : l.IsCall
  · have hm : Moves True False w (World.step l w) := call_moves hinv hcall
    rw [hs] at hm
    have hdry : w'.Dry := dry_of_moves hm ht h.dry
    have htodo : w'.service.todo = w.service.todo := (position_of_moves hm ht).1
    have hhead : w.service.todo = [] → Settled w' := by
      intro hnil
      refine ⟨fun hmem => ?_,fun _ c _ => not_ahead (htodo.trans hnil),hdry⟩
      rw [htodo,hnil] at hmem
      cases hmem
    by_cases hst : ∃ env, l = .startup env
    · obtain ⟨env,rfl⟩ := hst
      exact hhead hl.2
    by_cases hd : l = .disconnect
    · subst hd
      exact hhead hl.2
    · have hex := call_exchanges hinv hcall (not_exists.mp hst) hd
      rw [hs] at hex
      exact h.same (steady_of_exchanges hex) hdry
  cases l with
  | loop =>
    cases hs
    unfold Service.loop
    split
    · exact ⟨fun hmem => by simp at hmem,nofun,h.dry⟩
    · exact h
  | select ready =>
    rcases @select_moves w w' True False hinv ready hs with rfl | ⟨hnil,hsel,r,k,todo,-,htick,hcase,hm⟩
    · exact h
    · have ht0 := ht.reposition r k todo w.service.slot false
      have htodo : w'.service.todo = todo := (position_of_moves hm ht0).1
      refine ⟨fun hmem => ?_,fun _ c hc => ?_,dry_of_moves hm ht0 (h.dry.of_eq rfl)⟩
      · rcases htick with rfl | hno
        · exact htodo
        · exact absurd (htodo ▸ hmem) hno
      · rcases hcase with rfl | rfl
        · exact not_ahead htodo
        · rcases hw.sweeping hsel with ⟨-,hno⟩ | ⟨hone,-⟩
          · exact absurd hc (hno c)
          · rw [hnil] at hone
            cases hone
  | next env => exact h.next hinv ht hw hl hs
  | _ => exact absurd trivial hcall

end Settled

/-- In a run in which no I/O fails in front of another readiness of the same descriptor, no
connection reads from a closed descriptor, writes to it or registers it. -/
theorem closed_descriptor_unused (h : Reaches World.step Label.Careful World.Initial w) :
    ∀ e ∈ w.ghost.operations, e.operation.UsesDescriptor → e.conn.deleteScheduled = 0 := by
  have hall := h.invariant (I := fun w => Inv w ∧ Tracked w ∧ Swept w ∧ Settled w)
    (fun _ hi => ⟨.initial hi,.initial hi,.initial hi,.initial hi⟩) ?_
  · exact hall.2.2.2.dry
  · rintro l s t ⟨hinv,ht,hw,hset⟩ hl hs
    exact ⟨World.step_inv hinv hs,ht.step hinv hs,hw.step hinv ht hl.outside hs,hset.step hinv ht hw hl hs⟩

theorem bereft_unused : World.bereft.stage 0 = .destroyed ∧ (∃ e ∈ World.bereft.ghost.operations, e.operation = .read) ∧
    ∀ e ∈ World.bereft.ghost.operations, e.operation.UsesDescriptor → e.conn.deleteScheduled = 0 := by
  refine ⟨by decide +kernel,by decide +kernel,closed_descriptor_unused ?_⟩
  exact World.reaches_after (.start (World.create_initial _ _ _ _ _ _)) (by decide +kernel)

/-- The server is asked for a sign of life, and the answer waits to be written. -/
def World.pinged : World :=
  World.after (Label.iteration (.io [] [3]) 1 2 (Env.delivering ⟨lit "PING :x\x0d\n",by decide,by decide⟩)) World.loggedIn

/-- The write fails in an iteration in which the descriptor is ready for reading, too. -/
def World.misused : World := World.after (Label.iteration (.io [3] [3]) 1 4 Env.failing) World.pinged

theorem closed_descriptor_read : World.misused.Reachable ∧ ∃ e ∈ World.misused.ghost.operations,
    e.self = 0 ∧ e.operation = .read ∧ e.conn.deleteScheduled = 1 := by
  refine ⟨World.after_reachable (World.after_reachable World.loggedIn_reachable ?_) ?_,?_⟩ <;> decide +kernel

end LibIrcBot
