import LibIrcBot.Containers.QueueOrder
import LibIrcBot.Properties.CommandLines
import LibIrcBot.System.SendQueue
import LibIrcBot.System.WriteRing

/-! # What a connection writes

A command waits in the send queue of the server and then in the ring of its connection, from where `write` takes it
piece by piece. Nothing that the server does changes the bytes on this way or their order.
-/
namespace LibIrcBot
open CString Effects Relation Outcome

def WriteRecord.rest (r : WriteRecord) : Bytes := r.bytes.drop r.wrbufpos

def Connection.unsent (c : Connection) : Bytes :=
  (List.range c.nrecs).flatMap fun i => (c.writerecs ((c.baserecidx + i) % NWRITERECS)).rest

/-- The operation offers bytes of the connection to `write` or `SSL_write_ex`. -/
def Entry.Writes (conn : ConnId) (e : Entry) : Prop := e.self = conn ∧ (e.operation = .write ∨ e.operation = .sslWrite)

instance (conn : ConnId) (e : Entry) : Decidable (e.Writes conn) := inferInstanceAs (Decidable (_ ∧ _))

def Entry.written (env : Env) (conn : ConnId) (e : Entry) : Bytes :=
  if e.Writes conn then
    match env.write with
    | .sent n => (e.conn.writerecs e.conn.baserecidx).rest.take n
    | _ => []
  else []

/-- The send queue holds these strings in their order, except that pointers may be indeterminate. -/
def Waiting (q : Option (IBQueue Buffer Deleter)) (bufs : List Buffer) : Prop :=
  match q with
  | none => bufs = []
  | some q => q.Queues bufs

/-- What is still to be written to a connection of the server. -/
def Outbox (conn : ConnId) (w : World) (out : Bytes) : Prop :=
  ∃ bufs, Waiting w.server.sendQueue bufs ∧ (∀ b ∈ bufs, b.text.length < 2 ^ 16) ∧
    out = (w.conns conn).unsent ++ bufs.flatMap Buffer.text

variable {w w' w'' : World} {conn : ConnId} {env : Env}

theorem unsent_zero {c : Connection} (h : c.nrecs = 0) : c.unsent = [] := by
  rw [Connection.unsent,h]
  rfl

theorem unsent_one {c : Connection} (h : c.nrecs = 1) (hb : c.baserecidx < NWRITERECS) :
    c.unsent = (c.writerecs c.baserecidx).rest := by
  rw [Connection.unsent,h]
  change (c.writerecs ((c.baserecidx + 0) % NWRITERECS)).rest ++ [] = _
  rw [List.append_nil,Nat.add_zero,Nat.mod_eq_of_lt hb]

theorem unsent_update {c : Connection} (h : c.nrecs = 1) (hb : c.baserecidx < NWRITERECS) (r : WriteRecord) :
    ({ c with writerecs := Function.update c.writerecs c.baserecidx r } : Connection).unsent = r.rest := by
  rw [unsent_one (c := { c with writerecs := Function.update c.writerecs c.baserecidx r }) h hb]
  exact congrArg WriteRecord.rest (Function.update_self ..)

theorem unsent_addRecord {c : Connection} (h : c.nrecs = 0) (hb : c.baserecidx < NWRITERECS) {buf : Buffer}
    (hlen : buf.text.length < 2 ^ 16) (id : Bool) : (Connection.addRecord buf id c).unsent = buf.text := by
  have hi : (c.baserecidx + c.nrecs) % NWRITERECS = c.baserecidx := by
    rw [h,Nat.add_zero,Nat.mod_eq_of_lt hb]
  rw [unsent_one (c := Connection.addRecord buf id c) (congrArg (· + 1) h) hb]
  simp only [Connection.addRecord,hi,Function.update_self,WriteRecord.rest,WriteRecord.bytes,Nat.mod_eq_of_lt hlen,
    List.take_length,List.drop_zero]

/-! ## Steps that write nothing -/

/-- Nothing is queued for a connection and nothing written to it. -/
structure World.Rests (conn : ConnId) (w w' : World) : Prop where
  nconns : w'.nconns = w.nconns
  server : w'.server.conn = w.server.conn
  sendQueue : w'.server.sendQueue = w.server.sendQueue
  commands : w'.ghost.commands = w.ghost.commands
  unsent : (w'.conns conn).unsent = (w.conns conn).unsent
  operations : ∃ ops, w'.ghost.operations = w.ghost.operations ++ ops ∧ ∀ e ∈ ops, ¬ e.Writes conn

namespace World.Rests

theorem refl (w : World) : w.Rests conn w :=
  ⟨rfl,rfl,rfl,rfl,rfl,[],(List.append_nil _).symm,fun _ he => absurd he List.not_mem_nil⟩

theorem trans (h : w.Rests conn w') (h' : w'.Rests conn w'') : w.Rests conn w'' where
  nconns := h'.nconns.trans h.nconns
  server := h'.server.trans h.server
  sendQueue := h'.sendQueue.trans h.sendQueue
  commands := h'.commands.trans h.commands
  unsent := h'.unsent.trans h.unsent
  operations := by
    obtain ⟨ops,ho,hw⟩ := h.operations
    obtain ⟨ops',ho',hw'⟩ := h'.operations
    refine ⟨ops ++ ops',by rw [ho',ho,List.append_assoc],fun e he => ?_⟩
    exact (List.mem_append.mp he).elim (hw e) (hw' e)

theorem log (w : World) (self : ConnId) {o : Operation} (ho : o ≠ .write ∧ o ≠ .sslWrite) :
    w.Rests conn (w.log self o) := by
  refine { refl w with operations := ⟨[⟨self,o,w.conns self⟩],rfl,fun e he hw => ?_⟩ }
  rw [List.mem_singleton.mp he] at hw
  exact hw.2.elim ho.1 ho.2

/-- Another connection changes, or this one in other fields. -/
theorem setConn (w : World) (self : ConnId) {f : Connection → Connection}
    (hf : self = conn → (f (w.conns self)).unsent = (w.conns self).unsent) : w.Rests conn (w.setConn self f) := by
  refine { refl w with unsent := ?_ }
  rw [setConn_conns]
  split
  · next he =>
    subst he
    exact hf rfl
  · rfl

theorem wantreadwrite (self : ConnId) (w : World) : w.Rests conn (Connection.wantreadwrite self w) := by
  have hlog : w.Rests conn (w.log self .wantreadwrite) := log w self ⟨nofun,nofun⟩
  unfold Connection.wantreadwrite
  dsimp only
  split <;> split <;> exact hlog.trans { refl _ with }

theorem deleteLater (self : ConnId) (w : World) : w.Rests conn (Connection.deleteLater self w) := by
  unfold Connection.deleteLater
  split
  · have hlog : w.Rests conn (w.log self .close) := log w self ⟨nofun,nofun⟩
    have hdone : (w.log self .close).Rests conn { w.log self .close with
        service.eventsDone := w.service.eventsDone.register () (.deleteConnection self) 0 } := { refl _ with }
    exact (hlog.trans hdone).trans (setConn _ self fun _ => rfl)
  · exact refl w

end World.Rests

theorem Outbox.rests {out : Bytes} (h : Outbox conn w out) (hr : w.Rests conn w') : Outbox conn w' out := by
  obtain ⟨bufs,hw,hlen,ho⟩ := h
  exact ⟨bufs,by rw [hr.sendQueue]; exact hw,hlen,by rw [hr.unsent]; exact ho⟩

theorem written_of_not_writes {e : Entry} (h : ¬ e.Writes conn) : e.written env conn = [] := if_neg h

theorem written_flatMap_nil {ops : List Entry} (h : ∀ e ∈ ops, ¬ e.Writes conn) :
    ops.flatMap (Entry.written env conn) = [] :=
  List.flatMap_eq_nil_iff.mpr fun e he => written_of_not_writes (h e he)

/-! ## Steps that pass bytes on -/

/-- While the server stays on a connection, what was to be written to it and the commands queued since then are what
was written and what is still to be written. -/
structure Relays (env : Env) (conn : ConnId) (w w' : World) : Prop where
  nconns : w.nconns ≤ w'.nconns
  stays : conn < w.nconns → w'.server.conn = some conn → w.server.conn = some conn
  passes : ∃ ops new, w'.ghost.operations = w.ghost.operations ++ ops ∧
    w'.ghost.commands = w.ghost.commands ++ new ∧
    (conn < w.nconns → w'.server.conn = some conn → ∀ out, Outbox conn w out →
      ∃ rest, Outbox conn w' rest ∧ out ++ new.flatten = ops.flatMap (Entry.written env conn) ++ rest)

namespace Relays

theorem rests (h : w.Rests conn w') : Relays env conn w w' where
  nconns := h.nconns.ge
  stays := fun _ hc => h.server ▸ hc
  passes := by
    obtain ⟨ops,ho,hw⟩ := h.operations
    refine ⟨ops,[],ho,by rw [h.commands,List.append_nil],fun _ _ out hout => ⟨out,hout.rests h,?_⟩⟩
    rw [written_flatMap_nil hw]
    exact List.append_nil _

theorem refl (w : World) : Relays env conn w w := rests (.refl w)

theorem trans (h : Relays env conn w w') (h' : Relays env conn w' w'') : Relays env conn w w'' where
  nconns := h.nconns.trans h'.nconns
  stays := fun hlt hc => h.stays hlt (h'.stays (hlt.trans_le h.nconns) hc)
  passes := by
    obtain ⟨ops,new,ho,hn,hp⟩ := h.passes
    obtain ⟨ops',new',ho',hn',hp'⟩ := h'.passes
    refine ⟨ops ++ ops',new ++ new',by rw [ho',ho,List.append_assoc],by rw [hn',hn,List.append_assoc],?_⟩
    intro hlt hc out hout
    have hlt' := hlt.trans_le h.nconns
    obtain ⟨rest,hrest,heq⟩ := hp hlt (h'.stays hlt' hc) out hout
    obtain ⟨last,hlast,heq'⟩ := hp' hlt' hc rest hrest
    refine ⟨last,hlast,?_⟩
    rw [List.flatten_append,List.flatMap_append,← List.append_assoc,heq,List.append_assoc,heq',List.append_assoc]

/-- A change that takes the server off its connection, or happens while it is off this one. -/
theorem off (hn : w.nconns ≤ w'.nconns) (hc : conn < w.nconns → w'.server.conn ≠ some conn)
    (ho : ∃ ops, w'.ghost.operations = w.ghost.operations ++ ops)
    (hcmd : ∃ new, w'.ghost.commands = w.ghost.commands ++ new) : Relays env conn w w' where
  nconns := hn
  stays := fun hlt heq => absurd heq (hc hlt)
  passes := by
    obtain ⟨ops,ho⟩ := ho
    obtain ⟨new,hcmd⟩ := hcmd
    exact ⟨ops,new,ho,hcmd,fun hlt heq => absurd heq (hc hlt)⟩

/-- Nothing on another connection is written or queued while one of them changes that the server does not use. -/
theorem other {self : ConnId} {f : Connection → Connection} (hc : w.server.conn ≠ some self) :
    Relays env conn w (w.setConn self f) := by
  by_cases hself : self = conn
  · subst hself
    exact .off (Nat.le_refl _) (fun _ => hc) ⟨[],(List.append_nil _).symm⟩ ⟨[],(List.append_nil _).symm⟩
  · exact .rests (.setConn w self fun he => absurd he hself)

end Relays

/-! ## Commands -/

namespace IrcServer

theorem IsCommand.length {c : Bytes} (h : IsCommand c) : c.length < 2 ^ 16 := by
  cases h with
  | raw cmd name args hname =>
    rw [rawCmd,snprintf,List.length_take]
    omega
  | line recipient text action hr ht =>
    rw [msgLine_length,maxchunk_eq] at *
    have hheader := msgHeader_length recipient action
    cases action <;> simp at * <;> omega

/-- A command that is queued is to be written behind everything else. -/
theorem queueRaw_relays {command : Option Bytes} (hc : ∀ c ∈ command, IsCommand c) (hr : queueRaw command w = .ok w') :
    Relays env conn w w' := by
  unfold queueRaw at hr
  cases command with
  | none =>
    cases hr
    exact .refl w
  | some c =>
    dsimp only at hr
    split at hr
    · cases hr
    · next queue hq =>
      simp only [World.copystr,Except.ok.injEq] at hr
      subst hr
      refine ⟨Nat.le_refl _,fun _ hconn => hconn,[],[c],(List.append_nil _).symm,rfl,fun _ _ out hout => ?_⟩
      obtain ⟨bufs,hw,hlen,rfl⟩ := hout
      have hqueue : queue.Queues bufs := by
        change Waiting w.server.sendQueue bufs at hw
        rw [show w.server.sendQueue = some queue from hq] at hw
        exact hw
      have hback : Waiting (some (queue.enqueue ⟨w.allocs,c⟩ (some .free))) (bufs ++ [⟨w.allocs,c⟩]) :=
        hqueue.enqueue _ _
      refine ⟨_,⟨bufs ++ [⟨w.allocs,c⟩],hback,fun b hb => ?_,rfl⟩,?_⟩
      · rcases List.mem_append.mp hb with hb | hb
        · exact hlen b hb
        · rw [List.mem_singleton.mp hb]
          exact (hc c rfl).length
      · change (w.conns conn).unsent ++ bufs.flatMap Buffer.text ++ (c ++ []) =
          (w.conns conn).unsent ++ (bufs ++ [(⟨w.allocs,c⟩ : Buffer)]).flatMap Buffer.text
        rw [List.flatMap_append,List.append_assoc]
        rfl

/-- The next command leaves the queue for the ring, which is empty. -/
theorem written_relays (h : Linked w) (hidle : w.server.sending = false) {self : ConnId}
    (hself : w.server.conn = some self) {queue left : IBQueue Buffer Deleter} (hq : w.server.sendQueue = some queue)
    {sendcmd : Buffer} (hd : queue.dequeue = (some (some sendcmd),left)) :
    Relays env conn w (Connection.write self sendcmd true { w with
      server.sendQueue := some left
      server.sendcmd := some sendcmd
      server.sending := true
      server.sendcreditticks := w.server.sendcreditticks - 2 }).2 := by
  have ha := h.attached self hself
  rw [hidle] at ha
  have hnone : (w.conns self).nrecs = 0 := ha.idle
  unfold Connection.write
  rw [if_neg (by rw [hnone]; decide)]
  dsimp only
  refine Relays.trans ?_ (.rests (.wantreadwrite self _))
  refine ⟨Nat.le_refl _,fun _ hc => hc,[],[],(List.append_nil _).symm,(List.append_nil _).symm,fun _ hc out hout => ?_⟩
  obtain ⟨bufs,hw,hlen,rfl⟩ := hout
  obtain rfl : self = conn := Option.some.inj (hself.symm.trans hc)
  rw [hq] at hw
  cases bufs with
  | nil =>
    rw [IBQueue.Queues.dequeue_nil hw] at hd
    cases hd
  | cons b bufs =>
    obtain ⟨hfirst,hleft⟩ := IBQueue.Queues.dequeue_cons hw
    rw [hd] at hfirst hleft
    obtain rfl : sendcmd = b := by
      rcases hfirst with hfirst | hfirst
      · cases hfirst
      · exact Option.some.inj (Option.some.inj hfirst)
    refine ⟨sendcmd.text ++ bufs.flatMap Buffer.text,⟨bufs,hleft,fun b hb => hlen b (List.mem_cons_of_mem _ hb),?_⟩,?_⟩
    · rw [setConn_conns,if_pos rfl,unsent_addRecord hnone ha.base (hlen sendcmd List.mem_cons_self)]
    · rw [unsent_zero hnone]
      exact List.append_nil _

theorem sendNext_relays (h : Linked w) (hr : sendNext w = .ok w') : Relays env conn w w' := by
  unfold sendNext at hr
  split at hr
  · cases hr
    exact .refl w
  · next hcond =>
    have hidle : w.server.sending = false := by
      simp only [Bool.or_eq_true,decide_eq_true_eq,not_or,Bool.not_eq_true] at hcond
      exact hcond.2
    split at hr
    · cases hr
    · next queue hq =>
      by_cases hzero : queue.count = 0
      · rw [IBQueue.dequeue,if_pos hzero] at hr
        cases hr
        exact .rests { World.Rests.refl w with sendQueue := hq.symm }
      · generalize hd : queue.dequeue = result at hr
        obtain ⟨first,left⟩ := result
        cases first with
        | none =>
          rw [IBQueue.dequeue,if_neg hzero] at hd
          cases hd
        | some first =>
          cases first with
          | none => cases hr
          | some sendcmd =>
            dsimp only at hr
            split at hr
            · cases hr
            · next self hself =>
              cases hr
              exact written_relays h hidle hself hq hd

theorem sendRaw_relays (h : Linked w) {command : Option Bytes} (hc : ∀ c ∈ command, IsCommand c)
    (hr : sendRaw command w = .ok w') : Relays env conn w w' := by
  obtain ⟨t,ht,hr⟩ := ok_of_bind hr
  have hqueued : Relays env conn w t := queueRaw_relays hc ht
  obtain ⟨allocs,commands,queue,hq,rfl⟩ := queueRaw_cases ht
  exact hqueued.trans (sendNext_relays (h.sends (.queued allocs commands queue hq)) hr)

theorem sendRawCmd_relays (h : Linked w) {cmd : IrcCommand} (hcmd : cmd.str.isSome) {args : Bytes}
    (hr : sendRawCmd cmd (some args) w = .ok w') : Relays env conn w w' := by
  obtain ⟨name,hname⟩ := Option.isSome_iff_exists.mp hcmd
  rw [sendRawCmd_eq hname] at hr
  refine sendRaw_relays h (fun c hc => ?_) hr
  rw [← Option.mem_some.mp hc]
  exact .raw cmd name args hname

end IrcServer

/-! ## Channels and messages -/

namespace Relays

theorem effect (h : Linked w) (he : Effect w w') : Relays env conn w w' := by
  cases he with
  | send _ cmd args hcmd _ hs => exact IrcServer.sendRawCmd_relays h hcmd hs
  | remove self _ =>
    obtain ⟨_,_,he⟩ := remove_shape (w.chans self).name self w
    rw [he]
    exact .rests { World.Rests.refl w with }
  | _ => exact .rests { World.Rests.refl w with }

theorem effects (h : Linked w) (he : ReflTransGen Effect w w') : Relays env conn w w' :=
  (Effects.invariant (I := fun t => Linked t ∧ Relays env conn w t)
    (fun _ _ ht hs => ⟨ht.1.effect hs,ht.2.trans (effect ht.1 hs)⟩) ⟨h,.refl w⟩ he).2

theorem change (h : Linked w) (hc : Change w w') : Relays env conn w w' := by
  cases hc with
  | call hd => exact effects h hd.effects
  | send _ command hc hs => exact IrcServer.sendRaw_relays h hc hs
  | login name _ => exact .rests { World.Rests.refl w with }
  | nick nick => exact .rests { World.Rests.refl w with }
  | addChannel name _ =>
    obtain ⟨_,_,_,_,_,he⟩ := addChannel_shape name w
    rw [he]
    exact .rests { World.Rests.refl w with }

theorem changes (h : Linked w) (hc : ReflTransGen Change w w') : Relays env conn w w' :=
  (Effects.invariant (I := fun t => Linked t ∧ Relays env conn w t)
    (fun _ _ ht hs => ⟨ht.1.change hs,ht.2.trans (change ht.1 hs)⟩) ⟨h,.refl w⟩ hc).2

theorem received (h : Linked w) (hr : ReflTransGen Received w w') : Relays env conn w w' := by
  refine (Effects.invariant (I := fun t => Linked t ∧ Relays env conn w t) (fun t u ht hs => ?_) ⟨h,.refl w⟩ hr).2
  refine ⟨ht.1.received hs,ht.2.trans ?_⟩
  cases hs with
  | change hc => exact change ht.1 hc
  | _ => exact .rests { World.Rests.refl t with }

/-- A computation that makes changes only. -/
theorem ofChanges (h : Linked w) {r : Run} (hc : Changes w r) (hr : r = .ok w') : Relays env conn w w' := by
  rw [hr] at hc
  exact changes h hc

end Relays

/-! ## The connection -/

namespace Connection
variable {self : ConnId}

theorem close_relays (h : Inv w) (hr : close self w = .ok w') : Relays env conn w w' := by
  obtain ⟨t,ht,hr⟩ := ok_of_bind hr
  cases hr
  by_cases hc : w.server.conn = some self
  · have hspec := connClosed_spec hc ((w.conns self).connecting = 0)
    rw [raiseClosed_own h.toLinked hc] at ht
    rw [ht] at hspec
    obtain ⟨u,hu,rfl⟩ := hspec
    -- The server is off the connection before anything listens to the end of it.
    have hlog : Relays env conn w (w.log self .disconnected) := .rests (.log w self ⟨nofun,nofun⟩)
    have hup : Relays env conn (w.log self .disconnected)
        (IrcServer.hangUp ((w.conns self).connecting = 0) (w.log self .disconnected)) :=
      .off (Nat.le_refl _) (fun _ => nofun) ⟨[],(List.append_nil _).symm⟩ ⟨[],(List.append_nil _).symm⟩
    have hlinked := (h.action (log_acts self .disconnected w)).toLinked.hangUp ((w.conns self).connecting = 0)
    have heffects : Relays env conn (IrcServer.hangUp ((w.conns self).connecting = 0) (w.log self .disconnected)) u :=
      .effects hlinked (hangUp_effects hu)
    have hwait : Relays env conn u (IrcServer.awaitReconn u) := .rests { World.Rests.refl u with }
    exact (((hlog.trans hup).trans heffects).trans hwait).trans (.rests (.deleteLater self _))
  · rw [raiseClosed_other hc] at ht
    cases ht
    exact .rests (.deleteLater self w)

/-- Neither the queue of a connection that is established nor its ring holds anything. -/
theorem raiseConnected_relays (h : Inv w) (hst : w.server.conn = some self → w.server.sendQueue = none)
    (hr : raiseConnected self w = .ok w') : Relays env conn w w' := by
  have hlog : Relays env conn w (w.log self .connected) := .rests (.log w self ⟨nofun,nofun⟩)
  by_cases hc : w.server.conn = some self
  · rw [raiseConnected_own h.toLinked hc] at hr
    cases hr
    have hset : (w.log self .connected).Rests conn ((w.log self .connected).setConn self fun c => { c with
        dataReceived := c.dataReceived.register () .connDataReceived 0
        dataSent := c.dataSent.register () .connDataSent 0 }) := .setConn _ self fun _ => rfl
    rw [IrcServer.connConnected,if_pos (show (w.log self .connected).server.conn = some self from hc)]
    refine (hlog.trans (.rests hset)).trans ⟨Nat.le_refl _,fun _ hconn => hconn,[],[],(List.append_nil _).symm,
      (List.append_nil _).symm,fun _ _ out hout => ?_⟩
    obtain ⟨bufs,hw,hlen,rfl⟩ := hout
    have hbufs : bufs = [] := by
      rw [show ((w.log self .connected).setConn self _).server.sendQueue = none from hst hc] at hw
      exact hw
    subst hbufs
    exact ⟨_,⟨[],IBQueue.create_queues,hlen,rfl⟩,List.append_nil _⟩
  · rw [raiseConnected_other hc] at hr
    cases hr
    exact hlog

/-! ### Writing -/

/-- A write takes `n` bytes, which leave the ring. -/
theorem write_relays (w : World) (self : ConnId) {o : Operation} (ho : o = .write ∨ o = .sslWrite) {n : ℕ}
    (hw : env.write = .sent n) {f : Connection → Connection} (hf : w.server.conn = some self → (w.conns self).unsent =
      ((w.conns self).writerecs (w.conns self).baserecidx).rest.take n ++ (f (w.conns self)).unsent) :
    Relays env conn w ((w.log self o).setConn self f) := by
  refine ⟨Nat.le_refl _,fun _ hc => hc,[⟨self,o,w.conns self⟩],[],rfl,(List.append_nil _).symm,fun _ hc out hout => ?_⟩
  obtain ⟨bufs,hq,hlen,rfl⟩ := hout
  refine ⟨_,⟨bufs,hq,hlen,rfl⟩,?_⟩
  rw [setConn_conns]
  by_cases hself : conn = self
  · subst hself
    have hwrites : Entry.Writes conn ⟨conn,o,w.conns conn⟩ := ⟨rfl,ho⟩
    rw [if_pos rfl,hf hc]
    simp only [List.flatMap_cons,List.flatMap_nil,List.append_nil,List.flatten_nil,Entry.written,if_pos hwrites,hw,
      List.append_assoc]
    rfl
  · have hquiet : ¬ Entry.Writes conn ⟨self,o,w.conns self⟩ := fun h => hself h.1.symm
    rw [if_neg hself]
    simp only [List.flatMap_cons,List.flatMap_nil,List.append_nil,List.flatten_nil,written_of_not_writes hquiet,
      List.nil_append]
    rfl

/-- A write that takes nothing. -/
theorem blocked_relays (w : World) (self : ConnId) (o : Operation) (hw : ∀ n, env.write ≠ .sent n) :
    Relays env conn w (w.log self o) := by
  have hnone : Entry.written env conn ⟨self,o,w.conns self⟩ = [] := by
    unfold Entry.written
    split
    · split
      · next hsent => exact absurd hsent (hw _)
      · rfl
    · rfl
  refine ⟨Nat.le_refl _,fun _ hc => hc,[⟨self,o,w.conns self⟩],[],rfl,(List.append_nil _).symm,fun _ _ out hout => ?_⟩
  refine ⟨out,hout,?_⟩
  rw [List.flatMap_cons,hnone]
  exact List.append_nil _

theorem rest_length (r : WriteRecord) : r.rest.length ≤ r.wrbuflen - r.wrbufpos := by
  rw [WriteRecord.rest,List.length_drop,WriteRecord.bytes,List.length_take]
  omega

theorem rest_advance (r : WriteRecord) (n : ℕ) :
    r.rest = r.rest.take n ++ ({ r with wrbufpos := r.wrbufpos + n } : WriteRecord).rest := by
  change r.rest = r.rest.take n ++ r.bytes.drop (r.wrbufpos + n)
  rw [← List.drop_drop]
  exact (List.take_append_drop n _).symm

/-- The event for a complete write reaches the server, which then sends its next command. -/
theorem acknowledged_relays (h : Inv w) (hc : w.server.conn = some self) (hn : (w.conns self).nrecs ≠ 0)
    (ht : (w.conns self).tlsWriteSt = .none) (ops : List Entry) (r wr : ℤ → Bool) (hr : confirm self true
      { w.setConn self dropRecord with ghost.operations := ops, service.readfds := r, service.writefds := wr } = .ok w') :
    Relays env conn
      { w.setConn self dropRecord with ghost.operations := ops, service.readfds := r, service.writefds := wr } w' := by
  have ha := (h.attached self hc).established ((h.attached self hc).pending hn).2.1
  have hsent : ((w.setConn self dropRecord).conns self).dataSent.Only () .connDataSent 0 := by
    rw [setConn_conns,if_pos rfl]
    exact ha.2.2.2
  have hconf : confirm self true { w.setConn self dropRecord with
      ghost.operations := ops, service.readfds := r, service.writefds := wr } =
      IrcServer.sendRaw none (IrcServer.acknowledged self ops r wr w) := confirm_own hc hsent
  rw [hconf] at hr
  have hack := h.action (.acknowledge w self ops r wr hc hn ht)
  have hclear : World.Rests conn { w.setConn self dropRecord with
      ghost.operations := ops, service.readfds := r, service.writefds := wr } (IrcServer.acknowledged self ops r wr w) :=
    { World.Rests.refl _ with }
  exact (Relays.rests hclear).trans (IrcServer.sendRaw_relays hack.toLinked (by nofun) hr)

/-- Behind a write of `n` bytes they have left the ring, and the next command follows a complete record. -/
theorem sent_relays (env : Env) (conn : ConnId) (h : Inv w) {n : ℕ}
    (hn : w.server.conn = some self → (w.conns self).nrecs ≠ 0 ∧ (w.conns self).tlsWriteSt = .none)
    (hr : sent self n w = .ok w') : ∃ f : Connection → Connection, (w.server.conn = some self → (w.conns self).unsent =
      ((w.conns self).writerecs (w.conns self).baserecidx).rest.take n ++ (f (w.conns self)).unsent) ∧
      Relays env conn (w.setConn self f) w' := by
  have hone : w.server.conn = some self → (w.conns self).nrecs = 1 ∧ (w.conns self).baserecidx < NWRITERECS :=
    fun hc => ⟨((h.attached self hc).pending (hn hc).1).1,(h.attached self hc).base⟩
  unfold sent at hr
  dsimp only at hr
  split at hr
  · generalize hrec : (w.conns self).writerecs (w.conns self).baserecidx = record at hr
    refine ⟨fun c => { c with
      writerecs := Function.update c.writerecs c.baserecidx { record with wrbufpos := record.wrbufpos + n } },
      fun hc => ?_,?_⟩
    · obtain ⟨hnrecs,hbase⟩ := hone hc
      rw [unsent_one hnrecs hbase,hrec,unsent_update hnrecs hbase]
      exact rest_advance record n
    · cases hr
      split
      · exact .rests (.wantreadwrite self _)
      · exact .refl _
  · next hall =>
    refine ⟨dropRecord,fun hc => ?_,?_⟩
    · obtain ⟨hnrecs,hbase⟩ := hone hc
      have hempty : (dropRecord (w.conns self)).nrecs = 0 := by
        rw [dropRecord,hnrecs]
      rw [unsent_one hnrecs hbase,unsent_zero hempty,List.append_nil,
        List.take_of_length_le ((rest_length _).trans (not_lt.mp hall))]
    · by_cases hc : w.server.conn = some self
      · obtain ⟨hne,htls⟩ := hn hc
        rw [((h.attached self hc).pending hne).2.2.2.2] at hr
        split at hr
        · obtain ⟨t,ht,hr⟩ := ok_of_bind hr
          cases hr
          have hack : Relays env conn (w.setConn self dropRecord) t :=
            acknowledged_relays h hc hne htls w.ghost.operations w.service.readfds w.service.writefds ht
          exact hack.trans (.rests (.wantreadwrite self t))
        · have hwant : World.Rests conn (w.setConn self dropRecord) (wantreadwrite self (w.setConn self dropRecord)) :=
            .wantreadwrite self _
          obtain ⟨ops,r,wr,hw⟩ := wantreadwrite_shape self (w.setConn self dropRecord)
          rw [hw] at hr hwant
          exact (Relays.rests hwant).trans (acknowledged_relays h hc hne htls ops r wr hr)
      · split at hr
        · rw [confirm_other (w := w.setConn self dropRecord) hc] at hr
          cases hr
          exact .rests (.wantreadwrite self _)
        · have hwant : World.Rests conn (w.setConn self dropRecord) (wantreadwrite self (w.setConn self dropRecord)) :=
            .wantreadwrite self _
          rw [confirm_other (by rw [hwant.server]; exact hc)] at hr
          cases hr
          exact .rests hwant

theorem setConn_setConn (w : World) (self : ConnId) (f g : Connection → Connection) :
    (w.setConn self f).setConn self g = w.setConn self (g ∘ f) := by
  unfold World.setConn
  simp only [Function.update_self,Function.update_idem,Function.comp_apply]

theorem dowrite_relays (h : Inv w) (hn : w.server.conn = some self → (w.conns self).nrecs ≠ 0)
    (hr : dowrite env self w = .ok w') : Relays env conn w w' := by
  unfold dowrite at hr
  split at hr
  · have hlog := h.action (log_acts self .sslWrite w)
    dsimp only at hr
    split at hr
    · next n hw =>
      have hdone : Action (w.log self .sslWrite)
          ((w.log self .sslWrite).setConn self fun c => { c with tlsWriteSt := .none }) :=
        setConn_acts (fun _ => ⟨rfl,rfl,rfl,rfl,rfl,rfl,rfl,rfl,rfl,fun hne => absurd rfl hne,Or.inl ⟨rfl,rfl⟩⟩) fun hn => hn
      obtain ⟨f,hf,hsent⟩ := sent_relays env conn (hlog.action hdone)
        (fun hc => by rw [setConn_conns,if_pos rfl]; exact ⟨hn hc,rfl⟩) hr
      rw [setConn_setConn] at hsent
      refine (write_relays w self (Or.inr rfl) hw fun hc => ?_).trans hsent
      have hbytes := hf hc
      rw [setConn_conns,if_pos rfl] at hbytes
      exact hbytes
    · next hw => exact (blocked_relays w self .sslWrite (by simp [hw])).trans (close_relays hlog hr)
    · next hw => exact (blocked_relays w self .sslWrite (by simp [hw])).trans (close_relays hlog hr)
    · next st _ hw =>
      cases hr
      have hset : (w.log self .sslWrite).Rests conn
          ((w.log self .sslWrite).setConn self fun c => { c with tlsWriteSt := st }) := .setConn _ self fun _ => rfl
      exact ((blocked_relays w self .sslWrite (by simp [hw])).trans (.rests hset)).trans (.rests (.wantreadwrite self _))
  · next htls =>
    have hlog := h.action (log_acts self .write w)
    dsimp only at hr
    split at hr
    · next n hw =>
      have hplain : w.server.conn = some self → (w.conns self).tlsWriteSt = .none :=
        fun hc => (h.attached self hc).plain (by simpa using htls)
      obtain ⟨f,hf,hsent⟩ := sent_relays env conn hlog (fun hc => ⟨hn hc,hplain hc⟩) hr
      exact (write_relays w self (Or.inl rfl) hw hf).trans hsent
    · next hw =>
      cases hr
      exact blocked_relays w self .write (by simp [hw])
    · next hw => exact (blocked_relays w self .write (by simp [hw])).trans (close_relays hlog hr)

/-! ### Reading and connecting -/

theorem raiseDataReceived_relays (h : Inv w) {data : Bytes} (hlen : data.length ≤ CONNBUFSZ)
    (hr : raiseDataReceived env self data w = .ok w') : Relays env conn w w' := by
  have hspec := raiseDataReceived_spec h env self hlen
  rw [hr] at hspec
  have hlog : Relays env conn w (w.log self .dataReceived) := .rests (.log w self ⟨nofun,nofun⟩)
  rcases hspec with rfl | ⟨_,hreads⟩
  · exact hlog
  · exact hlog.trans (.received (h.action (log_acts self .dataReceived w)).toLinked hreads.steps)

theorem doread_relays (h : Inv w) (hr : doread env self w = .ok w') : Relays env conn w w' := by
  unfold doread at hr
  split at hr
  · have hlog := h.action (log_acts self .sslRead w)
    have hquiet : Relays env conn w (w.log self .sslRead) := .rests (.log w self ⟨nofun,nofun⟩)
    have hset : ∀ st, (w.log self .sslRead).Rests conn
        ((w.log self .sslRead).setConn self fun c => { c with tlsReadSt := st }) := fun st => .setConn _ self fun _ => rfl
    dsimp only at hr
    split at hr
    · next chunk _ =>
      obtain ⟨t,ht,hr⟩ := ok_of_bind hr
      cases hr
      have hfield : Action (w.log self .sslRead)
          ((w.log self .sslRead).setConn self fun c => { c with tlsReadSt := .none }) :=
        field_acts fun _ => ⟨rfl,rfl,rfl,rfl,rfl,rfl,rfl,rfl,rfl,rfl,rfl⟩
      have hread : Relays env conn _ t := raiseDataReceived_relays (hlog.action hfield) chunk.fits ht
      exact ((hquiet.trans (.rests (hset _))).trans hread).trans (.rests (.wantreadwrite self t))
    · exact hquiet.trans (close_relays hlog hr)
    · exact hquiet.trans (close_relays hlog hr)
    · cases hr
      exact (hquiet.trans (.rests (hset _))).trans (.rests (.wantreadwrite self _))
  · have hlog := h.action (log_acts self .read w)
    have hquiet : Relays env conn w (w.log self .read) := .rests (.log w self ⟨nofun,nofun⟩)
    dsimp only at hr
    split at hr
    · next chunk _ =>
      obtain ⟨t,ht,hr⟩ := ok_of_bind hr
      cases hr
      exact (hquiet.trans (raiseDataReceived_relays hlog chunk.fits ht)).trans (.rests (.wantreadwrite self t))
    · cases hr
      exact hquiet
    · exact hquiet.trans (close_relays hlog hr)

theorem dohandshake_relays (h : Inv w) (hst : w.server.conn = some self →
    w.server.sendQueue = none ∧ (w.conns self).connecting = 0) (hr : dohandshake env self w = .ok w') :
    Relays env conn w w' := by
  have hlog := h.action (log_acts self .sslConnect w)
  have hquiet : Relays env conn w (w.log self .sslConnect) := .rests (.log w self ⟨nofun,nofun⟩)
  replace hst : (w.log self .sslConnect).server.conn = some self →
      (w.log self .sslConnect).server.sendQueue = none ∧ ((w.log self .sslConnect).conns self).connecting = 0 := hst
  unfold dohandshake at hr
  dsimp only at hr
  refine hquiet.trans ?_
  generalize w.log self .sslConnect = v at hlog hst hr
  have htls : ∀ st, Action v (v.setConn self fun c => { c with tlsConnectSt := st }) := by
    refine fun st => setConn_acts (fun hc => ?_) (fun hn => hn)
    obtain ⟨hq,hcon⟩ := hst hc
    exact ⟨rfl,rfl,rfl,rfl,rfl,rfl,rfl,rfl,rfl,Or.inl,Or.inr ⟨by rw [hq]; rfl,fun hne => absurd hcon hne⟩⟩
  have hset : ∀ st, v.Rests conn (v.setConn self fun c => { c with tlsConnectSt := st }) :=
    fun st => .setConn v self fun _ => rfl
  have htick : Relays env conn v { v with service.tick := v.service.tick.unregister () (.checkPendingTls self) 0 } :=
    .rests { World.Rests.refl v with }
  have hdrop := Action.tickUnregister v (.checkPendingTls self) not_false
  split at hr
  · obtain ⟨t,ht,hr⟩ := ok_of_bind hr
    cases hr
    have h1 := htls .none
    have h2 := Action.tickUnregister (v.setConn self fun c => { c with tlsConnectSt := .none }) (.checkPendingTls self)
      not_false
    have h3 : ∀ u : World, Action u (u.setConn self fun c => { c with tlsConnectTicks := 0 }) :=
      fun u => field_acts fun _ => ⟨rfl,rfl,rfl,rfl,rfl,rfl,rfl,rfl,rfl,rfl,rfl⟩
    have hquiet : Relays env conn v (World.setConn { v.setConn self fun c => { c with tlsConnectSt := .none } with
        service.tick := v.service.tick.unregister () (.checkPendingTls self) 0 } self
        fun c => { c with tlsConnectTicks := 0 }) := by
      refine .rests (((hset .none).trans ?_).trans (.setConn _ self fun _ => rfl))
      exact { World.Rests.refl _ with }
    have hraise : Relays env conn _ t := raiseConnected_relays (((hlog.action h1).action h2).action (h3 _))
      (fun hc => (hst hc).1) ht
    exact (hquiet.trans hraise).trans (.rests (.wantreadwrite self t))
  · exact htick.trans (close_relays (hlog.action hdrop) hr)
  · exact htick.trans (close_relays (hlog.action hdrop) hr)
  · cases hr
    exact (Relays.rests (hset _)).trans (.rests (.wantreadwrite self _))

theorem initiated_relays (h : Inv w) (hself : self < w.nconns)
    (hst : w.server.conn = some self → w.server.sendQueue = none ∧ (w.conns self).connecting = 0)
    {tls : Bool} (hr : (if tls then
        let w := w.setConn self fun c => { c with tlsConnectTicks := CONNTICKS }
        dohandshake env self { w with service.tick := w.service.tick.register () (.checkPendingTls self) 0 }
      else raiseConnected self (wantreadwrite self w)) = .ok w') : Relays env conn w w' := by
  split at hr
  · have h1 : Action w (w.setConn self fun c => { c with tlsConnectTicks := CONNTICKS }) :=
      field_acts fun _ => ⟨rfl,rfl,rfl,rfl,rfl,rfl,rfl,rfl,rfl,rfl,rfl⟩
    have h2 := Action.tickRegister (w.setConn self fun c => { c with tlsConnectTicks := CONNTICKS })
      (.checkPendingTls self) ⟨nofun,nofun⟩ not_false hself
    have hset : w.Rests conn (w.setConn self fun c => { c with tlsConnectTicks := CONNTICKS }) :=
      .setConn w self fun _ => rfl
    have htick : World.Rests conn (w.setConn self fun c => { c with tlsConnectTicks := CONNTICKS })
        { w.setConn self fun c => { c with tlsConnectTicks := CONNTICKS } with
          service.tick := w.service.tick.register () (.checkPendingTls self) 0 } := { World.Rests.refl _ with }
    refine (Relays.rests (hset.trans htick)).trans (dohandshake_relays ((h.action h1).action h2) (fun hc => ?_) hr)
    refine ⟨(hst hc).1,?_⟩
    rw [setConn_conns,if_pos rfl]
    exact (hst hc).2
  · have hwant : w.Rests conn (wantreadwrite self w) := .wantreadwrite self w
    refine (Relays.rests hwant).trans (raiseConnected_relays (h.actions (wantreadwrite_acts self w)) (fun hc => ?_) hr)
    rw [hwant.sendQueue]
    exact (hst (hwant.server ▸ hc)).1

theorem writeConnection_relays (h : Inv w) (hself : self < w.nconns) (hr : writeConnection env self w = .ok w') :
    Relays env conn w w' := by
  unfold writeConnection at hr
  dsimp only at hr
  split at hr
  · next hne =>
    have h1 := Action.tickUnregister w (.checkPendingConnection self) not_false
    have h2 := log_acts self .getsockopt
      { w with service.tick := w.service.tick.unregister () (.checkPendingConnection self) 0 }
    have hinv := (h.action h1).action h2
    have htick : w.Rests conn
        { w with service.tick := w.service.tick.unregister () (.checkPendingConnection self) 0 } :=
      { World.Rests.refl w with }
    have hlog := htick.trans (.log _ self (o := .getsockopt) ⟨nofun,nofun⟩)
    split at hr
    · exact (Relays.rests hlog).trans (close_relays hinv hr)
    · have h3 := initiate_acts hinv hne
      have hset := hlog.trans (.setConn _ self (f := fun c => { c with connecting := 0 }) fun _ => rfl)
      refine (Relays.rests hset).trans (initiated_relays (hinv.action h3) hself (fun hc => ?_) hr)
      have hq : w.server.sendQueue = none := not_queued h hc (Or.inl hne)
      refine ⟨hq,?_⟩
      rw [setConn_conns,if_pos rfl]
  · next heq =>
    have heq : (w.conns self).connecting = 0 := not_not.mp heq
    split at hr
    · next hst =>
      refine dohandshake_relays h (fun hc => ⟨not_queued h hc (Or.inr ?_),heq⟩) hr
      rw [hst]
      exact nofun
    · split at hr
      · exact doread_relays h hr
      · split at hr
        · next hst => exact dowrite_relays h (fun hc => (h.attached self hc).writing (by rw [hst]; exact nofun)) hr
        · split at hr
          · cases hr
            exact .rests (.wantreadwrite self w)
          · next hn => exact dowrite_relays h (fun _ => hn) hr

theorem readConnection_relays (h : Inv w) (hr : readConnection env self w = .ok w') : Relays env conn w w' := by
  unfold readConnection at hr
  dsimp only at hr
  split at hr
  · next hst =>
    have hne : (w.conns self).tlsConnectSt ≠ .none := by
      rw [hst]
      exact nofun
    refine dohandshake_relays h (fun hc => ⟨not_queued h hc (Or.inr hne),?_⟩) hr
    by_contra hcon
    exact hne ((h.attached self hc).connecting hcon)
  · split at hr
    · exact doread_relays h hr
    · split at hr
      · next hst => exact dowrite_relays h (fun hc => (h.attached self hc).writing (by rw [hst]; exact nofun)) hr
      · split at hr
        · cases hr
          exact .refl w
        · exact doread_relays h hr

/-! ### Deletion -/

theorem drain_relays {n : ℕ} (hc : w.server.conn ≠ some self) (hr : drain self n w = .ok w') :
    Relays env conn w w' := by
  induction n generalizing w with
  | zero =>
    rw [drain] at hr
    split at hr
    · cases hr
      exact .refl _
    · cases hr
  | succ n ih =>
    rw [drain] at hr
    split at hr
    · cases hr
      exact .refl _
    · rw [confirm_other hc] at hr
      exact (Relays.other hc).trans (ih hc hr)

theorem destroy_relays (hc : w.server.conn ≠ some self) (hr : destroy self w = .ok w') : Relays env conn w w' := by
  unfold destroy at hr
  split at hr
  · cases hr
    exact .refl w
  · dsimp only at hr
    obtain ⟨t,ht,hr⟩ := ok_of_bind hr
    cases hr
    have hlog : w.Rests conn (w.log self .destroy) := .log w self ⟨nofun,nofun⟩
    have hstart : w.Rests conn (Service.unregisterWrite ((w.log self .destroy).conns self).fd
        (Service.unregisterRead ((w.log self .destroy).conns self).fd (w.log self .destroy))) :=
      hlog.trans { World.Rests.refl _ with }
    have hdrain : Relays env conn w t := (Relays.rests hstart).trans (drain_relays hc ht)
    split
    · exact hdrain.trans (.rests { World.Rests.refl t with })
    · have hclose : t.Rests conn (t.log self .close) := .log t self ⟨nofun,nofun⟩
      exact (hdrain.trans (.rests hclose)).trans (.rests { World.Rests.refl _ with })

theorem deleteConnection_relays (hc : w.server.conn ≠ some self) (hr : deleteConnection self w = .ok w') :
    Relays env conn w w' :=
  (Relays.other hc).trans (destroy_relays hc hr)

/-! ### Pending connections -/

theorem checkPendingConnection_relays (h : Inv w) (hr : checkPendingConnection self w = .ok w') :
    Relays env conn w w' := by
  unfold checkPendingConnection at hr
  split at hr
  · next hne =>
    have hset : w.Rests conn (w.setConn self fun c => { c with connecting := c.connecting - 1 }) :=
      .setConn w self fun _ => rfl
    have h1 := countdown_acts h hne
    dsimp only at hr
    split at hr
    · have hfd : ∀ fd, Relays env conn w (Service.unregisterWrite fd
          (w.setConn self fun c => { c with connecting := c.connecting - 1 })) :=
        fun fd => .rests (hset.trans { World.Rests.refl _ with })
      exact (hfd _).trans (close_relays ((h.action h1).action (unregisterWrite_acts _ _)) hr)
    · cases hr
      exact .rests hset
  · cases hr
    exact .refl w

theorem checkPendingTls_relays (h : Inv w) (hr : checkPendingTls self w = .ok w') : Relays env conn w w' := by
  unfold checkPendingTls at hr
  split at hr
  · have hset : w.Rests conn (w.setConn self fun c => { c with tlsConnectTicks := c.tlsConnectTicks - 1 }) :=
      .setConn w self fun _ => rfl
    dsimp only at hr
    split at hr
    · exact (Relays.rests hset).trans (close_relays (h.action (tlsCountdown_acts self w)) hr)
    · cases hr
      exact .rests hset
  · cases hr
    exact .refl w

end Connection

end LibIrcBot
