import LibIrcBot.System.Loop
import LibIrcBot.Containers.QueueFifo

/-! # The pending write

`sending` is set when a command is handed to the connection, and reset when the
connection reports the write as done. The server gives up its connection without
resetting it.
-/
namespace LibIrcBot
open CString Effects Relation

variable {w w' : World}

/-- No connection of the server was closed while a write was pending. -/
def World.ClosedSent (w : World) : Prop := ∀ c ∈ w.ghost.closings, c.sending = false

/-- While the flag is set the server's connection has a pending write. -/
structure SendPending (w : World) : Prop where
  offline : w.server.conn = none → w.server.sending = false
  pending : ∀ self, w.server.conn = some self → w.server.sending = true → (w.conns self).nrecs ≠ 0
  openings : ∀ o ∈ w.ghost.openings, o = false

namespace SendPending

theorem sends (hi : Linked w) (h : SendPending w) (hs : IrcServer.Sends w w') : SendPending w' := by
  cases hs with
  | queued allocs commands queue hq => exact { h with }
  | drained allocs commands queue hq hs =>
    exact { h with
      pending := fun self hc hsend => by
        change w.server.sending = true at hsend
        rw [hs] at hsend
        cases hsend }
  | written allocs commands queue buf credits conn hq hsome hs hc =>
    have ha := hi.attached conn hc
    rw [hs] at ha
    obtain ⟨ops,r,wr,he⟩ := write_idle (w := { w with
      allocs := allocs
      ghost.commands := commands
      server.sendQueue := queue
      server.sendcmd := some buf
      server.sending := true
      server.sendcreditticks := credits }) ha.idle buf true
    rw [he]
    refine ⟨fun hn => ?_,fun self hc' _ => ?_,h.openings⟩
    · change w.server.conn = none at hn
      rw [hc] at hn
      cases hn
    · obtain rfl : conn = self := Option.some.inj (hc.symm.trans hc')
      change (Function.update w.conns conn _ conn).nrecs ≠ 0
      rw [Function.update_self]
      exact Nat.succ_ne_zero _

theorem effect (hi : Linked w) (h : SendPending w) (he : Effect w w') : SendPending w' := by
  cases he with
  | send _ cmd args hcmd _ hs =>
    obtain ⟨name,hname⟩ := Option.isSome_iff_exists.mp hcmd
    rw [IrcServer.sendRawCmd_eq hname] at hs
    exact h.sends hi (IrcServer.sendRaw_sends hs)
  | remove self _ =>
    obtain ⟨_,_,he⟩ := remove_shape (w.chans self).name self w
    rw [he]
    exact { h with }
  | _ => exact { h with }

theorem received (hi : Linked w) (h : SendPending w) (hr : Received w w') : SendPending w' := by
  cases hr with
  | change hc =>
    cases hc with
    | call hd =>
      exact (Effects.invariant (I := fun t => Linked t ∧ SendPending t)
        (fun _ _ ht hs => ⟨ht.1.effect hs,ht.2.effect ht.1 hs⟩) ⟨hi,h⟩ hd.effects).2
    | send _ command _ hs => exact h.sends hi (IrcServer.sendRaw_sends hs)
    | addChannel name _ =>
      obtain ⟨_,_,_,_,_,he⟩ := addChannel_shape name w
      rw [he]
      exact { h with }
    | _ => exact { h with }
  | _ => exact { h with }

/-- While a closing is announced nothing is sent, as the server is logged out. -/
theorem hangUp_sending {established : Bool} {t : World} (hs : w.server.sending = false)
    (ht : ReflTransGen Effect (IrcServer.hangUp established w) t) : t.server.sending = false := by
  have hboth := Effects.invariant (I := fun u => u.server.connst = 0 ∧ u.server.sending = false) ?_
    ⟨rfl,hs⟩ ht
  · exact hboth.2
  · rintro u v ⟨hst,hu⟩ huv
    refine ⟨huv.same.connst.trans hst,?_⟩
    cases huv with
    | send _ cmd args hcmd hpos hs =>
      rw [hst] at hpos
      cases hpos
    | remove self _ =>
      obtain ⟨_,_,he⟩ := remove_shape (u.chans self).name self u
      rw [he]
      exact hu
    | _ => exact hu

theorem close {established : Bool} {t : World} (h : SendPending w)
    (ht : ReflTransGen Effect (IrcServer.hangUp established w) t) (hs : w.server.sending = false) :
    SendPending (IrcServer.awaitReconn t) := by
  have hsame := same_of_effects ht
  have hoff : t.server.sending = false := hangUp_sending hs ht
  refine ⟨fun _ => hoff,fun self hc => ?_,?_⟩
  · change t.server.conn = some self at hc
    rw [hsame.conn] at hc
    cases hc
  · change ∀ o ∈ t.ghost.openings, o = false
    rw [hsame.openings]
    exact h.openings

theorem establish {conn : ConnId} (hi : Inv w) (h : SendPending w) (hc : w.server.conn = some conn)
    (hq : w.server.sendQueue = none) : SendPending (IrcServer.connConnected conn w) := by
  -- A connection without a queue has no pending write, so that the flag is not set.
  have hs : w.server.sending = false := by
    by_contra hne
    have hn := h.pending conn hc (by simpa using hne)
    have hqueue := ((hi.attached conn hc).pending hn).2.1
    rw [hq] at hqueue
    cases hqueue
  rw [IrcServer.connConnected,if_pos hc]
  refine ⟨fun hn => ?_,fun self _ hsend => ?_,?_⟩
  · change w.server.conn = none at hn
    rw [hc] at hn
    cases hn
  · change w.server.sending = true at hsend
    rw [hs] at hsend
    cases hsend
  · change ∀ o ∈ w.ghost.openings ++ [w.server.sending], o = false
    intro o ho
    rcases List.mem_append.mp ho with ho | ho
    · exact h.openings o ho
    · exact (List.mem_singleton.mp ho).trans hs

theorem setConn {self : ConnId} {f : Connection → Connection} (h : SendPending w)
    (hf : w.server.conn = some self → (f (w.conns self)).nrecs = (w.conns self).nrecs) :
    SendPending (w.setConn self f) := by
  refine { h with pending := fun c hc hs => ?_ }
  rw [setConn_conns]
  split
  · next he =>
    subst he
    rw [hf hc]
    exact h.pending c hc hs
  · exact h.pending c hc hs

end SendPending

/-- The invariant holds as long as no connection is closed with a pending write. -/
def SendSafe (w : World) : Prop := w.ClosedSent → SendPending w

theorem SendSafe.action (hi : Inv w) (h : SendSafe w) (ha : Action w w') : SendSafe w' := by
  intro hsent
  cases ha with
  | change hc =>
    rw [World.ClosedSent,hc.same.closings] at hsent
    exact (h hsent).received hi.toLinked (.change hc)
  | receive _ data hw hr =>
    rw [World.ClosedSent,(same_of_received hr.steps).closings] at hsent
    have hboth := Effects.invariant (I := fun u => Linked u ∧ SendPending u)
      (fun _ _ hu hs => ⟨hu.1.received hs,hu.2.received hu.1 hs⟩) ⟨hi.toLinked,h hsent⟩ hr.steps
    exact hboth.2
  | establish conn hc hq hst =>
    refine (h ?_).establish hi hc hq
    rw [IrcServer.connConnected,if_pos hc] at hsent
    exact hsent
  | close t est hc ht =>
    have hclosings : t.ghost.closings = w.ghost.closings ++
        [⟨w.service.tick.count () .activeTick 0,w.server.sending,w.server.recvbuf⟩] :=
      (same_of_effects (hangUp_effects ht)).closings
    change ∀ c ∈ t.ghost.closings, c.sending = false at hsent
    rw [hclosings] at hsent
    refine (h fun c hmem => hsent c (List.mem_append_left _ hmem)).close (hangUp_effects ht) ?_
    exact hsent _ (List.mem_append_right _ (List.mem_singleton_self _))
  | acknowledge conn operations readfds writefds hc hn ht =>
    exact ⟨fun _ => rfl,fun _ _ hs => absurd hs Bool.false_ne_true,(h hsent).openings⟩
  | connect env hc =>
    rcases connect_shape env hc with he | ⟨fd,conns,_,_,he⟩
    · rw [he] at hsent ⊢
      exact h hsent
    · rw [he] at hsent ⊢
      have hoff := (h hsent).offline hc
      refine ⟨fun hn => absurd hn (Option.some_ne_none _),fun self _ hs => ?_,(h hsent).openings⟩
      change w.server.sending = true at hs
      rw [hoff] at hs
      cases hs
  | own self f hc hf => exact (h hsent).setConn (fun _ => hf.nrecs)
  | other self f hc hf => exact (h hsent).setConn (fun hc' => absurd hc' hc)
  | _ => exact { h hsent with }

theorem World.Initial.sendSafe (h : w.Initial) : SendSafe w := by
  intro _
  refine ⟨fun _ => h.sending,fun self _ hs => ?_,?_⟩
  · rw [h.sending] at hs
    cases hs
  · rw [h.ghost]
    exact nofun

theorem World.Reachable.sendSafe (h : w.Reachable) : SendSafe w :=
  World.Reachable.induct (I := SendSafe) (fun _ hi => hi.sendSafe)
    (fun _ _ hi hs ha => SendSafe.action hi hs ha) h

/-- Without a pending write, and with an empty queue, a command is written at once. -/
theorem sendRaw_first {conn : ConnId} (hc : w.server.conn = some conn)
    (hq : w.server.sendQueue = some IBQueue.create) (hs : w.server.sending = false)
    (hcredit : 2 ≤ w.server.sendcreditticks) (command : Bytes) : ∃ queue,
    IrcServer.sendRaw (some command) w = .ok (Connection.write conn ⟨w.allocs,command⟩ true { w with
      allocs := w.allocs + 1
      ghost.commands := w.ghost.commands ++ [command]
      server.sendQueue := some queue
      server.sendcmd := some ⟨w.allocs,command⟩
      server.sending := true
      server.sendcreditticks := w.server.sendcreditticks - 2 }).2 := by
  have hslots : (IBQueue.create.enqueue (⟨w.allocs,command⟩ : Buffer) (some Deleter.free)).slots =
      [(⟨w.allocs,command⟩,some Deleter.free)].map some :=
    IBQueue.enqueue_slots IBQueue.create_wf (fun _ => rfl) _ _
  obtain ⟨hdeq,_⟩ := IBQueue.dequeue_slots (IBQueue.enqueue_wf IBQueue.create_wf _ _) hslots
  have hlt : ¬ w.server.sendcreditticks < 2 := by omega
  refine ⟨((IBQueue.create.enqueue (⟨w.allocs,command⟩ : Buffer) (some Deleter.free)).dequeue).2,?_⟩
  rw [IrcServer.sendRaw,IrcServer.queueRaw]
  dsimp only
  rw [hq]
  dsimp only [bind,Except.bind,World.copystr]
  rw [IrcServer.sendNext]
  dsimp only
  rw [if_neg (by simp [hs,hlt])]
  cases hd : (IBQueue.create.enqueue (⟨w.allocs,command⟩ : Buffer) (some Deleter.free)).dequeue with
  | mk obj queue =>
    rw [hd] at hdeq
    dsimp only at hdeq
    rw [hdeq]
    dsimp only
    rw [hc]

/-- In a run whose connections are all closed without a pending write: the flag is set exactly
while the connection has one pending write, that of `sendcmd`; it is not set when a connection has
been established; and the first command on such a connection is written at once. -/
theorem sending_exact (h : w.Reachable) (hsent : w.ClosedSent) :
    (w.server.sending = true ↔ ∃ self, w.server.conn = some self ∧ (w.conns self).nrecs = 1 ∧
      w.server.sendcmd = some ((w.conns self).writerecs (w.conns self).baserecidx).wrbuf) ∧
    (∀ o ∈ w.ghost.openings, o = false) ∧
    ∀ (u : World) conn command, u.server.conn = some conn → u.server.sendQueue = some IBQueue.create →
      u.server.sending = false → 2 ≤ u.server.sendcreditticks → ∃ queue,
        IrcServer.sendRaw (some command) u = .ok (Connection.write conn ⟨u.allocs,command⟩ true { u with
          allocs := u.allocs + 1
          ghost.commands := u.ghost.commands ++ [command]
          server.sendQueue := some queue
          server.sendcmd := some ⟨u.allocs,command⟩
          server.sending := true
          server.sendcreditticks := u.server.sendcreditticks - 2 }).2 := by
  have hp := h.sendSafe hsent
  refine ⟨⟨fun hs => ?_,?_⟩,hp.openings,fun u conn command hc hq hs hcredit => sendRaw_first hc hq hs hcredit command⟩
  · obtain ⟨self,hc⟩ : ∃ self, w.server.conn = some self := by
      refine Option.isSome_iff_exists.mp ?_
      by_contra hn
      have hoff := hp.offline (by simpa using hn)
      rw [hs] at hoff
      cases hoff
    have hpend := (h.inv.attached self hc).pending (hp.pending self hc hs)
    exact ⟨self,hc,hpend.1,hpend.2.2.2.1⟩
  · rintro ⟨self,hc,hn,_⟩
    exact ((h.inv.attached self hc).pending (by rw [hn]; decide)).2.2.1

/-- After the first data has been received, the login is being sent. -/
theorem sending_exact_login : ∃ w : World, w.Reachable ∧ w.server.sending = true ∧
    ∃ self, w.server.conn = some self ∧ (w.conns self).nrecs = 1 := by
  have hr : (World.after (Label.iteration (.io [] [3]) 1 2
      (.delivering ⟨lit "x\x0d\n",by decide,by decide⟩)) World.connected).Reachable :=
    World.after_reachable World.connected_reachable (by decide +kernel)
  have hs := (sending_exact hr (by unfold World.ClosedSent; decide +kernel)).1
  refine ⟨_,hr,by decide +kernel,?_⟩
  obtain ⟨self,hc,hn,_⟩ := hs.mp (by decide +kernel)
  exact ⟨self,hc,hn⟩

/-- The connection is lost while the login is being sent, and established anew. -/
def World.resumed : World :=
  after (Label.dropping ⟨lit "x\x0d\n",by decide,by decide⟩ ++ Label.reconnecting) connected

/-- The flag is then set on a connection that has no pending write. -/
theorem resumed_sending : World.resumed.Reachable ∧ World.resumed.server.conn = some 1 ∧
    (World.resumed.conns 1).nrecs = 0 ∧ World.resumed.server.sending = true ∧
    World.resumed.ghost.openings = [false,true] :=
  ⟨World.after_reachable World.connected_reachable (by decide +kernel),by decide +kernel,by decide +kernel,
    by decide +kernel,by decide +kernel⟩

end LibIrcBot
