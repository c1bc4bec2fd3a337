import LibIrcBot.System.Delivery

/-! # The commands on the wire

On each connection the system receives exactly the bytes of the commands, in the order in which they were handed to
`sendRaw`, whatever else happens meanwhile and however little a call of `write` takes.
-/
namespace LibIrcBot
open CString Effects Relation Outcome Transitions

variable {w w' : World} {conn : ConnId} {env : Env}

namespace IrcServer

theorem closeConn_relays (h : Inv w) (hr : closeConn w = .ok w') : Relays env conn w w' := by
  unfold closeConn at hr
  split at hr
  · exact Connection.close_relays h hr
  · cases hr

/-- A new connection is none of those there are. -/
theorem connect_relays (answers : Env) (w : World) : Relays env conn w (connect answers w).2 := by
  by_cases hc : w.server.conn = none
  · rcases connect_shape answers hc with he | ⟨_,_,_,_,he⟩
    · rw [he]
      exact .refl w
    · rw [he]
      refine .off (Nat.le_succ _) (fun hlt heq => ?_) ⟨[],(List.append_nil _).symm⟩ ⟨[],(List.append_nil _).symm⟩
      exact Nat.ne_of_gt hlt (Option.some.inj heq)
  · rw [connect,if_pos (Option.isSome_iff_ne_none.mpr hc)]
    exact .refl w

theorem connWaitReconn_relays (answers : Env) (w : World) : Relays env conn w (connWaitReconn answers w) := by
  have hcount : w.Rests conn { w with server.reconnticks := w.server.reconnticks - 1 } := { World.Rests.refl w with }
  unfold connWaitReconn
  refine (Relays.rests hcount).trans ?_
  dsimp only
  split
  · refine (connect_relays answers _).trans ?_
    split <;> exact .rests { World.Rests.refl _ with }
  · exact .refl _

theorem connWaitLogin_relays (h : Inv w) (hr : connWaitLogin w = .ok w') : Relays env conn w w' := by
  have h1 := Action.counters w w.server.reconnticks (w.server.loginticks - 1) w.server.idleticks w.server.sendcreditticks
  have hcount : w.Rests conn { w with server.loginticks := w.server.loginticks - 1 } := { World.Rests.refl w with }
  unfold connWaitLogin at hr
  dsimp only at hr
  split at hr
  · have hinv := (h.action h1).action (.tickUnregister _ .connWaitLogin not_false)
    refine Relays.trans ?_ (closeConn_relays hinv hr)
    exact .rests (hcount.trans { World.Rests.refl _ with })
  · cases hr
    exact .rests hcount

theorem activeTick_relays (h : Inv w) (hr : activeTick w = .ok w') : Relays env conn w w' := by
  obtain ⟨credits,h1,he⟩ := credit_acts w
  unfold activeTick at hr
  rw [he] at hr
  obtain ⟨t,ht,hr⟩ := ok_of_bind hr
  have hcredit : w.Rests conn { w with server.sendcreditticks := credits } := { World.Rests.refl w with }
  have hinv : Inv t := (h.actions h1).action (.change (.send _ t none nofun ht))
  have h2 := idle_acts t
  have hidle : t.Rests conn { t with server.idleticks := t.server.idleticks - 1 } := { World.Rests.refl t with }
  have hsend : Relays env conn { w with server.sendcreditticks := credits } t :=
    sendRaw_relays (h.actions h1).toLinked (by nofun) ht
  have hstart := ((Relays.rests hcredit).trans hsend).trans (.rests hidle)
  dsimp only at hr
  split at hr
  · exact hstart.trans (sendRawCmd_relays (hinv.action h2).toLinked rfl hr)
  · split at hr
    · have hend := (hinv.action h2).action (.tickUnregister _ .activeTick not_false)
      refine Relays.trans ?_ (closeConn_relays hend hr)
      exact hstart.trans (.rests { World.Rests.refl _ with })
    · cases hr
      exact hstart

theorem disconnect_relays (h : Inv w) (hr : disconnect w = .ok w') : Relays env conn w w' := by
  have h1 := Action.tickUnregister w .connWaitLogin not_false
  have h2 := Action.tickUnregister { w with service.tick := w.service.tick.unregister () .connWaitLogin 0 }
    .connWaitReconn not_false
  have hinv := (h.action h1).action h2
  have hticks : w.Rests conn { w with
      service.tick := (w.service.tick.unregister () .connWaitLogin 0).unregister () .connWaitReconn 0 } :=
    { World.Rests.refl w with }
  unfold disconnect at hr
  dsimp only at hr
  split at hr
  · exact (Relays.rests hticks).trans (sendRawCmd_relays hinv.toLinked rfl hr)
  · split at hr
    · exact (Relays.rests hticks).trans (Connection.close_relays hinv hr)
    · cases hr
      exact .rests hticks

end IrcServer

namespace Service

theorem visit_relays {η : Type} {e : Listeners η} {id : ℤ} {call : η → World → Run}
    (hcall : ∀ slot ∈ e.handlers, ∀ handler, slot.handler = some handler → slot.id = id →
      ∀ t, call handler w = .ok t → Relays env conn w t) (hr : visit e id call w = .ok w') : Relays env conn w w' := by
  have hmove : ∀ (t : World) todo slot, Relays env conn t { t with service.todo := todo, service.slot := slot } :=
    fun t todo slot => .rests { World.Rests.refl t with }
  unfold visit at hr
  split at hr
  · cases hr
    exact hmove w _ _
  · next slot hslot =>
    split at hr
    · cases hr
      exact hmove w _ _
    · next handler hh =>
      split at hr
      · next hid =>
        obtain ⟨t,ht,hr⟩ := ok_of_bind hr
        cases hr
        exact (hcall slot (List.mem_of_getElem? hslot) handler hh hid t ht).trans (hmove t _ _)
      · cases hr
        exact hmove w _ _

theorem callTick_relays (h : Inv w) {handler : TickHandler} (hn : 0 < w.service.tick.count () handler 0)
    (hr : callTick env handler w = .ok w') : Relays env conn w w' := by
  cases handler with
  | connWaitLogin => exact IrcServer.connWaitLogin_relays h hr
  | connWaitReconn =>
    cases hr
    exact IrcServer.connWaitReconn_relays env w
  | activeTick => exact IrcServer.activeTick_relays h hr
  | waitjoin self => exact .effects h.toLinked (Does.waitjoin self hn hr).effects
  | waitrejoin self => exact .effects h.toLinked (Does.waitrejoin self hn hr).effects
  | checkPendingConnection self => exact Connection.checkPendingConnection_relays h hr
  | checkPendingTls self => exact Connection.checkPendingTls_relays h hr
  | other n =>
    cases hr
    exact .refl w

theorem next_relays (h : Inv w) (hr : next env w = .ok w') : Relays env conn w w' := by
  unfold next at hr
  split at hr
  · cases hr
    exact .refl w
  · refine visit_relays (fun slot hslot handler hh _ t ht => ?_) hr
    cases handler with
    | deleteConnection self => exact Connection.deleteConnection_relays (h.dones slot hslot _ hh).2 ht
  · refine visit_relays (fun slot hslot handler hh hid t ht => ?_) hr
    exact callTick_relays h (Event.count_pos_iff.mpr ⟨slot,hslot,rfl,hh,hid⟩) ht
  · refine visit_relays (fun slot hslot handler hh _ t ht => ?_) hr
    cases handler with
    | writeConnection self => exact Connection.writeConnection_relays h (h.writes slot hslot _ hh) ht
  · refine visit_relays (fun slot hslot handler hh _ t ht => ?_) hr
    cases handler with
    | readConnection self => exact Connection.readConnection_relays h ht

theorem shutdown_relays (h : Inv w) (hr : shutdown w = .ok w') : Relays env conn w w' := by
  have h1 := Action.logout w
  have h2 := shutdownLock_acts { w with server.disconnected := w.server.disconnected.register () .shutdownok 0 }
  have hlock : w.Rests conn (shutdownLock
      { w with server.disconnected := w.server.disconnected.register () .shutdownok 0 }) := by
    unfold shutdownLock
    split
    · exact { World.Rests.refl w with }
    · exact { World.Rests.refl w with }
  exact (Relays.rests hlock).trans (IrcServer.disconnect_relays ((h.action h1).actions h2) hr)

theorem select_relays (h : Inv w) {ready : Ready} (hr : select ready w = .ok w') : Relays env conn w w' := by
  have hmove : ∀ shutdownRef shutdownTicks todo, w.Rests conn { w with
      service.selecting := false
      service.shutdownRef := shutdownRef
      service.shutdownTicks := shutdownTicks
      service.todo := todo } := fun _ _ _ => { World.Rests.refl w with }
  unfold select at hr
  split at hr
  · dsimp only at hr
    split at hr
    · have h1 := service_acts w 0 5 w.service.todo w.service.slot false
      exact (Relays.rests (hmove _ _ _)).trans (shutdown_relays (h.action h1) hr)
    · split at hr
      · split at hr
        · cases hr
          exact .rests (hmove _ _ _)
        · cases hr
          exact .rests (hmove _ _ _)
      · cases hr
        exact .rests (hmove _ _ _)
    · split at hr
      · cases hr
        exact .rests (hmove _ _ _)
      · cases hr
        exact .rests (hmove _ _ _)
  · cases hr
    exact .refl w

theorem startup_relays (answers : Env) (w : World) : Relays env conn w (startup answers w) := by
  unfold startup
  refine (IrcServer.connect_relays answers w).trans ?_
  dsimp only
  split
  · exact .refl _
  · exact .rests { World.Rests.refl _ with }

end Service

namespace World

theorem step_relays {l : Label} (h : Inv w) (hl : ∀ answers, l = .next answers → answers = env)
    (hr : step l w = .ok w') : Relays env conn w w' := by
  cases l with
  | startup answers =>
    cases hr
    exact Service.startup_relays answers w
  | loop =>
    cases hr
    unfold Service.loop
    split
    · exact .rests { Rests.refl w with }
    · exact .refl w
  | select ready => exact Service.select_relays h hr
  | next answers =>
    obtain rfl := hl answers rfl
    exact Service.next_relays h hr
  | join channel =>
    exact .ofChanges h.toLinked (IrcServer.join_changes h.logged fun _ hget => (h.name_of_get hget).2) hr
  | part channel =>
    cases hget : w.server.channels.get channel with
    | none =>
      rw [step,IrcServer.part,hget] at hr
      cases hr
      exact .refl w
    | some c =>
      obtain rfl := (h.name_of_get hget).2
      exact .effects h.toLinked (Does.part c hget hr).effects
  | sendCmd cmd args =>
    obtain ⟨r,hsend,rfl⟩ := ok_of_map hr
    have hc := IrcServer.sendCmd_changes h.logged cmd args
    rw [hsend] at hc
    exact .changes h.toLinked hc
  | sendMsg recipient message action =>
    obtain ⟨r,hsend,rfl⟩ := ok_of_map hr
    have hc := IrcServer.sendMsg_changes h.logged recipient message action
    rw [hsend] at hc
    exact .changes h.toLinked hc
  | setNick nick => exact .ofChanges h.toLinked (IrcServer.setNick_changes h.logged nick) hr
  | disconnect => exact IrcServer.disconnect_relays h hr
  | otherRegister n =>
    cases hr
    exact .rests { Rests.refl w with }
  | otherUnregister n =>
    cases hr
    exact .rests { Rests.refl w with }

end World

def Label.answers : Label → Env
  | .startup env | .next env => env
  | _ => .failing

/-- A step, with the bytes that the system has taken from a connection so far. -/
def World.wired (conn : ConnId) (l : Label) (s : World × Bytes) : Except (Fault × World) (World × Bytes) :=
  (World.step l s.1).map fun w =>
    (w,s.2 ++ (w.ghost.operations.drop s.1.ghost.operations.length).flatMap (Entry.written l.answers conn))

/-- In a run that begins at `w₀`, and of which `wire` has been written: while the server stays on the connection, the
commands since then are what was written and what is still to be written. -/
structure Conveyed (conn : ConnId) (w₀ : World) (s : World × Bytes) : Prop where
  inv : Inv s.1
  created : conn < s.1.nconns
  passed : ∃ new, s.1.ghost.commands = w₀.ghost.commands ++ new ∧
    (s.1.server.conn = some conn → ∃ rest, Outbox conn s.1 rest ∧ new.flatten = s.2 ++ rest)

theorem Conveyed.step {w₀ : World} {s s' : World × Bytes} {l : Label} (h : Conveyed conn w₀ s)
    (hr : World.wired conn l s = .ok s') : Conveyed conn w₀ s' := by
  obtain ⟨w,wire⟩ := s
  obtain ⟨w',hs,rfl⟩ := ok_of_map hr
  have hrelay : Relays l.answers conn w w' := by
    refine World.step_relays h.inv (fun answers hl => ?_) hs
    subst hl
    rfl
  obtain ⟨new,hnew,hpassed⟩ := h.passed
  obtain ⟨ops,more,hops,hmore,hpass⟩ := hrelay.passes
  refine ⟨World.step_inv h.inv hs,h.created.trans_le hrelay.nconns,new ++ more,?_,fun hc => ?_⟩
  · dsimp only
    rw [hmore,show w.ghost.commands = w₀.ghost.commands ++ new from hnew,List.append_assoc]
  · obtain ⟨out,hout,heq⟩ := hpassed (hrelay.stays h.created hc)
    obtain ⟨rest,hrest,hbytes⟩ := hpass h.created hc out hout
    refine ⟨rest,hrest,?_⟩
    dsimp only
    rw [hops,List.drop_left,List.flatten_append,show new.flatten = wire ++ out from heq,List.append_assoc,hbytes,
      List.append_assoc]

theorem wired_reachable {s s' : World × Bytes} {ls : List Label} (h : s.1.Reachable)
    (hr : Transitions.Run (World.wired conn) (fun _ _ => True) s ls s') : s'.1.Reachable := by
  refine hr.invariant (I := fun s => s.1.Reachable) (fun l s t hs _ hstep => ?_) h
  obtain ⟨w,hw,rfl⟩ := ok_of_map hstep
  exact .next hs trivial hw

/-- On a connection that is not established yet nothing is to be written. -/
theorem outbox_opening (h : Inv w) (hc : w.server.conn = some conn) (hq : w.server.sendQueue = none) :
    Outbox conn w [] := by
  have hidle : (w.conns conn).nrecs = 0 := by
    by_contra hne
    have hqueued := ((h.attached conn hc).pending hne).2.1
    rw [hq] at hqueued
    cases hqueued
  refine ⟨[],?_,fun b hb => absurd hb List.not_mem_nil,?_⟩
  · rw [hq]
    exact rfl
  · rw [unsent_zero hidle]
    rfl

/-- What the peer has received of some lines it splits into the first of them. -/
theorem lines_received {lines : List Bytes} (h : ∀ line ∈ lines, IrcServer.IsLine line) {wire rest : Bytes}
    (hw : lines.flatten = wire ++ rest) : (Framing.split CR LF wire).1.map (· ++ [CR,LF]) <+: lines := by
  have hbodies : ∃ bodies : List Bytes, lines = bodies.map (· ++ [CR,LF]) ∧ ∀ body ∈ bodies, Framing.PairFree CR LF body := by
    obtain ⟨bodies,rfl,_⟩ := IrcServer.split_lines h
    exact ⟨bodies,rfl,fun body hb => (IrcServer.isLine_append.mp (h _ (List.mem_map_of_mem hb))).2⟩
  obtain ⟨bodies,rfl,hfree⟩ := hbodies
  exact (Framing.split_prefix cr_ne_lf hfree hw).map _

theorem Waiting.exact {bufs : List Buffer} (h : Waiting w.server.sendQueue bufs) (hd : w.Determinate) :
    w.waiting = bufs := by
  unfold World.waiting
  split
  · next hq =>
    rw [hq] at h
    exact h.symm
  · next q hq =>
    rw [hq] at h
    exact IBQueue.Queues.contents h (hd q hq)

/-- What the system takes from a connection, followed by what its ring and the send queue hold, are the commands handed
to `sendRaw` since before the connection was established, as long as the send queue holds no indeterminate pointer:
none is lost, repeated, reordered or mixed with another. If the commands are lines, then the peer has received the
first of them. -/
theorem commands_on_wire {w₀ : World} {ls : List Label} {wire : Bytes} (h : w₀.Reachable)
    (hc : w₀.server.conn = some conn) (hq : w₀.server.sendQueue = none)
    (hr : Transitions.Run (World.wired conn) (fun _ _ => True) (w₀,[]) ls (w,wire)) (hend : w.server.conn = some conn)
    (hd : w.Determinate) :
    ∃ new, w.ghost.commands = w₀.ghost.commands ++ new ∧
      new.flatten = wire ++ (w.conns conn).unsent ++ w.waiting.flatMap Buffer.text ∧
      (w.Fitting → (Framing.split CR LF wire).1.map (· ++ [CR,LF]) <+: new) := by
  have hstart : Conveyed conn w₀ (w₀,[]) :=
    ⟨h.inv,h.inv.created conn hc,[],(List.append_nil _).symm,fun _ => ⟨[],outbox_opening h.inv hc hq,rfl⟩⟩
  have hlast := hr.invariant (I := Conveyed conn w₀) (fun _ _ _ hs _ hstep => hs.step hstep) hstart
  obtain ⟨new,hnew,hpassed⟩ := hlast.passed
  obtain ⟨rest,⟨bufs,hwaiting,_,rfl⟩,hflat⟩ := hpassed hend
  refine ⟨new,hnew,?_,fun hf => lines_received (fun line hl => ?_) hflat⟩
  · rw [hflat,hwaiting.exact hd,List.append_assoc]
  · exact (lines_iff (World.Reachable.formatted (wired_reachable h hr))).mpr hf line (hnew ▸ List.mem_append_right _ hl)

/-- A server whose first connection, on descriptor 3, has been initiated. -/
def World.opening : World :=
  after [.startup { Env.failing with socket := some 3 }]
    (create (.create (lit "s") (lit "n") (some (lit "u")) (some (lit "r")) false) [])

/-- The connection is established, data arrives, and three writes each take at most five bytes. -/
def Label.dribbling : List Label :=
  iteration (.io [3] []) 1 2 { Env.failing with sockErr := false } ++
    iteration (.io [] [3]) 1 2 (.delivering ⟨lit "hello\x0d\n",by decide,by decide⟩) ++
    (List.replicate 3 (iteration (.io [3] []) 1 2 { Env.failing with write := .sent 5 })).flatten

theorem commands_on_wire_dribbling : ∃ (w : World) (new : List Bytes), w.waiting = [] ∧
    w.ghost.commands = World.opening.ghost.commands ++ new ∧
      new.flatten = (lit "NICK n\x0d\nUSER ") ++ (w.conns 0).unsent ++ w.waiting.flatMap Buffer.text ∧
      (w.Fitting → (Framing.split CR LF (lit "NICK n\x0d\nUSER ")).1.map (· ++ [CR,LF]) <+: new) := by
  have hopening : World.opening.Reachable :=
    World.after_reachable (.start (World.create_initial _ _ _ _ _ _)) (by decide +kernel)
  have hrun : ((Label.dribbling.foldlM (fun s l => World.wired 0 l s) (World.opening,[])).map
      fun s => (s.1.server.conn,s.2,decide s.1.Determinate,s.1.waiting)).toOption =
        some (some 0,lit "NICK n\x0d\nUSER ",true,[]) := by decide +kernel
  cases hw : Label.dribbling.foldlM (fun s l => World.wired 0 l s) (World.opening,[]) with
  | error e =>
    rw [hw] at hrun
    cases hrun
  | ok s =>
    obtain ⟨w,wire⟩ := s
    rw [hw] at hrun
    obtain ⟨hend,hrest⟩ := Prod.mk.inj (Option.some.inj hrun)
    obtain ⟨hwire,hlast⟩ := Prod.mk.inj hrest
    obtain ⟨hd,hempty⟩ := Prod.mk.inj hlast
    have hfollow : Transitions.Run (World.wired 0) (fun _ _ => True) (World.opening,[]) Label.dribbling
        (w,lit "NICK n\x0d\nUSER ") := hwire ▸ .ofFold (fun _ _ _ => trivial) hw
    obtain ⟨new,hnew⟩ := commands_on_wire hopening (by decide +kernel) (by decide +kernel) hfollow hend (of_decide_eq_true hd)
    exact ⟨w,new,hempty,hnew⟩

end LibIrcBot
