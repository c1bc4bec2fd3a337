import LibIrcBot.System.ChannelState

/-! # Runs as sequences of calls

A run of the program is seen from its channels: a call into one of them, a login, the end of
a connection, a new channel, the start of the bot, or something that concerns no channel.
-/
namespace LibIrcBot
open CString Effects Relation Outcome

variable {w w' w'' : World} {self : ChanId} {l : Call}

/-! ## Removing a channel -/

/-- The server listens to the events of the channels in its table. -/
structure Attended (w : World) : Prop where
  joined : ∀ c, w.Has c → (w.chans c).joined.Only () .chanJoined 0
  failed : ∀ c, w.Has c → (w.chans c).failed.Only () .chanFailed 0

/-- A channel is out of the table, and has been destroyed twice. -/
structure Removes (chan : ChanId) (w w' : World) : Prop where
  channels : w'.server.channels = (w.server.channels.delete (w.chans chan).name).2.2
  destroyed : w'.ghost.destroyed = w.ghost.destroyed ++ [chan,chan]
  name : ∀ c, (w'.chans c).name = (w.chans c).name

theorem deleteChannel_found {name : Bytes} {e : IBHashTableEntry ChanId Deleter}
    (hf : w.server.channels.find name = some e) (hd : e.deleter = some .destroyIrcChannel) :
    IrcServer.deleteChannel name w = { IrcChannel.destroy e.obj w with
      server.channels := (w.server.channels.delete name).2.2 } := by
  have hdel : w.server.channels.delete name =
      (true,some (.destroyIrcChannel,e.obj),(w.server.channels.delete name).2.2) := by
    unfold IBHashTable.delete
    rw [hf]
    simp [IBHashTableEntry.call,hd]
  unfold IrcServer.deleteChannel
  rw [hdel]

/-- A channel that listens to messages is in the table. -/
theorem ChannelInv.has_of_listens (h : ChannelInv w) {m : IrcMessage} (hcmd : m.command ∈ IrcChannel.msgCommands)
    (hl : IrcChannel.Listens self m w) : w.Has self := by
  rw [IrcChannel.Listens,h.listening self m.command hcmd] at hl
  split at hl
  · next hs => exact hs
  · exact absurd hl (Nat.lt_irrefl 0)

/-- What the end of `IrcServer_part` does to a channel in the table. -/
theorem takeOut_shape (ho : Owned w) (hs : w.Has self) : ∃ msgReceived,
    IrcServer.deleteChannel (w.chans self).name (IrcChannel.destroy self (IrcServer.unregisterChannel self w)) =
    { IrcServer.unregisterChannel self w with
      server.msgReceived := msgReceived
      server.channels := (w.server.channels.delete (w.chans self).name).2.2
      ghost.destroyed := w.ghost.destroyed ++ [self,self] } := by
  obtain ⟨e,hfind,hobj⟩ := Option.map_eq_some_iff.mp hs
  have hfound : (IrcChannel.destroy self (IrcServer.unregisterChannel self w)).server.channels.find
      (w.chans self).name = some e := hfind
  have h := deleteChannel_found hfound (ho.deleter _ e (List.mem_of_find?_eq_some hfind))
  have hshape : ∀ t : World, ∃ msgReceived, IrcChannel.destroy self (IrcChannel.destroy self t) = { t with
      server.msgReceived := msgReceived
      ghost.destroyed := t.ghost.destroyed ++ [self,self] } := by
    intro t
    refine ⟨(IrcChannel.destroy self (IrcChannel.destroy self t)).server.msgReceived,?_⟩
    simp [IrcChannel.destroy]
  obtain ⟨m,hm⟩ := hshape (IrcServer.unregisterChannel self w)
  refine ⟨m,?_⟩
  rw [hobj,hm] at h
  exact h

theorem takeOut_removes (ho : Owned w) (hs : w.Has self) (h : IrcServer.deleteChannel (w.chans self).name
      (IrcChannel.destroy self (IrcServer.unregisterChannel self w)) = w') :
    w'.state = w.state ∧ (∀ c, c ≠ self → w'.chans c = w.chans c) ∧ w'.ghost.removed = w.ghost.removed ∧
    w'.ghost.commands = w.ghost.commands ∧ Removes self w w' := by
  obtain ⟨m,he⟩ := takeOut_shape ho hs
  rw [← h,he]
  refine ⟨?_,fun c hc => Function.update_of_ne hc _ _,rfl,rfl,rfl,rfl,fun c => ?_⟩
  · funext c
    by_cases hc : c = self
    · subst hc
      simp [World.state,IrcServer.unregisterChannel,World.setChan]
    · simp [World.state,IrcServer.unregisterChannel,World.setChan,hc]
  · change ((IrcServer.unregisterChannel self w).chans c).name = _
    rw [IrcServer.unregisterChannel,setChan_chans]
    split <;> rfl

theorem raiseFailed_eq (h : (w.chans self).failed.Only () .chanFailed 0) : IrcChannel.raiseFailed self w =
    .error (.wildPointer,IrcChannel.destroy self (IrcServer.unregisterChannel self w)) := by
  have hcall := IrcChannel.chanFailed_faults self w
  rw [← hcall]
  refine raise_only h fun t ht => ?_
  rw [hcall] at ht
  cases ht

/-- A channel in the table that fails is destroyed, and its name is used after that. -/
theorem handleMsg_fails (ha : Attended w) (hs : w.Has self) (env : Env) {m : IrcMessage}
    (hf : IrcChannel.Fails self m w) : ∃ t, IrcChannel.handleMsg self env m w = .error (.wildPointer,t) := by
  obtain ⟨hlen,_⟩ := List.getElem?_eq_some_iff.mp hf.2
  have hne : m.params.length ≠ 0 := Nat.ne_of_gt hlen
  rw [IrcChannel.handleMsg,hf.1]
  dsimp only
  rw [IrcChannel.handleNosuchchannel,if_pos hne,hf.2]
  change ∃ t, (if (w.chans self).name = (w.chans self).name then _ else _) = _
  rw [if_pos rfl]
  exact ⟨_,raiseFailed_eq (ha.failed self hs)⟩

/-- `IrcServer_part` on a channel in the table. -/
theorem part_spec (ho : Owned w) (hs : w.Has self) (h : IrcServer.part (w.chans self).name w = .ok w') :
    w'.state self = (w.state self).part ∧ (∀ c, c ≠ self → w'.state c = w.state c) ∧
    (∀ c, c ≠ self → w'.chans c = w.chans c) ∧ w'.ghost.removed = w.ghost.removed ++ [self] ∧
    w'.ghost.commands = w.ghost.commands ++
      (if (w.chans self).isJoined then IrcServer.sends (lit "PART") (w.chans self).name w.logged else []) ∧
    Removes self w w' := by
  unfold IrcServer.part at h
  rw [hs] at h
  have hpart := IrcChannel.part_performs self { w with ghost.removed := w.ghost.removed ++ [self] }
  have htr : Traces none { w with ghost.removed := w.ghost.removed ++ [self] } _ := IrcChannel.part_traces self _
  dsimp only at h
  cases ht : IrcChannel.part self { w with ghost.removed := w.ghost.removed ++ [self] } with
  | error e =>
    rw [ht] at h
    cases h
  | ok t =>
    rw [ht] at h hpart htr
    have hlogged : Owned { w with ghost.removed := w.ghost.removed ++ [self] } :=
      { ho with kept := fun hr => absurd hr (by simp) }
    have hown : Owned t := hlogged.effects htr
    have hname : (t.chans self).name = (w.chans self).name := congrFun (congrArg Roster.name hpart.roster) self
    have hchannels : t.server.channels = w.server.channels := congrArg Roster.channels hpart.roster
    have hdestroyed : t.ghost.destroyed = w.ghost.destroyed := congrArg Roster.destroyed hpart.roster
    have hhas : t.Has self := by
      rw [World.Has,hname,hchannels]
      exact hs
    have hw : IrcServer.deleteChannel (t.chans self).name
        (IrcChannel.destroy self (IrcServer.unregisterChannel self t)) = w' := by
      rw [hname]
      exact Except.ok.inj h
    obtain ⟨hstate,hchans,hlog,hcommands,hrem⟩ := takeOut_removes hown hhas hw
    rw [hstate]
    refine ⟨hpart.own,hpart.others,fun c hc => (hchans c hc).trans (hpart.chans c hc),
      hlog.trans (congrArg Roster.removed hpart.roster),hcommands.trans hpart.commands,?_,?_,fun c => ?_⟩
    · rw [hrem.channels,hchannels,hname]
    · rw [hrem.destroyed,hdestroyed]
    · exact (hrem.name c).trans (congrFun (congrArg Roster.name hpart.roster) c)

/-! ## What a call does -/

def Call.chan : Call → Option ChanId
  | .join self | .part self | .joinOnConnect self | .waitjoin self | .waitrejoin self | .handleMsg self _ => some self
  | .jobs => none

def Call.Removing : Call → Prop
  | .part _ => True
  | _ => False

def Call.op (w : World) : Call → ChanState → ChanState
  | .join _ => (·.join w.logged)
  | .part _ => ChanState.part
  | .joinOnConnect _ => (·.connect w.logged)
  | .waitjoin _ => ChanState.tickJoin
  | .waitrejoin _ => (·.tickRejoin w.logged)
  | .handleMsg self m => IrcChannel.received self m w
  | .jobs => id

def Call.emits (w : World) : Call → List Bytes
  | .join self => if (w.chans self).wantJoined then [] else IrcServer.sends (lit "JOIN") (w.chans self).name w.logged
  | .part self => if (w.chans self).isJoined then IrcServer.sends (lit "PART") (w.chans self).name w.logged else []
  | .joinOnConnect self => IrcServer.sends (lit "JOIN") (w.chans self).name w.logged
  | .waitjoin self =>
    if (w.chans self).joinsyncticks = 1 then IrcServer.sends (lit "PART") (w.chans self).name w.logged else []
  | .waitrejoin self =>
    if (w.chans self).rejointicks = 1 then IrcServer.sends (lit "JOIN") (w.chans self).name w.logged else []
  | .handleMsg _ _ | .jobs => []

structure Call.Result (l : Call) (w w' : World) : Prop where
  own : ∀ self, l.chan = some self → w'.state self = l.op w (w.state self)
  others : ∀ c, l.chan ≠ some c → w'.state c = w.state c ∧ w'.chans c = w.chans c
  keeps : ¬ l.Removing → w'.roster = w.roster
  removes : l.Removing → ∃ self, l.chan = some self ∧ w.Has self ∧
    w'.ghost.removed = w.ghost.removed ++ [self] ∧ Removes self w w'
  commands : w'.ghost.commands = w.ghost.commands ++ l.emits w

theorem Call.Result.ofAffects {f : ChanState → ChanState} (hl : l.chan = some self) (hr : ¬ l.Removing)
    (h : Affects self f (l.emits w) w w') (hop : l.op w = f) : l.Result w w' where
  commands := h.commands
  own := by
    intro c hc
    obtain rfl : self = c := Option.some.inj (hl.symm.trans hc)
    rw [hop]
    exact h.own
  others := by
    intro c hc
    have hne : c ≠ self := fun he => hc (he ▸ hl)
    exact ⟨h.others c hne,h.chans c hne⟩
  keeps := fun _ => h.roster
  removes := fun hrem => absurd hrem hr

theorem performs_ok {f : ChanState → ChanState} {cs : List Bytes} {r : Run} (h : Performs self f cs w r)
    (hr : r = .ok w') : Affects self f cs w w' := by
  rw [hr] at h
  exact h

theorem Does.result (hi : ChannelInv w) (ha : Attended w) (h : Does l w w') : l.Result w w' := by
  cases h with
  | join self hs h => exact .ofAffects rfl not_false (performs_ok (IrcChannel.join_performs self w) h) rfl
  | part self hs h =>
    obtain ⟨hown,hothers,hchans,hlog,hcommands,hrem⟩ := part_spec hi.toOwned hs h
    refine ⟨fun c hc => ?_,fun c hc => ?_,fun hn => absurd trivial hn,fun _ => ⟨self,rfl,hs,hlog,hrem⟩,hcommands⟩
    · obtain rfl : self = c := Option.some.inj hc
      exact hown
    · have hne : c ≠ self := fun he => hc (he ▸ rfl)
      exact ⟨hothers c hne,hchans c hne⟩
  | joinOnConnect self hst hr h =>
    exact .ofAffects rfl not_false (performs_ok (IrcChannel.joinOnConnect_performs self w) h) rfl
  | waitjoin self hr h => exact .ofAffects rfl not_false (performs_ok (IrcChannel.waitjoin_performs self w) h) rfl
  | waitrejoin self hr h =>
    exact .ofAffects rfl not_false (performs_ok (IrcChannel.waitrejoin_performs self w) h) rfl
  | handleMsg self env m hr h =>
    by_cases hf : IrcChannel.Fails self m w
    · have hs := hi.has_of_listens (hf.1 ▸ by decide) hr
      obtain ⟨t,he⟩ := handleMsg_fails ha hs env hf
      rw [he] at h
      cases h
    · exact .ofAffects rfl not_false (performs_ok (IrcChannel.handleMsg_performs env hf) h) rfl
  | jobs jobs => exact ⟨nofun,fun _ _ => ⟨rfl,rfl⟩,fun _ => rfl,fun hrem => hrem.elim,(List.append_nil _).symm⟩

theorem Affects.state (h : Affects self id [] w w') : w'.state = w.state := by
  funext c
  by_cases hc : c = self
  · rw [hc]
    exact h.own
  · exact h.others c hc

theorem shutdownok_affects (self : ChanId) (w : World) : Affects self id [] w (IrcBot.shutdownok w) := by
  obtain ⟨n,he⟩ : ∃ n, IrcBot.shutdownok w = { w with
      server.disconnected := w.server.disconnected.unregister () .shutdownok 0
      service.shutdownRef := n } := by
    unfold IrcBot.shutdownok Service.shutdownUnlock
    split <;> exact ⟨_,rfl⟩
  rw [he]
  refine ⟨?_,fun c _ => ?_,fun _ _ => rfl,rfl,.of_eq rfl,(List.append_nil _).symm⟩ <;> simp [World.state,Event.count_unregister]

/-! ## What happens to the channels -/

/-- What the channels see of a step of a run. -/
inductive Happening where
  | call (l : Call) | login | close | create (name : Bytes) | listen | other
deriving DecidableEq

/-- The parts of the state that concern channels and the bot stay. -/
structure Elsewhere (w w' : World) : Prop where
  state : w'.state = w.state
  chans : w'.chans = w.chans
  roster : w'.roster = w.roster
  joined : w'.server.joined = w.server.joined
  bot : w'.bot = w.bot
  logged : w'.logged = w.logged
  closings : w'.ghost.closings = w.ghost.closings
  linked : Linked w → Linked w'

inductive Happens : Happening → World → World → Prop where
  | call {l : Call} {w w' : World} (h : Does l w w') : Happens (.call l) w w'
  | login {w : World} (name : Option Bytes) (hw : w.Online) : Happens .login w { w with
      server.name := name
      server.connst := 1
      server.sendcreditticks := FULLSENDCREDIT
      service.tick := (w.service.tick.unregister () .connWaitLogin 0).register () .activeTick 0 }
  | close {w t : World} (established : Bool) (hc : w.server.conn.isSome)
      (h : IrcServer.raiseDisconnected (IrcServer.hangUp established w) = .ok t) :
      Happens .close w (IrcServer.awaitReconn t)
  | create {w : World} (name : Bytes) (h : w.server.channels.get name = none) :
      Happens (.create name) w (IrcServer.addChannel name w).2
  | listen {w : World} : Happens .listen w { w with
      server.connected := w.server.connected.register () .connected 0
      server.joined := w.server.joined.register () .chanJoined 0
      server.msgReceived := w.server.msgReceived.register () .msgReceived IrcCommand.MSG_PRIVMSG.code }
  | other {w w' : World} (h : Elsewhere w w') : Happens .other w w'

def Admitted (C : Happening → World → Prop) (w w' : World) : Prop := ∃ l, C l w ∧ Happens l w w'

variable {C D : Happening → World → Prop}

theorem Elsewhere.admitted (h : Elsewhere w w') : ReflTransGen (Admitted fun _ _ => True) w w' :=
  .single ⟨.other,trivial,.other h⟩

theorem World.Outputs.elsewhere (h : w.Outputs w') (hl : Linked w → Linked w') : Elsewhere w w' := by
  obtain ⟨_,_,_,_,_,_,_,_,_,_,_,_,rfl⟩ := h
  exact ⟨rfl,rfl,rfl,rfl,rfl,rfl,rfl,hl⟩

/-- Changes of the tick event that concern no channel. -/
theorem state_of_timers (hch : w'.chans = w.chans) (hc : w'.server.connected = w.server.connected)
    (hd : w'.server.disconnected = w.server.disconnected)
    (h : ∀ timer : TickHandler, timer.IsTimer →
      w'.service.tick.count () timer 0 = w.service.tick.count () timer 0) : w'.state = w.state := by
  funext c
  simp [World.state,hch,hc,hd,h (.waitjoin c) trivial,h (.waitrejoin c) trivial]

theorem count_register_timer (e : Listeners TickHandler) {t timer : TickHandler} (ht : ¬ t.IsTimer)
    (h : timer.IsTimer) : (e.register () t 0).count () timer 0 = e.count () timer 0 :=
  Event.count_register_ne _ fun he => ht (he ▸ h)

theorem count_unregister_timer (e : Listeners TickHandler) {t timer : TickHandler} (ht : ¬ t.IsTimer)
    (h : timer.IsTimer) : (e.unregister () t 0).count () timer 0 = e.count () timer 0 :=
  Event.count_unregister_ne _ fun he => ht (he ▸ h)

theorem Change.admitted (h : Change w w') : ReflTransGen (Admitted fun _ _ => True) w w' := by
  have hl : Linked w → Linked w' := fun hw => hw.change h
  cases h with
  | call h => exact .single ⟨_,trivial,.call h⟩
  | send _ command _ h => exact ((sendRaw_outputs h).elsewhere hl).admitted
  | login name hw => exact .single ⟨_,trivial,.login name hw⟩
  | nick nick => exact Elsewhere.admitted ⟨rfl,rfl,rfl,rfl,rfl,rfl,rfl,hl⟩
  | addChannel name h => exact .single ⟨_,trivial,.create name h⟩

theorem Received.admitted (h : Received w w') : ReflTransGen (Admitted fun _ _ => True) w w' := by
  have hl : Linked w → Linked w' := fun hw => hw.received h
  cases h with
  | change h => exact h.admitted
  | message m => exact Elsewhere.admitted ⟨rfl,rfl,rfl,rfl,rfl,rfl,rfl,hl⟩
  | buffer i r b => exact Elsewhere.admitted ⟨rfl,rfl,rfl,rfl,rfl,rfl,rfl,hl⟩
  | login hst => exact Elsewhere.admitted ⟨rfl,rfl,rfl,rfl,rfl,by simp [hst],rfl,hl⟩

theorem Action.admitted (hi : Inv w) (h : Action w w') : ReflTransGen (Admitted fun _ _ => True) w w' := by
  have hl : Linked w → Linked w' := fun _ => (hi.action h).toLinked
  cases h with
  | change h => exact h.admitted
  | receive _ data hw h =>
    exact Effects.invariant (I := fun t => ReflTransGen (Admitted fun _ _ => True) w t)
      (fun _ _ ht hs => ht.trans hs.admitted) .refl h.steps
  | establish conn hc hq hst =>
    rw [IrcServer.connConnected,if_pos hc] at hl ⊢
    have hzero : w.server.connst = 0 := hi.connst (by rw [hq]; rfl)
    have htick : ¬ TickHandler.connWaitLogin.IsTimer := not_false
    refine Elsewhere.admitted ⟨state_of_timers rfl rfl rfl fun _ => count_register_timer _ htick,rfl,rfl,rfl,rfl,?_,rfl,hl⟩
    simp [hzero]
  | close t est hc h => exact .single ⟨_,trivial,.close est hc h⟩
  | connect env hc =>
    rcases connect_shape env hc with he | ⟨fd,conns,_,_,he⟩
    · rw [he]
    · have htick : ¬ (TickHandler.checkPendingConnection w.nconns).IsTimer := not_false
      rw [he] at hl ⊢
      exact Elsewhere.admitted ⟨state_of_timers rfl rfl rfl fun _ => count_register_timer _ htick,rfl,rfl,rfl,rfl,rfl,rfl,hl⟩
  | tickRegister t ht hn hc =>
    exact Elsewhere.admitted ⟨state_of_timers rfl rfl rfl fun _ => count_register_timer _ hn,rfl,rfl,rfl,rfl,rfl,rfl,hl⟩
  | tickUnregister t hn =>
    exact Elsewhere.admitted ⟨state_of_timers rfl rfl rfl fun _ => count_unregister_timer _ hn,rfl,rfl,rfl,rfl,rfl,rfl,hl⟩
  | listen => exact .single ⟨_,trivial,.listen⟩
  | logout =>
    refine Elsewhere.admitted ⟨?_,rfl,rfl,rfl,rfl,rfl,rfl,hl⟩
    funext c
    simp [World.state,Event.count_register]
  | _ => exact Elsewhere.admitted ⟨rfl,rfl,rfl,rfl,rfl,rfl,rfl,hl⟩

/-- The states of the runs in which all that happens is admitted by a condition. -/
def World.Reached (C : Happening → World → Prop) (w : World) : Prop :=
  ∃ w₀ : World, w₀.Initial ∧ ReflTransGen (Admitted C) w₀ w

/-- Every run is one of calls, logins, closings and so on. -/
theorem World.Reachable.reached (h : w.Reachable) : w.Reached fun _ _ => True := by
  refine World.Reachable.induct (I := World.Reached fun _ _ => True) (fun w hi => ⟨w,hi,.refl⟩) ?_ h
  rintro w w' hi ⟨w₀,h₀,hw⟩ ha
  exact ⟨w₀,h₀,hw.trans (ha.admitted hi)⟩

/-! ## A new channel -/

/-- A channel is in the table that has just been created. -/
structure Creates (name : Bytes) (w w' : World) : Prop where
  nchans : w'.nchans = w.nchans + 1
  own : w'.state w.nchans = { w.state w.nchans with wantJoined := false, isJoined := false, entered := 0, left := 0 }
  others : ∀ c, c ≠ w.nchans → w'.state c = w.state c ∧ w'.chans c = w.chans c
  channels : w'.server.channels = (w.server.channels.set name w.nchans (some .destroyIrcChannel)).2
  name : (w'.chans w.nchans).name = name
  joined : (w'.chans w.nchans).joined.Only () .chanJoined 0
  failed : (w'.chans w.nchans).failed.Only () .chanFailed 0
  entered : (w'.chans w.nchans).entered = Event.create
  left : (w'.chans w.nchans).left = Event.create
  removed : w'.ghost.removed = w.ghost.removed
  destroyed : w'.ghost.destroyed = w.ghost.destroyed
  closings : w'.ghost.closings = w.ghost.closings
  logged : w'.logged = w.logged
  listeners : w'.server.joined = w.server.joined
  bot : w'.bot = w.bot

theorem addChannel_creates {name : Bytes} (h : w.server.channels.get name = none) :
    Creates name w (IrcServer.addChannel name w).2 := by
  rw [addChannel_new h]
  have hne : ∀ c, c ≠ w.nchans →
      (IrcServer.registerChannel w.nchans (IrcChannel.create name w).2).chans c = w.chans c := by
    intro c hc
    simp [IrcServer.registerChannel,IrcChannel.create,World.setChan,hc]
  have hself : (IrcServer.registerChannel w.nchans (IrcChannel.create name w).2).chans w.nchans =
      { w.chans w.nchans with
        name := name
        nicks := IBHashTable.create 8
        joined := Event.create.register () .chanJoined 0
        parted := Event.create.register () .chanParted 0
        entered := Event.create
        left := Event.create
        failed := Event.create.register () .chanFailed 0
        isJoined := false
        wantJoined := false } := by
    simp [IrcServer.registerChannel,IrcChannel.create,World.setChan]
  refine ⟨rfl,?_,fun c hc => ⟨?_,hne c hc⟩,rfl,?_,?_,?_,?_,?_,rfl,rfl,rfl,rfl,rfl,rfl⟩
  · simp [World.state,IrcServer.registerChannel,IrcChannel.create,World.setChan]
  · simp [World.state,IrcServer.registerChannel,IrcChannel.create,World.setChan,hc]
  · exact congrArg IrcChannel.name hself
  · exact (congrArg IrcChannel.joined hself) ▸ Event.only_register rfl () _ 0
  · exact (congrArg IrcChannel.failed hself) ▸ Event.only_register rfl () _ 0
  · exact congrArg IrcChannel.entered hself
  · exact congrArg IrcChannel.left hself

theorem Creates.has {name : Bytes} (h : Creates name w w') : w'.Has w.nchans := by
  rw [World.Has,h.channels,h.name,IBHashTable.get_set_self]

theorem Creates.has_iff {name : Bytes} (h : Creates name w w') (hget : w.server.channels.get name = none)
    {c : ChanId} (hc : c ≠ w.nchans) : w'.Has c ↔ w.Has c := by
  rw [World.Has,World.Has,h.channels,(h.others c hc).2]
  by_cases hn : (w.chans c).name = name
  · rw [hn,hget,IBHashTable.get_set_self]
    simp [Ne.symm hc]
  · rw [IBHashTable.get,IBHashTable.get,IBHashTable.find_set_ne _ _ _ hn]

theorem Removes.has_iff (hi : ChannelInv w) (h : Removes self w w') (hs : w.Has self) (c : ChanId) :
    w'.Has c ↔ w.Has c ∧ c ≠ self := by
  rw [World.Has,World.Has,h.channels,h.name,get_delete hi.toOwned]
  by_cases hn : (w.chans c).name = (w.chans self).name
  · rw [if_pos hn,hn,hs]
    simp [eq_comm]
  · rw [if_neg hn]
    exact ⟨fun hget => ⟨hget,fun he => hn (he ▸ rfl)⟩,And.left⟩

theorem has_of_roster (h : w'.roster = w.roster) (c : ChanId) : w'.Has c ↔ w.Has c := by
  have hc : w'.server.channels = w.server.channels := congrArg Roster.channels h
  have hn : (w'.chans c).name = (w.chans c).name := congrFun (congrArg Roster.name h) c
  rw [World.Has,World.Has,hc,hn]

/-! ## What is known of the channels all the time -/

namespace ChanState

/-- None of the callbacks of the channel is registered. -/
structure Silent (s : ChanState) : Prop where
  joinOnConnect : s.joinOnConnect = 0
  disconnected : s.disconnected = 0
  waitjoin : s.waitjoin = 0
  waitrejoin : s.waitrejoin = 0

end ChanState

/-- The table has all channels that are not destroyed, and no others, and what is registered
belongs to channels that were created. -/
structure Charted (w : World) : Prop extends ChannelInv w, Attended w where
  alive : ∀ c, c < w.nchans → c ∉ w.ghost.destroyed → w.Has c
  gone : ∀ c ∈ w.ghost.removed, c < w.nchans ∧ ¬ w.Has c
  fresh : ∀ c, w.nchans ≤ c → (w.state c).Silent

namespace Charted

theorem lt_of_has (h : Charted w) (hs : w.Has self) : self < w.nchans := (h.name_of_get hs).1

/-- A channel that is not in the table and has registered nothing is not called, or in vain. -/
theorem op_silent (h : Charted w) (hd : Does l w w') (hl : l.chan = some self) (hno : ¬ w.Has self)
    (hs : (w.state self).Silent) (s : ChanState) : l.op w s = s := by
  cases hd with
  | join c hs' _ => cases hl; exact absurd hs' hno
  | part c hs' _ => cases hl; exact absurd hs' hno
  | joinOnConnect c _ hr _ => cases hl; exact absurd hs.joinOnConnect (Nat.ne_of_gt hr)
  | waitjoin c hr _ => cases hl; exact absurd hs.waitjoin (Nat.ne_of_gt hr)
  | waitrejoin c hr _ => cases hl; exact absurd hs.waitrejoin (Nat.ne_of_gt hr)
  | handleMsg c env m hr _ =>
    cases hl
    have hcmd : ∀ {cmd : IrcCommand}, cmd ∈ IrcChannel.msgCommands → m.command ≠ cmd :=
      fun hmem he => hno (h.has_of_listens (he ▸ hmem) hr)
    have hk : ¬ IrcChannel.Kicks self m w := fun hf => hcmd (by decide) hf.1
    have he : ¬ IrcChannel.EndsNames self m w := fun hf => hcmd (by decide) hf.1
    rw [Call.op,IrcChannel.received,if_neg hk,if_neg he]
    rfl
  | jobs _ => cases hl

/-- All that the chart depends on. -/
theorem congr (h : Charted w) (hi : ChannelInv w') (hs : w'.state = w.state) (hch : w'.chans = w.chans)
    (hc : w'.server.channels = w.server.channels) (hn : w'.nchans = w.nchans)
    (hr : w'.ghost.removed = w.ghost.removed) (hd : w'.ghost.destroyed = w.ghost.destroyed) : Charted w' := by
  have hhas : ∀ c, w'.Has c ↔ w.Has c := fun c => by rw [World.Has,World.Has,hc,hch]
  refine ⟨hi,⟨fun c hc => ?_,fun c hc => ?_⟩,fun c hlt hnd => ?_,fun c hmem => ?_,fun c hle => ?_⟩
  · rw [hch]
    exact h.joined c ((hhas c).mp hc)
  · rw [hch]
    exact h.failed c ((hhas c).mp hc)
  · rw [hhas]
    exact h.alive c (hn ▸ hlt) (hd ▸ hnd)
  · rw [hhas,hn]
    exact h.gone c (hr ▸ hmem)
  · rw [hs]
    exact h.fresh c (hn ▸ hle)

/-- An operation on a channel keeps the table. -/
theorem keeps (h : Charted w) (hi : ChannelInv w') (hr : w'.roster = w.roster)
    (hs : ∀ c, w.nchans ≤ c → w'.state c = w.state c) : Charted w' := by
  have hhas := has_of_roster hr
  have hn : w'.nchans = w.nchans := congrArg Roster.nchans hr
  have hrem : w'.ghost.removed = w.ghost.removed := congrArg Roster.removed hr
  have hd : w'.ghost.destroyed = w.ghost.destroyed := congrArg Roster.destroyed hr
  refine ⟨hi,⟨fun c hc => ?_,fun c hc => ?_⟩,fun c hlt hnd => ?_,fun c hmem => ?_,fun c hle => ?_⟩
  · have hj : (w'.chans c).joined = (w.chans c).joined := congrFun (congrArg Roster.joined hr) c
    rw [hj]
    exact h.joined c ((hhas c).mp hc)
  · have hf : (w'.chans c).failed = (w.chans c).failed := congrFun (congrArg Roster.failed hr) c
    rw [hf]
    exact h.failed c ((hhas c).mp hc)
  · rw [hhas]
    exact h.alive c (hn ▸ hlt) (hd ▸ hnd)
  · rw [hhas,hn]
    exact h.gone c (hrem ▸ hmem)
  · rw [hs c (hn ▸ hle)]
    exact h.fresh c (hn ▸ hle)

theorem call (h : Charted w) (hd : Does l w w') : Charted w' := by
  have hres := hd.result h.toChannelInv h.toAttended
  have hi := h.toChannelInv.change (.call hd)
  have hn : w'.nchans = w.nchans := (same_of_effects hd.effects).nchans
  have hs : ∀ c, w.nchans ≤ c → w'.state c = w.state c := by
    intro c hc
    by_cases hl : l.chan = some c
    · rw [hres.own c hl,h.op_silent hd hl (fun hs => absurd (h.lt_of_has hs) (Nat.not_lt.mpr hc)) (h.fresh c hc)]
    · exact (hres.others c hl).1
  by_cases hrem : l.Removing
  · obtain ⟨self,hl,hself,hlog,hgone⟩ := hres.removes hrem
    have hhas := hgone.has_iff h.toChannelInv hself
    have hother : ∀ c, c ≠ self → w'.chans c = w.chans c := fun c hc => (hres.others c (by simp [hl,Ne.symm hc])).2
    refine ⟨hi,⟨fun c hc => ?_,fun c hc => ?_⟩,fun c hlt hnd => ?_,fun c hmem => ?_,fun c hle => ?_⟩
    · obtain ⟨hc,hne⟩ := (hhas c).mp hc
      rw [hother c hne]
      exact h.joined c hc
    · obtain ⟨hc,hne⟩ := (hhas c).mp hc
      rw [hother c hne]
      exact h.failed c hc
    · rw [hgone.destroyed,List.mem_append,not_or] at hnd
      exact (hhas c).mpr ⟨h.alive c (hn ▸ hlt) hnd.1,fun he => hnd.2 (he ▸ List.mem_cons_self)⟩
    · rw [hhas,hn]
      rw [hlog,List.mem_append,List.mem_singleton] at hmem
      rcases hmem with hmem | rfl
      · exact ⟨(h.gone c hmem).1,fun hc => (h.gone c hmem).2 hc.1⟩
      · exact ⟨h.lt_of_has hself,fun hc => hc.2 rfl⟩
    · rw [hs c (hn ▸ hle)]
      exact h.fresh c (hn ▸ hle)
  · exact h.keeps hi (hres.keeps hrem) hs

theorem create (h : Charted w) {name : Bytes} (hget : w.server.channels.get name = none) :
    Charted (IrcServer.addChannel name w).2 := by
  have hc := addChannel_creates hget
  have hhas := fun {c} => hc.has_iff hget (c := c)
  refine ⟨h.toChannelInv.change (.addChannel w name hget),⟨fun c hs => ?_,fun c hs => ?_⟩,fun c hlt hnd => ?_,
    fun c hmem => ?_,fun c hle => ?_⟩
  · by_cases he : c = w.nchans
    · exact he ▸ hc.joined
    · rw [(hc.others c he).2]
      exact h.joined c ((hhas he).mp hs)
  · by_cases he : c = w.nchans
    · exact he ▸ hc.failed
    · rw [(hc.others c he).2]
      exact h.failed c ((hhas he).mp hs)
  · by_cases he : c = w.nchans
    · exact he ▸ hc.has
    · rw [hc.nchans] at hlt
      exact (hhas he).mpr (h.alive c (Nat.lt_of_le_of_ne (Nat.le_of_lt_succ hlt) he) (hc.destroyed ▸ hnd))
  · obtain ⟨hlt,hno⟩ := h.gone c (hc.removed ▸ hmem)
    rw [hc.nchans,hhas (Nat.ne_of_lt hlt)]
    exact ⟨Nat.lt_succ_of_lt hlt,hno⟩
  · rw [hc.nchans] at hle
    rw [(hc.others c (Nat.ne_of_gt hle)).1]
    exact h.fresh c (Nat.le_of_lt hle)

end Charted

theorem channelInv_of_elsewhere (h : ChannelInv w) (he : Elsewhere w w') : ChannelInv w' := by
  have hc : w'.server.channels = w.server.channels := congrArg Roster.channels he.roster
  have hm : w'.server.msgReceived = w.server.msgReceived := congrArg Roster.msgReceived he.roster
  have hn : w'.nchans = w.nchans := congrArg Roster.nchans he.roster
  have hr : w'.ghost.removed = w.ghost.removed := congrArg Roster.removed he.roster
  have hd : w'.ghost.destroyed = w.ghost.destroyed := congrArg Roster.destroyed he.roster
  refine ⟨he.linked h.toLinked,⟨hc ▸ h.wf,hc ▸ h.bits,hc ▸ h.deleter,?_⟩,h.listening.congr hm hc fun c => by rw [he.chans]⟩
  rw [hr,hd,hc,hn]
  exact h.kept

/-- What the callbacks for the end of a connection do, one after the other. -/
theorem raiseDisconnected_invariant {J : World → Prop}
    (hcall : ∀ t u c, J t → 0 < t.server.disconnected.count () (.disconnected c) 0 →
      Affects c ChanState.disconnect [] t u → J u)
    (hother : ∀ t u, J t → Affects 0 id [] t u → J u) (hw : J w) :
    Meets J (fun _ => True) (IrcServer.raiseDisconnected w) := by
  refine Meets.mono (Event.raiseFrom_spec (J := fun _ t => J t) (fun _ _ _ ht _ _ => ht) ?_ (fun _ => trivial) hw)
    (fun _ ⟨_,ht,_⟩ => ht) fun _ he => he
  intro k t slot handler ht hslot hh hid
  cases handler with
  | disconnected c =>
    have hr : 0 < t.server.disconnected.count () (.disconnected c) 0 :=
      Event.count_pos_iff.mpr ⟨slot,List.mem_of_getElem? hslot,rfl,hh,hid⟩
    exact Meets.mono (IrcChannel.disconnected_performs c t) (fun u hu => hcall t u c ht hr hu) fun _ he => he
  | shutdownok => exact hother t _ ht (shutdownok_affects 0 t)

theorem awaitReconn_state (t : World) : (IrcServer.awaitReconn t).state = t.state := by
  refine state_of_timers rfl rfl rfl fun timer htimer => ?_
  exact (count_register_timer _ (show ¬ TickHandler.connWaitReconn.IsTimer from not_false) htimer).trans
    (count_unregister_timer _ (show ¬ TickHandler.connWaitLogin.IsTimer from not_false) htimer)

theorem login_state (w : World) (name : Option Bytes) : World.state { w with
    server.name := name
    server.connst := 1
    server.sendcreditticks := FULLSENDCREDIT
    service.tick := (w.service.tick.unregister () .connWaitLogin 0).register () .activeTick 0 } = w.state := by
  refine state_of_timers rfl rfl rfl fun timer htimer => ?_
  exact (count_register_timer _ (show ¬ TickHandler.activeTick.IsTimer from not_false) htimer).trans
    (count_unregister_timer _ (show ¬ TickHandler.connWaitLogin.IsTimer from not_false) htimer)

theorem listen_state (w : World) : World.state { w with
    server.connected := w.server.connected.register () .connected 0
    server.joined := w.server.joined.register () .chanJoined 0
    server.msgReceived := w.server.msgReceived.register () .msgReceived IrcCommand.MSG_PRIVMSG.code } = w.state := by
  funext c
  simp [World.state,Event.count_register]

namespace Charted

theorem close (h : Charted w) {t : World} {est : Bool}
    (ht : IrcServer.raiseDisconnected (IrcServer.hangUp est w) = .ok t) : Charted (IrcServer.awaitReconn t) := by
  have hhang : ChannelInv (IrcServer.hangUp est w) := ⟨h.toLinked.hangUp est,{ h.toOwned with },h.listening⟩
  have hchart : Charted (IrcServer.hangUp est w) := h.congr hhang rfl rfl rfl rfl rfl rfl
  have hi : ChannelInv t := hhang.effects (hangUp_effects ht)
  have hrun := raiseDisconnected_invariant (w := IrcServer.hangUp est w)
    (J := fun u => u.roster = w.roster ∧ ∀ c, w.nchans ≤ c → u.state c = w.state c) ?_ ?_ ⟨rfl,fun _ _ => rfl⟩
  · rw [ht] at hrun
    have hct : Charted t := hchart.keeps hi hrun.1 hrun.2
    exact hct.congr ⟨hi.toLinked.awaitReconn,{ hi.toOwned with },hi.listening⟩ (awaitReconn_state t) rfl rfl rfl rfl rfl
  · rintro u v c ⟨hr,hs⟩ hreg hv
    refine ⟨hv.roster.trans hr,fun d hd => ?_⟩
    by_cases hdc : d = c
    · have hzero := congrArg ChanState.disconnected (hs d hd)
      rw [show (w.state d).disconnected = 0 from (h.fresh d hd).disconnected] at hzero
      rw [hdc] at hzero
      exact absurd hzero (Nat.ne_of_gt hreg)
    · rw [hv.others d hdc,hs d hd]
  · rintro u v ⟨hr,hs⟩ hv
    refine ⟨hv.roster.trans hr,fun d hd => ?_⟩
    rw [hv.state,hs d hd]

theorem happens {l : Happening} (h : Charted w) (hh : Happens l w w') : Charted w' := by
  cases hh with
  | call hd => exact h.call hd
  | login name hw =>
    exact h.congr (h.toChannelInv.change (.login w name hw)) (login_state w name) rfl rfl rfl rfl rfl
  | close est hc ht => exact h.close ht
  | create name hget => exact h.create hget
  | listen =>
    refine h.congr ⟨{ h.toLinked with },{ h.toOwned with },fun c cmd hcmd => ?_⟩ (listen_state w) rfl rfl rfl rfl rfl
    change (w.server.msgReceived.register () .msgReceived _).count () _ _ = _
    rw [Event.count_register_ne _ (by simp : MsgHandler.msgReceived ≠ .handleMsg c)]
    exact h.listening c cmd hcmd
  | other he =>
    exact h.congr (channelInv_of_elsewhere h.toChannelInv he) he.state he.chans (congrArg Roster.channels he.roster)
      (congrArg Roster.nchans he.roster) (congrArg Roster.removed he.roster) (congrArg Roster.destroyed he.roster)

theorem initial (h : w.Initial) : Charted w := by
  have hhas : ∀ c, ¬ w.Has c := by
    intro c hc
    rw [World.Has,h.channels] at hc
    cases hc
  refine ⟨.initial h,⟨fun c hc => absurd hc (hhas c),fun c hc => absurd hc (hhas c)⟩,fun c hlt => ?_,fun c hmem => ?_,
    fun c _ => ?_⟩
  · rw [h.nchans] at hlt
    cases hlt
  · rw [h.ghost] at hmem
    cases hmem
  · refine ⟨?_,?_,?_,?_⟩ <;> simp [World.state,h.connected,h.disconnected,h.tick]

end Charted

/-- What holds initially and is kept by all that a condition admits, holds in the runs under it. -/
theorem World.Reached.induct {I : World → Prop} (hi : ∀ w : World, w.Initial → I w)
    (hs : ∀ w w' l, Charted w → I w → C l w → Happens l w w' → I w') (h : w.Reached C) : Charted w ∧ I w := by
  obtain ⟨w₀,h₀,hw⟩ := h
  exact Effects.invariant (I := fun t => Charted t ∧ I t)
    (fun t u ht ⟨l,hc,hl⟩ => ⟨ht.1.happens hl,hs t u l ht.1 ht.2 hc hl⟩) ⟨.initial h₀,hi w₀ h₀⟩ hw

/-! ## Runs under a condition -/

theorem Happens.nchans_le {l : Happening} (h : Happens l w w') : w.nchans ≤ w'.nchans := by
  cases h with
  | call hd => exact Nat.le_of_eq (same_of_effects hd.effects).nchans.symm
  | close est hc ht => exact Nat.le_of_eq (same_of_effects (hangUp_effects ht)).nchans.symm
  | create name hget => exact (addChannel_creates hget).nchans ▸ Nat.le_succ _
  | other he => exact Nat.le_of_eq (congrArg Roster.nchans he.roster).symm
  | _ => exact Nat.le_refl _

/-- A run without a channel meets every condition on channels. -/
theorem World.Reachable.reached_empty (h : w.Reachable) (hn : w.nchans = 0)
    (hC : ∀ l t u, Charted t → t.nchans = 0 → Happens l t u → C l t) : w.Reached C := by
  obtain ⟨w₀,h₀,hw⟩ := h.reached
  refine ⟨w₀,h₀,?_⟩
  have hrun : ReflTransGen (Admitted C) w₀ w ∧ Charted w := by
    clear h
    induction hw with
    | refl => exact ⟨.refl,.initial h₀⟩
    | tail _ hl ih =>
      obtain ⟨l,_,hl⟩ := hl
      have hzero := Nat.le_zero.mp (hn ▸ hl.nchans_le)
      obtain ⟨hpath,hct⟩ := ih hzero
      exact ⟨hpath.tail ⟨l,hC l _ _ hct hzero hl,hl⟩,hct.happens hl⟩
  exact hrun.1

/-- The state that a computation ends in, or reaches before its fault. -/
def World.result (r : Run) : World :=
  match r with
  | .ok w => w
  | .error e => e.2

theorem World.result_eq {r : Run} (h : r.isOk) : r = .ok (World.result r) := by
  cases r with
  | ok w => rfl
  | error e => cases h

namespace World.Reached

theorem next {l : Happening} (h : w.Reached C) (hC : C l w) (hl : Happens l w w') : w'.Reached C := by
  obtain ⟨w₀,h₀,hw⟩ := h
  exact ⟨w₀,h₀,hw.tail ⟨l,hC,hl⟩⟩

/-- `IrcServer_join` with a new name. -/
theorem join {name : Bytes} (h : w.Reached C) (hget : w.server.channels.get name = none)
    (hj : IrcServer.join name w = .ok w') (h₁ : C (.create name) w)
    (h₂ : C (.call (.join w.nchans)) (IrcServer.addChannel name w).2) : w'.Reached C := by
  refine (h.next h₁ (.create name hget)).next h₂ (.call (.join w.nchans (addChannel_has name w) ?_))
  unfold IrcServer.join at hj
  rw [hget] at hj
  exact hj

/-- `IrcServer_part` with the name of a channel in the table. -/
theorem part {name : Bytes} (h : w.Reached C) (hs : w.Has self) (hn : (w.chans self).name = name)
    (hp : IrcServer.part name w = .ok w') (hC : C (.call (.part self)) w) : w'.Reached C :=
  h.next hC (.call (.part self hs (hn.symm ▸ hp)))

end World.Reached
end LibIrcBot
