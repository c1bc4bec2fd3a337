import LibIrcBot.System.Service
import LibIrcBot.System.Sending
import LibIrcBot.Events.Dispatch

/-! # What channels and the bot do to the state

Every function of a channel and every callback of the bot, with all events they raise
in turn, is a sequence of the elementary effects below. Their guards record under
which connection state each of them happens.
-/
namespace LibIrcBot
open CString Effects Relation Outcome

def TickHandler.IsTimer : TickHandler → Prop
  | .waitjoin _ => True
  | .waitrejoin _ => True
  | _ => False

/-- A change of a channel that keeps its name and adds nothing to what the server listens to. -/
structure IrcChannel.Keeps (f : IrcChannel → IrcChannel) : Prop where
  name : ∀ c, (f c).name = c.name
  joined : ∀ c, (f c).joined.size = c.joined.size
  parted : ∀ c, (f c).parted.size = c.parted.size
  failed : ∀ c, (f c).failed.size = c.failed.size

/-- One elementary change of the state by a channel or the bot. -/
inductive Effect : World → World → Prop where
  | chan (w : World) (self : ChanId) (f : IrcChannel → IrcChannel) (hf : IrcChannel.Keeps f) :
      Effect w (w.setChan self f)
  | tickRegister (w : World) (h : TickHandler) (hh : h.IsTimer) :
      Effect w { w with service.tick := w.service.tick.register () h 0 }
  | tickUnregister (w : World) (h : TickHandler) (hh : h.IsTimer) :
      Effect w { w with service.tick := w.service.tick.unregister () h 0 }
  | connectedRegister (w : World) (self : ChanId) (hst : w.server.connst ≤ 0) :
      Effect w { w with server.connected := w.server.connected.register () (.joinOnConnect self) 0 }
  | connectedUnregister (w : World) (self : ChanId) :
      Effect w { w with server.connected := w.server.connected.unregister () (.joinOnConnect self) 0 }
  | disconnectedRegister (w : World) (self : ChanId) (hst : 0 < w.server.connst) :
      Effect w { w with server.disconnected := w.server.disconnected.register () (.disconnected self) 0 }
  | disconnectedUnregister (w : World) (h : LogoutHandler) :
      Effect w { w with server.disconnected := w.server.disconnected.unregister () h 0 }
  | shutdownRef (w : World) (n : ℤ) : Effect w { w with service.shutdownRef := n }
  | job (w : World) (jobs : List (IrcBotEventHandler × IrcBotEvent)) : Effect w { w with bot.jobs := jobs }
  | send (w w' : World) (cmd : IrcCommand) (args : Bytes) (hcmd : cmd.str.isSome)
      (hst : 0 < w.server.connst) (h : IrcServer.sendRawCmd cmd (some args) w = .ok w') : Effect w w'
  | removed (w : World) (self : ChanId) :
      Effect w { w with ghost.removed := w.ghost.removed ++ [self] }
  | remove (w : World) (self : ChanId) (h : self ∈ w.ghost.removed) :
      Effect w (IrcServer.deleteChannel (w.chans self).name (IrcChannel.destroy self w))

/-- The branches of `handleMsg` that read the prefix of the message. -/
def ReadsPrefix (self : ChanId) (msg : IrcMessage) (w : World) : Prop :=
  ((msg.command = .MSG_JOIN ∨ msg.command = .MSG_PART) ∧ msg.params[0]? = some (w.chans self).name) ∨
    msg.command = .MSG_QUIT ∨ (msg.command = .MSG_NICK ∧ msg.params.length = 1)

/-- One elementary fault, while the message, if any, is being handled. -/
inductive EffectFault (msg : Option IrcMessage) : World → Fault × World → Prop where
  | send (w : World) (e : Fault × World) (cmd : IrcCommand) (args : Bytes) (hcmd : cmd.str.isSome)
      (hst : 0 < w.server.connst) (h : IrcServer.sendRawCmd cmd (some args) w = .error e) : EffectFault msg w e
  | noPrefix (w : World) (self : ChanId) (m : IrcMessage) (hm : msg = some m) (hp : m.msgPrefix = none)
      (hr : 0 < w.server.msgReceived.count () (.handleMsg self) m.command.code)
      (h : ReadsPrefix self m w) : EffectFault msg w (.nullString,w)
  | freedName (w : World) (self : ChanId) (m : IrcMessage) (hm : msg = some m)
      (hcmd : m.command = .ERR_NOSUCHCHANNEL) :
      EffectFault msg w (.wildPointer,IrcChannel.destroy self (IrcServer.unregisterChannel self w))

/-- A computation on the state whose changes are elementary effects. -/
abbrev Traces (msg : Option IrcMessage) (w : World) (r : Run) : Prop := Traced Effect (EffectFault msg) w id r

theorem raise_traced {η : Type} {R : World → World → Prop} {B : World → Fault × World → Prop}
    {event : World → Listeners η} {call : η → World → Run} {i : ℤ} {w : World}
    (hcall : ∀ t, ReflTransGen R w t → ∀ slot ∈ (event t).handlers, ∀ h, slot.handler = some h → slot.id = i →
      Traced R B t id (call h t))
    (hsize : ∀ t u, ReflTransGen R w t → R t u → (event u).size ≤ (event t).size) :
    Traced R B w id (w.raise event call i) :=
  Event.raiseFrom_traced hcall hsize (Nat.le_add_right _ _)

section Raise
variable {w : World} {η : Type} {event : World → Listeners η} {call : η → World → Run} {i : ℤ}

theorem raise_only {handler : η} (h : (event w).Only () handler i)
    (hsize : ∀ t, call handler w = .ok t → (event t).size = (event w).size) :
    w.raise event call i = call handler w := by
  refine Event.raise_only h (fun t ht => ?_)
  obtain ⟨n,hh⟩ := h
  rw [hsize t ht,Event.size,hh]
  exact Nat.le_refl 1

/-- Raising an event with a single callback, which leaves the event alone. -/
theorem raise_iterate [DecidableEq η] {handler : η} {f : World → World} (hh : ∀ h : η, h = handler)
    (hcall : ∀ t, call handler t = .ok (f t)) (hevent : ∀ t, event (f t) = event t) :
    w.raise event call i = .ok (f^[(event w).count () handler i] w) :=
  Event.raiseFrom_iterate (fun _ => rfl) hh hcall hevent (Nat.le_add_right _ _)

theorem raise_const (h : ∀ handler, call handler w = .ok w) : w.raise event call i = .ok w :=
  Event.raiseFrom_const (fun _ => h) (Nat.le_add_right _ _)

theorem raise_none (h : (event w).handlers = []) : w.raise event call i = .ok w := by
  rw [World.raise,Event.raise,show (event w).size = 0 from congrArg List.length h,Event.raiseFrom,
    show (event w).size = 0 from congrArg List.length h]
  rfl

/-- What every callback keeps, a raise keeps. -/
theorem raise_invariant {I : World → Prop} (hcall : ∀ h t, I t → Meets I (fun _ => True) (call h t)) (hw : I w) :
    Meets I (fun _ => True) (w.raise event call i) :=
  Meets.mono (Event.raiseFrom_spec (J := fun _ t => I t) (fun _ _ _ ht _ _ => ht)
    (fun _ t _ h ht _ _ _ => hcall h t ht) (fun _ => trivial) hw) (fun _ ⟨_,ht,_⟩ => ht) fun _ he => he

end Raise

theorem deleteChannel_shape (name : Bytes) (w : World) : ∃ msgReceived destroyed,
    IrcServer.deleteChannel name w = { w with
      server.msgReceived := msgReceived
      ghost.destroyed := destroyed
      server.channels := (w.server.channels.delete name).2.2 } := by
  unfold IrcServer.deleteChannel
  dsimp only
  split <;> exact ⟨_,_,rfl⟩

theorem remove_shape (name : Bytes) (self : ChanId) (w : World) : ∃ msgReceived destroyed,
    IrcServer.deleteChannel name (IrcChannel.destroy self w) = { w with
      server.msgReceived := msgReceived
      ghost.destroyed := destroyed
      server.channels := (w.server.channels.delete name).2.2 } := by
  obtain ⟨m,d,h⟩ := deleteChannel_shape name (IrcChannel.destroy self w)
  exact ⟨m,d,h⟩

/-- The part of the state that belongs to the connection, and that messages leave alone. -/
structure World.SameLink (w w' : World) : Prop where
  conn : w'.server.conn = w.server.conn
  joined : w'.server.joined = w.server.joined
  parted : w'.server.parted = w.server.parted
  nconns : w'.nconns = w.nconns
  eventsDone : w'.service.eventsDone = w.service.eventsDone
  leftover : w'.ghost.leftover = w.ghost.leftover
  closings : w'.ghost.closings = w.ghost.closings
  openings : w'.ghost.openings = w.ghost.openings

/-- What commands, channels and the handling of one message leave alone in addition. -/
structure World.SameConn (w w' : World) : Prop extends w.SameLink w' where
  recvbuf : w'.server.recvbuf = w.server.recvbuf
  received : w'.ghost.received = w.ghost.received
  handled : w'.ghost.handled = w.ghost.handled

structure World.SameLogin (w w' : World) : Prop extends w.SameConn w' where
  connst : w'.server.connst = w.server.connst
  nick : w'.server.nick = w.server.nick
  nchans : w'.nchans = w.nchans

namespace World
variable {w w' w'' : World}

theorem SameLink.refl (w : World) : w.SameLink w := by constructor <;> rfl

theorem SameLink.trans (h : w.SameLink w') (h' : w'.SameLink w'') : w.SameLink w'' where
  conn := h'.conn.trans h.conn
  joined := h'.joined.trans h.joined
  parted := h'.parted.trans h.parted
  nconns := h'.nconns.trans h.nconns
  eventsDone := h'.eventsDone.trans h.eventsDone
  leftover := h'.leftover.trans h.leftover
  closings := h'.closings.trans h.closings
  openings := h'.openings.trans h.openings

theorem SameConn.refl (w : World) : w.SameConn w := ⟨.refl w,rfl,rfl,rfl⟩

theorem SameConn.trans (h : w.SameConn w') (h' : w'.SameConn w'') : w.SameConn w'' where
  toSameLink := h.toSameLink.trans h'.toSameLink
  recvbuf := h'.recvbuf.trans h.recvbuf
  received := h'.received.trans h.received
  handled := h'.handled.trans h.handled

end World

theorem World.Outputs.same {w w' : World} (h : w.Outputs w') : w.SameLogin w' := by
  obtain ⟨_,_,_,_,_,_,_,_,_,_,_,_,rfl⟩ := h
  exact ⟨⟨⟨rfl,rfl,rfl,rfl,rfl,rfl,rfl,rfl⟩,rfl,rfl,rfl⟩,rfl,rfl,rfl⟩

theorem sendRawCmd_outputs {cmd : IrcCommand} {args : Bytes} {w w' : World} (hcmd : cmd.str.isSome)
    (h : IrcServer.sendRawCmd cmd (some args) w = .ok w') : w.Outputs w' := by
  have hs := IrcServer.sendRawCmd_spec hcmd args w
  rw [h] at hs
  exact hs

theorem Effect.same {w w' : World} (h : Effect w w') : w.SameLogin w' := by
  cases h with
  | send _ cmd args hcmd _ h => exact (sendRawCmd_outputs hcmd h).same
  | remove self _ =>
    obtain ⟨_,_,h⟩ := remove_shape (w.chans self).name self w
    rw [h]
    exact ⟨⟨⟨rfl,rfl,rfl,rfl,rfl,rfl,rfl,rfl⟩,rfl,rfl,rfl⟩,rfl,rfl,rfl⟩
  | _ => exact ⟨⟨⟨rfl,rfl,rfl,rfl,rfl,rfl,rfl,rfl⟩,rfl,rfl,rfl⟩,rfl,rfl,rfl⟩

theorem connst_of_effects {w w' : World} (h : ReflTransGen Effect w w') :
    w'.server.connst = w.server.connst := by
  induction h with
  | refl => rfl
  | tail _ h ih => exact h.same.connst.trans ih

/-- No effect makes an event longer while it is raised: a channel registers for the login
only when logged out, and for the logout only when logged in. -/
structure World.Shrinks (w w' : World) : Prop where
  msgReceived : w'.server.msgReceived.size ≤ w.server.msgReceived.size
  connected : 0 < w.server.connst → w'.server.connected.size ≤ w.server.connected.size
  disconnected : w.server.connst ≤ 0 → w'.server.disconnected.size ≤ w.server.disconnected.size
  joined : ∀ self, (w'.chans self).joined.size = (w.chans self).joined.size
  parted : ∀ self, (w'.chans self).parted.size = (w.chans self).parted.size
  failed : ∀ self, (w'.chans self).failed.size = (w.chans self).failed.size

theorem foldl_unregister_size {η : Type} [DecidableEq η] (h : η) (cmds : List IrcCommand) (e : Listeners η) :
    (cmds.foldl (fun e cmd => e.unregister () h cmd.code) e).size = e.size := by
  induction cmds generalizing e with
  | nil => rfl
  | cons cmd cmds ih => rw [List.foldl_cons,ih,Event.unregister_size]

theorem destroy_msgReceived_size (self : ChanId) (w : World) :
    (IrcChannel.destroy self w).server.msgReceived.size = w.server.msgReceived.size :=
  foldl_unregister_size _ _ _

theorem deleteChannel_msgReceived_size (name : Bytes) (w : World) :
    (IrcServer.deleteChannel name w).server.msgReceived.size = w.server.msgReceived.size := by
  unfold IrcServer.deleteChannel
  dsimp only
  split
  · exact destroy_msgReceived_size _ _
  · rfl

theorem setChan_chans (w : World) (self c : ChanId) (f : IrcChannel → IrcChannel) :
    ((w.setChan self f).chans c) = if c = self then f (w.chans c) else w.chans c := by
  by_cases h : c = self
  · subst h
    simp [World.setChan]
  · simp [World.setChan,h]

theorem Effect.shrinks {w w' : World} (h : Effect w w') : w.Shrinks w' := by
  have hfix : ∀ u : World, u.server.msgReceived = w.server.msgReceived →
      u.server.connected = w.server.connected → u.server.disconnected = w.server.disconnected →
      u.chans = w.chans → w.Shrinks u := by
    intro u hm hc hd hch
    constructor <;> simp [hm,hc,hd,hch]
  cases h with
  | chan self f hf =>
    refine ⟨Nat.le_refl _,fun _ => Nat.le_refl _,fun _ => Nat.le_refl _,?_,?_,?_⟩
    · intro c
      rw [setChan_chans]
      split <;> simp [hf.joined]
    · intro c
      rw [setChan_chans]
      split <;> simp [hf.parted]
    · intro c
      rw [setChan_chans]
      split <;> simp [hf.failed]
  | connectedRegister self hst =>
    exact ⟨Nat.le_refl _,fun h => absurd h (by omega),fun _ => Nat.le_refl _,fun _ => rfl,fun _ => rfl,fun _ => rfl⟩
  | connectedUnregister self =>
    exact ⟨Nat.le_refl _,fun _ => by simp,fun _ => Nat.le_refl _,fun _ => rfl,fun _ => rfl,fun _ => rfl⟩
  | disconnectedRegister self hst =>
    exact ⟨Nat.le_refl _,fun _ => Nat.le_refl _,fun h => absurd hst (by omega),fun _ => rfl,fun _ => rfl,fun _ => rfl⟩
  | disconnectedUnregister h =>
    exact ⟨Nat.le_refl _,fun _ => Nat.le_refl _,fun _ => by simp,fun _ => rfl,fun _ => rfl,fun _ => rfl⟩
  | send _ cmd args hcmd _ h =>
    obtain ⟨_,_,_,_,_,_,_,_,_,_,_,_,rfl⟩ := sendRawCmd_outputs hcmd h
    exact hfix _ rfl rfl rfl rfl
  | remove self hr =>
    obtain ⟨m,d,he⟩ := remove_shape (w.chans self).name self w
    have hm : m.size = w.server.msgReceived.size := by
      have h := deleteChannel_msgReceived_size (w.chans self).name (IrcChannel.destroy self w)
      rw [he,destroy_msgReceived_size] at h
      exact h
    rw [he]
    exact ⟨Nat.le_of_eq hm,fun _ => Nat.le_refl _,fun _ => Nat.le_refl _,fun _ => rfl,fun _ => rfl,fun _ => rfl⟩
  | tickRegister | tickUnregister | shutdownRef | job | removed => exact hfix _ rfl rfl rfl rfl

theorem Effect.name (h : Effect w w') (c : ChanId) : (w'.chans c).name = (w.chans c).name := by
  cases h with
  | chan self f hf =>
    rw [setChan_chans]
    split
    · exact hf.name _
    · rfl
  | send _ cmd args hcmd _ hs =>
    obtain ⟨_,_,_,_,_,_,_,_,_,_,_,_,rfl⟩ := sendRawCmd_outputs hcmd hs
    rfl
  | remove self _ =>
    obtain ⟨_,_,he⟩ := remove_shape (w.chans self).name self w
    rw [he]
  | _ => rfl

def World.locks (w : World) : ℕ := w.server.disconnected.count () .shutdownok 0

structure World.SameLocks (w w' : World) : Prop where
  shutdownRef : w'.service.shutdownRef = w.service.shutdownRef
  locks : w'.locks = w.locks

namespace World.SameLocks
variable {w w' w'' : World}

theorem refl (w : World) : w.SameLocks w := ⟨rfl,rfl⟩

theorem trans (h : w.SameLocks w') (h' : w'.SameLocks w'') : w.SameLocks w'' :=
  ⟨h'.shutdownRef.trans h.shutdownRef,h'.locks.trans h.locks⟩

/-- Whoever listens to the end of the connection leaves the bot's callback alone. -/
theorem register (w : World) (self : ChanId) : w.SameLocks { w with
    server.disconnected := w.server.disconnected.register () (.disconnected self) 0 } :=
  ⟨rfl,Event.count_register_ne _ (by simp)⟩

theorem unregister (w : World) (self : ChanId) : w.SameLocks { w with
    server.disconnected := w.server.disconnected.unregister () (.disconnected self) 0 } :=
  ⟨rfl,Event.count_unregister_ne _ (by simp)⟩

end World.SameLocks

theorem World.Outputs.locks {w w' : World} (h : w.Outputs w') : w.SameLocks w' := by
  obtain ⟨_,_,_,_,_,_,_,_,_,_,_,_,rfl⟩ := h
  exact ⟨rfl,rfl⟩

/-- An effect of anything but the end of a connection. -/
structure Mild (w w' : World) : Prop where
  effect : Effect w w'
  locks : w.SameLocks w'

namespace Mild

theorem chan (w : World) (self : ChanId) (f : IrcChannel → IrcChannel) (hf : IrcChannel.Keeps f) :
    Mild w (w.setChan self f) := ⟨.chan w self f hf,rfl,rfl⟩

theorem tickRegister (w : World) (h : TickHandler) (hh : h.IsTimer) :
    Mild w { w with service.tick := w.service.tick.register () h 0 } := ⟨.tickRegister w h hh,rfl,rfl⟩

theorem tickUnregister (w : World) (h : TickHandler) (hh : h.IsTimer) :
    Mild w { w with service.tick := w.service.tick.unregister () h 0 } := ⟨.tickUnregister w h hh,rfl,rfl⟩

theorem connectedRegister (w : World) (self : ChanId) (hst : w.server.connst ≤ 0) :
    Mild w { w with server.connected := w.server.connected.register () (.joinOnConnect self) 0 } :=
  ⟨.connectedRegister w self hst,rfl,rfl⟩

theorem connectedUnregister (w : World) (self : ChanId) :
    Mild w { w with server.connected := w.server.connected.unregister () (.joinOnConnect self) 0 } :=
  ⟨.connectedUnregister w self,rfl,rfl⟩

theorem disconnectedRegister (w : World) (self : ChanId) (hst : 0 < w.server.connst) :
    Mild w { w with server.disconnected := w.server.disconnected.register () (.disconnected self) 0 } :=
  ⟨.disconnectedRegister w self hst,.register w self⟩

theorem disconnectedUnregister (w : World) (self : ChanId) :
    Mild w { w with server.disconnected := w.server.disconnected.unregister () (.disconnected self) 0 } :=
  ⟨.disconnectedUnregister w (.disconnected self),.unregister w self⟩

theorem job (w : World) (jobs : List (IrcBotEventHandler × IrcBotEvent)) : Mild w { w with bot.jobs := jobs } :=
  ⟨.job w jobs,rfl,rfl⟩

theorem send (w w' : World) (cmd : IrcCommand) (args : Bytes) (hcmd : cmd.str.isSome) (hst : 0 < w.server.connst)
    (h : IrcServer.sendRawCmd cmd (some args) w = .ok w') : Mild w w' :=
  ⟨.send w w' cmd args hcmd hst h,(sendRawCmd_outputs hcmd h).locks⟩

theorem removed (w : World) (self : ChanId) : Mild w { w with ghost.removed := w.ghost.removed ++ [self] } :=
  ⟨.removed w self,rfl,rfl⟩

theorem remove (w : World) (self : ChanId) (h : self ∈ w.ghost.removed) :
    Mild w (IrcServer.deleteChannel (w.chans self).name (IrcChannel.destroy self w)) := by
  refine ⟨.remove w self h,?_⟩
  obtain ⟨_,_,he⟩ := remove_shape (w.chans self).name self w
  rw [he]
  exact ⟨rfl,rfl⟩

end Mild

/-- A computation on the state that leaves the locks on the shutdown alone, too. -/
abbrev MildTraces (msg : Option IrcMessage) (w : World) (r : Run) : Prop := Traced Mild (EffectFault msg) w id r

theorem effects_of_mild (h : ReflTransGen Mild w w') : ReflTransGen Effect w w' :=
  ReflTransGen.mono (fun _ _ h => h.effect) _ _ h

theorem locks_of_mild (h : ReflTransGen Mild w w') : w.SameLocks w' :=
  Effects.invariant (I := w.SameLocks) (fun _ _ ht hs => ht.trans hs.locks) (.refl w) h

theorem MildTraces.traces {msg : Option IrcMessage} {r : Run} (h : MildTraces msg w r) : Traces msg w r :=
  h.mono (fun _ _ h => h.effect) (fun _ _ h => h)

namespace IrcBot
variable {msg : Option IrcMessage}

theorem dispatch_shape (hdl : Option IrcBotEventHandler) (e : IrcBotEvent) (w : World) :
    ∃ jobs, dispatch hdl e w = { w with bot.jobs := jobs } := by
  unfold dispatch
  split <;> exact ⟨_,rfl⟩

theorem dispatch_mild (hdl : Option IrcBotEventHandler) (e : IrcBotEvent) (w : World) :
    ReflTransGen Mild w (dispatch hdl e w) := by
  obtain ⟨jobs,h⟩ := dispatch_shape hdl e w
  rw [h]
  exact .single (.job w jobs)

theorem chanJoined_shape (channel : ChanId) (w : World) :
    ∃ jobs, chanJoined channel w = { w.setChan channel fun c => { c with
      entered := c.entered.register () .userJoined 0
      left := c.left.register () .userParted 0 } with bot.jobs := jobs } :=
  dispatch_shape _ _ _

theorem chanJoined_mild (channel : ChanId) (w : World) :
    ReflTransGen Mild w (chanJoined channel w) := by
  refine .head ?_ (dispatch_mild _ _ _)
  exact .chan w channel _ (by constructor <;> exact fun _ => rfl)

theorem msgReceived_shape (m : IrcMessage) (w : World) :
    ∃ jobs, msgReceived m w = { w with bot.jobs := jobs } := by
  unfold msgReceived
  split
  · dsimp only
    split
    · exact ⟨_,rfl⟩
    · exact dispatch_shape _ _ _
  · exact ⟨_,rfl⟩

theorem msgReceived_mild (m : IrcMessage) (w : World) : ReflTransGen Mild w (msgReceived m w) := by
  obtain ⟨jobs,h⟩ := msgReceived_shape m w
  rw [h]
  exact .single (.job w jobs)

theorem shutdownok_effects (w : World) : ReflTransGen Effect w (shutdownok w) := by
  refine .head (.disconnectedUnregister w .shutdownok) ?_
  unfold shutdownok Service.shutdownUnlock
  split
  · exact .single (.shutdownRef _ _)
  · exact .refl

end IrcBot

end LibIrcBot
