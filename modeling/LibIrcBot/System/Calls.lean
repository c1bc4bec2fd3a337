import LibIrcBot.System.ChannelEffects

/-! # Calls into a channel

The server, the service and the application call a channel through one of its functions.
Such a call is the unit in which the state of a channel changes: each is a sequence of
effects, and between two of them no function of a channel is running.
-/
namespace LibIrcBot
open CString Effects Relation Outcome

/-- A function of a channel that is called, or the start of jobs by the bot. -/
inductive Call where
  | join (self : ChanId) | part (self : ChanId)
  | joinOnConnect (self : ChanId) | waitjoin (self : ChanId) | waitrejoin (self : ChanId)
  | handleMsg (self : ChanId) (msg : IrcMessage)
  | jobs
deriving DecidableEq, Repr

variable {w w' : World} {l : Call}

/-- The channel is in the table of the server, under its name. -/
def World.Has (w : World) (self : ChanId) : Prop := w.server.channels.get (w.chans self).name = some self

/-- One call and what comes of it: callbacks are called while they are registered, the other
functions for channels of the server. -/
inductive Does : Call → World → World → Prop where
  | join {w w' : World} (self : ChanId) (hs : w.Has self) (h : IrcChannel.join self w = .ok w') :
      Does (.join self) w w'
  | part {w w' : World} (self : ChanId) (hs : w.Has self) (h : IrcServer.part (w.chans self).name w = .ok w') :
      Does (.part self) w w'
  | joinOnConnect {w w' : World} (self : ChanId) (hst : 0 < w.server.connst)
      (hr : 0 < w.server.connected.count () (.joinOnConnect self) 0) (h : IrcChannel.joinOnConnect self w = .ok w') :
      Does (.joinOnConnect self) w w'
  | waitjoin {w w' : World} (self : ChanId) (hr : 0 < w.service.tick.count () (.waitjoin self) 0)
      (h : IrcChannel.waitjoin self w = .ok w') : Does (.waitjoin self) w w'
  | waitrejoin {w w' : World} (self : ChanId) (hr : 0 < w.service.tick.count () (.waitrejoin self) 0)
      (h : IrcChannel.waitrejoin self w = .ok w') : Does (.waitrejoin self) w w'
  | handleMsg {w w' : World} (self : ChanId) (env : Env) (m : IrcMessage) (hr : IrcChannel.Listens self m w)
      (h : IrcChannel.handleMsg self env m w = .ok w') : Does (.handleMsg self m) w w'
  | jobs {w : World} (jobs : List (IrcBotEventHandler × IrcBotEvent)) : Does .jobs w { w with bot.jobs := jobs }

def Called (w w' : World) : Prop := ∃ l, Does l w w'

/-- `IrcServer_part` removes the channel that it finds under a name. -/
theorem part_mild {self : ChanId} {msg : Option IrcMessage} (hs : w.Has self) :
    MildTraces msg w (IrcServer.part (w.chans self).name w) := by
  unfold IrcServer.part
  rw [hs]
  dsimp only
  have hpart : ∀ t : World, MildTraces msg t (IrcChannel.part self t) := fun t => IrcChannel.part_mild self t
  refine .step (.removed w self) ((hpart _).bind fun t ht => ?_)
  have hu := IrcChannel.unregisterChannel_mild self t
  have hall := effects_of_mild (ht.trans hu)
  have hrem := Mild.remove _ self (IrcChannel.removed_of_effects hall
    (List.mem_append_right _ (List.mem_singleton_self self)))
  have hn : ((IrcServer.unregisterChannel self t).chans self).name = (w.chans self).name :=
    Effects.invariant (I := fun u => (u.chans self).name = (w.chans self).name)
      (fun _ _ hu hs => (hs.name self).trans hu) rfl hall
  rw [hn] at hrem
  exact .pure (hu.tail hrem)

theorem part_traces {self : ChanId} {msg : Option IrcMessage} (hs : w.Has self) :
    Traces msg w (IrcServer.part (w.chans self).name w) := (part_mild hs).traces

theorem Does.mild (h : Does l w w') : ReflTransGen Mild w w' := by
  have hof : ∀ {msg : Option IrcMessage} {r : Run}, MildTraces msg w r → r = .ok w' → ReflTransGen Mild w w' := by
    intro msg r ht hr
    rw [hr] at ht
    exact ht
  cases h with
  | join self _ h => exact hof (IrcChannel.join_mild self w : MildTraces none w _) h
  | part self hs h => exact hof (part_mild hs : MildTraces none w _) h
  | joinOnConnect self _ _ h => exact hof (IrcChannel.joinOnConnect_mild self w : MildTraces none w _) h
  | waitjoin self _ h => exact hof (IrcChannel.waitjoin_mild self w : MildTraces none w _) h
  | waitrejoin self _ h => exact hof (IrcChannel.waitrejoin_mild self w : MildTraces none w _) h
  | handleMsg self env m hr h => exact hof (IrcChannel.handleMsg_mild env hr) h
  | jobs jobs => exact .single (.job w jobs)

theorem Does.effects (h : Does l w w') : ReflTransGen Effect w w' := effects_of_mild h.mild

theorem effects_of_called (h : ReflTransGen Called w w') : ReflTransGen Effect w w' :=
  Effects.invariant (I := ReflTransGen Effect w) (fun _ _ ht ⟨_,hd⟩ => ht.trans hd.effects) .refl h

theorem same_of_effects (h : ReflTransGen Effect w w') : w.SameLogin w' := by
  induction h with
  | refl => exact ⟨.refl w,rfl,rfl,rfl⟩
  | tail _ h ih =>
    exact ⟨ih.toSameConn.trans h.same.toSameConn,h.same.connst.trans ih.connst,h.same.nick.trans ih.nick,
      h.same.nchans.trans ih.nchans⟩

theorem shrinks_of_effects (h : ReflTransGen Effect w w') : w.Shrinks w' := by
  induction h with
  | refl => exact ⟨le_refl _,fun _ => le_refl _,fun _ => le_refl _,fun _ => rfl,fun _ => rfl,fun _ => rfl⟩
  | tail ht h ih =>
    have hst := connst_of_effects ht
    have hs := h.shrinks
    exact ⟨hs.msgReceived.trans ih.msgReceived,
      fun hc => (hs.connected (lt_of_lt_of_eq hc hst.symm)).trans (ih.connected hc),
      fun hc => (hs.disconnected (le_of_eq_of_le hst hc)).trans (ih.disconnected hc),
      fun c => (hs.joined c).trans (ih.joined c),fun c => (hs.parted c).trans (ih.parted c),
      fun c => (hs.failed c).trans (ih.failed c)⟩

end LibIrcBot
