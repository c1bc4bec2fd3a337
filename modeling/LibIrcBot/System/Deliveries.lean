import LibIrcBot.System.Happenings

/-! # The delivery of a message

A message that channels listen to calls each channel of the table once, whatever the order of the
registrations is. What it does to a channel depends on the state before the message only.
-/
namespace LibIrcBot
open CString Effects Relation Outcome

variable {w w' t : World} {m : IrcMessage} {chan : ChanId}

instance (w : World) (chan : ChanId) : Decidable (w.Has chan) := inferInstanceAs (Decidable (_ = _))

namespace IrcChannel

/-- What a message does to the state of a channel, which it reaches if the channel is in the table. -/
def delivered (self : ChanId) (m : IrcMessage) (w : World) : ChanState → ChanState :=
  if w.Has self then received self m w else id

theorem received_congr (hr : t.roster = w.roster) (hs : w.SameLogin t) (m : IrcMessage) (self : ChanId) :
    received self m t = received self m w := by
  have hname : (t.chans self).name = (w.chans self).name := congrFun (congrArg Roster.name hr) self
  have hjoined : (t.chans self).joined = (w.chans self).joined := congrFun (congrArg Roster.joined hr) self
  have hk : Kicks self m t ↔ Kicks self m w := by rw [Kicks,Kicks,hname,hs.nick]
  have he : EndsNames self m t ↔ EndsNames self m w := by rw [EndsNames,EndsNames,hname]
  have hg : greetings self t = greetings self w := by rw [greetings,greetings,hjoined,hs.joined]
  simp only [received,hk,he,hg]

end IrcChannel

/-- What is known when the raise of a message comes to a slot: the channels that are not to be
called any more have been called. -/
structure Delivering (m : IrcMessage) (w : World) (k : ℕ) (t : World) : Prop where
  effects : ReflTransGen Effect w t
  roster : t.roster = w.roster
  commands : t.ghost.commands = w.ghost.commands
  state : ∀ c, t.state c = (if w.server.msgReceived.countFrom k () (.handleMsg c) m.command.code = 0 then
    IrcChannel.delivered c m w (w.state c) else w.state c)

namespace Delivering
variable {k : ℕ} {v : World} {slot : EvHandler Unit MsgHandler}

theorem start (hi : ChannelInv w) (hcmd : m.command ∈ IrcChannel.msgCommands) : Delivering m w 0 w := by
  refine ⟨.refl,rfl,rfl,fun c => ?_⟩
  by_cases hs : w.Has c
  · have hone : w.server.msgReceived.countFrom 0 () (.handleMsg c) m.command.code = 1 :=
      (hi.listening c m.command hcmd).trans (if_pos hs)
    simp [hone]
  · simp [IrcChannel.delivered,hs]

theorem slot_eq (h : Delivering m w k t) (hslot : t.server.msgReceived.handlers[k]? = some slot) :
    w.server.msgReceived.handlers[k]? = some slot := by
  rw [← hslot,show t.server.msgReceived = w.server.msgReceived from congrArg Roster.msgReceived h.roster]

/-- A pass that calls no channel. -/
theorem pass (h : Delivering m w k t) (hslot : t.server.msgReceived.handlers[k]? = some slot)
    (hm : ∀ c, Event.Matches () (.handleMsg c) m.command.code slot = false) (he : ReflTransGen Effect t v)
    (hr : v.roster = t.roster) (hc : v.ghost.commands = t.ghost.commands) (hs : v.state = t.state) :
    Delivering m w (k + 1) v := by
  refine ⟨h.effects.trans he,hr.trans h.roster,hc.trans h.commands,fun c => ?_⟩
  have hcount := Event.countFrom_succ (h.slot_eq hslot) () (.handleMsg c) m.command.code
  rw [if_neg (by simp [hm c]),Nat.add_zero] at hcount
  rw [hs,h.state,hcount]

/-- A pass that calls a channel. -/
theorem call (h : Delivering m w k t) (hi : ChannelInv w) (hcmd : m.command ∈ IrcChannel.msgCommands)
    (hslot : t.server.msgReceived.handlers[k]? = some slot) (hh : slot.handler = some (.handleMsg chan))
    (hid : slot.id = m.command.code) (he : ReflTransGen Effect t v)
    (hv : Affects chan (IrcChannel.received chan m t) [] t v) : Delivering m w (k + 1) v := by
  have hcommands := hv.commands
  rw [List.append_nil] at hcommands
  have hcount := fun c => Event.countFrom_succ (h.slot_eq hslot) () (.handleMsg c) m.command.code
  refine ⟨h.effects.trans he,hv.roster.trans h.roster,hcommands.trans h.commands,fun c => ?_⟩
  by_cases hc : c = chan
  · subst hc
    have hm : Event.Matches () (.handleMsg c) m.command.code slot = true := by simp [Event.Matches,hh,hid]
    have hlistens : IrcChannel.Listens c m w :=
      Event.count_pos_iff.mpr ⟨slot,List.mem_of_getElem? (h.slot_eq hslot),rfl,hh,hid⟩
    have hle : w.server.msgReceived.countFrom k () (.handleMsg c) m.command.code ≤ 1 :=
      (Event.countFrom_le _ _ _ _ _).trans (hi.listening.le c hcmd)
    have hone := hcount c
    rw [if_pos hm] at hone
    have hzero : w.server.msgReceived.countFrom (k + 1) () (.handleMsg c) m.command.code = 0 := by omega
    rw [hv.own,if_pos hzero,h.state,if_neg (by omega),IrcChannel.delivered,if_pos (hi.has_of_listens hcmd hlistens),
      IrcChannel.received_congr h.roster (same_of_effects h.effects)]
  · have hm : Event.Matches () (.handleMsg c) m.command.code slot = false := by simp [Event.Matches,hh,Ne.symm hc]
    have hsame := hcount c
    rw [if_neg (by simp [hm]),Nat.add_zero] at hsame
    rw [hv.others c hc,h.state,hsame]

end Delivering

/-- What the handling of a message does to the channels. -/
structure Delivered (m : IrcMessage) (w w' : World) : Prop where
  roster : w'.roster = w.roster
  commands : w'.ghost.commands = w.ghost.commands
  state : ∀ c, w'.state c = IrcChannel.delivered c m w (w.state c)
  connst : w'.server.connst = w.server.connst
  nick : w'.server.nick = w.server.nick
  inv : ChannelInv w'

/-- The raise slot by slot, with a property of the slot that comes next. -/
theorem raiseMsgReceived_spec {env : Env} {K : ℕ → World → Prop} (hi : ChannelInv w)
    (hcmd : m.command ∈ IrcChannel.msgCommands) (hok : m.command ≠ .ERR_NOSUCHCHANNEL)
    (hpass : ∀ k t v slot, Delivering m w k t → K k t → t.server.msgReceived.handlers[k]? = some slot →
      (∀ c, Event.Matches () (.handleMsg c) m.command.code slot = false) → v.chans = t.chans → K (k + 1) v)
    (hcall : ∀ k t v slot c, Delivering m w k t → K k t → t.server.msgReceived.handlers[k]? = some slot →
      slot.handler = some (.handleMsg c) → slot.id = m.command.code → IrcChannel.handleMsg c env m t = .ok v → K (k + 1) v)
    (h0 : K 0 w) (h : IrcServer.raiseMsgReceived env m w = .ok w') :
    ∃ l, Delivering m w l w' ∧ K l w' ∧ w'.server.msgReceived.handlers[l]? = none := by
  have hraise : Meets (fun t => ∃ l, (Delivering m w l t ∧ K l t) ∧ t.server.msgReceived.handlers[l]? = none)
      (fun _ => True) (IrcServer.raiseMsgReceived env m w) := by
    refine Event.raiseFrom_spec (J := fun k t => Delivering m w k t ∧ K k t) ?_ ?_ (fun _ => trivial) ⟨.start hi hcmd,h0⟩
    · rintro k t slot ⟨ht,hK⟩ hslot hdead
      have hm : ∀ c, Event.Matches () (.handleMsg c) m.command.code slot = false := by
        intro c
        rcases hdead with hdead | hdead <;> simp [Event.Matches,hdead]
      exact ⟨ht.pass hslot hm .refl rfl rfl rfl,hpass k t t slot ht hK hslot hm rfl⟩
    · rintro k t slot handler ⟨ht,hK⟩ hslot hhandler hid
      cases handler with
      | handleMsg c =>
        have hlistens : IrcChannel.Listens c m t :=
          Event.count_pos_iff.mpr ⟨slot,List.mem_of_getElem? hslot,rfl,hhandler,hid⟩
        have htr := IrcChannel.handleMsg_traces env hlistens
        have hperf : Performs c (IrcChannel.received c m t) [] t (IrcChannel.handleMsg c env m t) :=
          IrcChannel.handleMsg_performs env fun hf => hok hf.1
        dsimp only
        cases hv : IrcChannel.handleMsg c env m t with
        | error e => trivial
        | ok v =>
          rw [hv] at htr hperf
          exact ⟨ht.call hi hcmd hslot hhandler hid htr hperf,hcall k t v slot c ht hK hslot hhandler hid hv⟩
      | msgReceived =>
        obtain ⟨jobs,hshape⟩ := IrcBot.msgReceived_shape m t
        have heff := effects_of_mild (IrcBot.msgReceived_mild m t)
        have hm : ∀ c, Event.Matches () (.handleMsg c) m.command.code slot = false := fun c => by
          simp [Event.Matches,hhandler]
        change Delivering m w (k + 1) (IrcBot.msgReceived m t) ∧ K (k + 1) (IrcBot.msgReceived m t)
        rw [hshape] at heff ⊢
        exact ⟨ht.pass hslot hm heff rfl rfl rfl,hpass k t _ slot ht hK hslot hm rfl⟩
  rw [h] at hraise
  obtain ⟨l,⟨hl,hK⟩,hend⟩ := hraise
  exact ⟨l,hl,hK,hend⟩

/-- Behind the last slot of the raised event, as it was before, nothing is left to call. -/
theorem Delivering.last {k : ℕ} (h : Delivering m w k w') (hend : w'.server.msgReceived.handlers[k]? = none) (c : ChanId) :
    w.server.msgReceived.countFrom k () (.handleMsg c) m.command.code = 0 := by
  rw [show w'.server.msgReceived = w.server.msgReceived from congrArg Roster.msgReceived h.roster] at hend
  exact Event.countFrom_end hend _ _ _

theorem raiseMsgReceived_delivers {env : Env} (hi : ChannelInv w) (hcmd : m.command ∈ IrcChannel.msgCommands)
    (hok : m.command ≠ .ERR_NOSUCHCHANNEL) (h : IrcServer.raiseMsgReceived env m w = .ok w') : Delivered m w w' := by
  obtain ⟨l,hl,-,hend⟩ := raiseMsgReceived_spec (K := fun _ _ => True) hi hcmd hok (fun _ _ _ _ _ _ _ _ _ => trivial)
    (fun _ _ _ _ _ _ _ _ _ _ _ => trivial) trivial h
  have hsame := same_of_effects hl.effects
  refine ⟨hl.roster,hl.commands,fun c => ?_,hsame.connst,hsame.nick,hi.effects hl.effects⟩
  rw [hl.state,if_pos (hl.last hend c)]

namespace Delivered

theorem charted (h : Delivered m w w') (hc : Charted w) : Charted w' := by
  refine hc.keeps h.inv h.roster fun c hle => ?_
  have hno : ¬ w.Has c := fun hs => Nat.not_lt.mpr hle (hc.lt_of_has hs)
  rw [h.state,IrcChannel.delivered,if_neg hno]
  rfl

end Delivered

/-- The server leaves the message to the channels: it is none of its own, or it tells of a join of
a channel that exists. -/
def ForChannels (m : IrcMessage) (w : World) : Prop :=
  m.command ∈ [.MSG_PART,.MSG_QUIT,.MSG_KICK,.RPL_NAMREPLY,.RPL_ENDOFNAMES] ∨
    (m.command = .MSG_JOIN ∧ m.msgPrefix.isSome ∧ ∃ name, m.params[0]? = some name ∧
      (w.server.channels.get name).isSome)

theorem ForChannels.command (h : ForChannels m w) :
    m.command ∈ IrcChannel.msgCommands ∧ m.command ≠ .ERR_NOSUCHCHANNEL := by
  rcases h with h | ⟨h,_⟩
  · simp only [List.mem_cons,List.not_mem_nil,or_false] at h
    rcases h with h | h | h | h | h <;> exact h ▸ (by decide)
  · exact h ▸ (by decide)

theorem ForChannels.handleCommand (h : ForChannels m w) : IrcServer.handleCommand m w = .ok w := by
  rcases h with h | ⟨hc,hp,name,hname,hget⟩
  · simp only [List.mem_cons,List.not_mem_nil,or_false] at h
    rcases h with h | h | h | h | h <;> simp [IrcServer.handleCommand,h]
  · obtain ⟨msgPrefix,he⟩ := Option.isSome_iff_exists.mp hp
    obtain ⟨chan,hchan⟩ := Option.isSome_iff_exists.mp hget
    obtain ⟨hlen,_⟩ := List.getElem?_eq_some_iff.mp hname
    simp only [IrcServer.handleCommand,hc,IrcServer.handleJoin,if_pos (Nat.ne_of_gt hlen),IrcServer.ownPrefix,he,
      hname,World.deref,bind,Except.bind,pure,Except.pure,hchan]
    split <;> rfl

theorem Charted.logged (hc : Charted w) (m : IrcMessage) : Charted (IrcServer.logMessage m w) :=
  hc.congr ⟨{ hc.toLinked with },{ hc.toOwned with },hc.listening⟩ rfl rfl rfl rfl rfl rfl

/-- The channels are called in the state that the server leaves behind. -/
theorem handleMessage_raises {env : Env} (ht : IrcServer.handleCommand m (IrcServer.logMessage m w) = .ok t) :
    IrcServer.handleMessage env m w = IrcServer.raiseMsgReceived env m t := by
  change (IrcServer.handleCommand m (IrcServer.logMessage m w) >>= _) = _
  rw [ht]
  rfl

end LibIrcBot
