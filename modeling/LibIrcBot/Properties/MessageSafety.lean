import LibIrcBot.Properties.ChannelOwnership

/-! # Missing parts of a message

A message may come without a prefix, without raw parameters and with any number of
parameters. Which of them the handlers read without a check depends on the command and
on the channels of the server.
-/
namespace LibIrcBot
open CString Effects Relation Outcome

variable {w w' : World}

/-- A part of the message is missing that is read without a check. -/
def ReadsNull (m : IrcMessage) (w : World) : Prop :=
  (m.command = .MSG_PING ∧ m.rawParams = none) ∨
  (m.msgPrefix = none ∧
    (((m.command = .MSG_NICK ∨ m.command = .MSG_JOIN) ∧ m.params ≠ []) ∨
      (m.command = .MSG_PART ∧ ∃ name ∈ m.params[0]?, (w.server.channels.get name).isSome) ∨
      (m.command = .MSG_QUIT ∧ ∃ name, (w.server.channels.get name).isSome)))

theorem IrcServer.SendFault.ne_nullString {f : Fault} (h : IrcServer.SendFault w f) : f ≠ .nullString := by
  rcases h with rfl | ⟨rfl,_⟩ | ⟨rfl,_⟩ <;> exact nofun

namespace IrcServer
variable {m : IrcMessage} {e : Fault × World} (env : Env)

theorem sendRawCmd_null {cmd : IrcCommand} {args : Bytes} (hcmd : cmd.str.isSome)
    (h : sendRawCmd cmd (some args) w = .error e) : e.1 ≠ .nullString := by
  have hs := sendRawCmd_spec hcmd args w
  rw [h] at hs
  exact hs.2.ne_nullString

theorem raiseConnected_null (hst : 0 < w.server.connst) (h : raiseConnected w = .error e) : e.1 ≠ .nullString := by
  have hr : Traces none w (raiseConnected w) := raiseConnected_traces hst
  rw [h] at hr
  obtain ⟨_,_,hf⟩ := hr
  cases hf with
  | send _ cmd args hcmd _ hs => exact sendRawCmd_null hcmd hs
  | noPrefix self m' hm => cases hm
  | freedName self m' hm => cases hm

/-- An own nick or channel is compared with the prefix, and with nothing else that may be missing. -/
theorem handleNick_null (h : handleNick m w = .error e) : m.params ≠ [] ∧ m.msgPrefix = none := by
  unfold handleNick at h
  split at h
  · next hlen =>
    rcases ownPrefix_cases m w with ⟨hp,_⟩ | ⟨own,ho⟩
    · exact ⟨fun hn => hlen (by rw [hn]; rfl),hp⟩
    · rw [ho,deref_get (by omega)] at h
      dsimp only [bind,Except.bind] at h
      split at h <;> cases h
  · cases h

theorem handleJoin_null (h : handleJoin m w = .error e) : m.params ≠ [] ∧ m.msgPrefix = none := by
  unfold handleJoin at h
  split at h
  · next hlen =>
    rcases ownPrefix_cases m w with ⟨hp,_⟩ | ⟨own,ho⟩
    · exact ⟨fun hn => hlen (by rw [hn]; rfl),hp⟩
    · rw [ho,deref_get (by omega)] at h
      dsimp only [bind,Except.bind] at h
      split at h
      · split at h <;> cases h
      · cases h
  · cases h

theorem handleCommand_null (h : handleCommand m w = .error e) (he : e.1 = .nullString) : ReadsNull m w := by
  unfold handleCommand at h
  split at h
  · unfold handleMyinfo at h
    split at h
    · exact absurd he (raiseConnected_null (by exact (by decide : (0 : ℤ) < 1)) h)
    · cases h
  · exact absurd he (sendRawCmd_null rfl h)
  · next hc =>
    cases hraw : m.rawParams with
    | none => exact Or.inl ⟨hc,hraw⟩
    | some args =>
      rw [hraw] at h
      exact absurd he (sendRawCmd_null rfl h)
  · next hc =>
    obtain ⟨hne,hp⟩ := handleNick_null h
    exact Or.inr ⟨hp,Or.inl ⟨Or.inl hc,hne⟩⟩
  · next hc =>
    obtain ⟨hne,hp⟩ := handleJoin_null h
    exact Or.inr ⟨hp,Or.inl ⟨Or.inr hc,hne⟩⟩
  · cases h

/-- A handler of the event meets no null string but a missing prefix. -/
theorem raiseMsgReceived_null (h : raiseMsgReceived env m w = .error e) (he : e.1 = .nullString) :
    m.msgPrefix = none ∧ ∃ t self, ReflTransGen Effect w t ∧
      0 < t.server.msgReceived.count () (.handleMsg self) m.command.code ∧ ReadsPrefix self m t := by
  have hr := raiseMsgReceived_traces env m w
  rw [h] at hr
  obtain ⟨t,ht,hf⟩ := hr
  cases hf with
  | send _ cmd args hcmd _ hs => exact absurd he (sendRawCmd_null hcmd hs)
  | noPrefix self m' hm hp hl hr =>
    obtain rfl : m = m' := Option.some.inj hm
    exact ⟨hp,t,self,ht,hl,hr⟩
  | freedName => cases he

/-- A channel that still listens after some effects was in the table before. -/
theorem listed_of_effects (hi : ChannelInv w) {t : World} (ht : ReflTransGen Effect w t) {self : ChanId}
    (hcmd : m.command ∈ IrcChannel.msgCommands)
    (hl : 0 < t.server.msgReceived.count () (.handleMsg self) m.command.code) :
    w.server.channels.get (t.chans self).name = some self := by
  have hlisten := (hi.effects ht).listening
  rw [hlisten self _ hcmd] at hl
  refine hi.get_of_effects ht ?_
  by_contra hn
  rw [if_neg hn] at hl
  cases hl

/-- A channel that faults on a message ends its event with that fault, when all others
either do nothing or fault, too. -/
theorem raiseMsgReceived_faults (hi : ChannelInv w) {f : Fault} {name : Bytes} {chan : ChanId}
    (hget : w.server.channels.get name = some chan) (hcmd : m.command ∈ IrcChannel.msgCommands)
    (hother : ∀ self jobs, IrcChannel.Listens self m w →
      IrcChannel.handleMsg self env m { w with bot.jobs := jobs } = .ok { w with bot.jobs := jobs } ∨
        ∃ t, IrcChannel.handleMsg self env m { w with bot.jobs := jobs } = .error (f,t))
    (hfault : ∀ jobs, ∃ t, IrcChannel.handleMsg chan env m { w with bot.jobs := jobs } = .error (f,t)) :
    ∃ e, raiseMsgReceived env m w = .error e ∧ e.1 = f := by
  have hcount : 0 < w.server.msgReceived.count () (.handleMsg chan) m.command.code := by
    rw [hi.listening chan _ hcmd,(hi.toLinked.name_of_get hget).2,if_pos hget]
    exact Nat.one_pos
  obtain ⟨slot,hmem,_,hh,hid⟩ := Event.count_pos_iff.mp hcount
  obtain ⟨j,hj,hslot⟩ := List.getElem_of_mem hmem
  refine Event.raiseFrom_faults (e := w.server.msgReceived) (P := fun e : Fault × World => e.1 = f)
    (I := fun t : World => ∃ jobs, t = { w with bot.jobs := jobs }) ?_ ?_
    (List.getElem?_eq_some_iff.mpr ⟨hj,hslot⟩) hh hid ?_ (Nat.zero_le j) (by simpa using hj) ⟨w.bot.jobs,rfl⟩
  · rintro _ ⟨_,rfl⟩
    rfl
  · rintro t ⟨jobs,rfl⟩ s hs handler hhandler hsid
    cases handler with
    | handleMsg self =>
      rcases hother self jobs (Event.count_pos_iff.mpr ⟨s,hs,rfl,hhandler,hsid⟩) with h | ⟨_,h⟩
      · exact Or.inl ⟨_,h,jobs,rfl⟩
      · exact Or.inr ⟨_,h,rfl⟩
    | msgReceived =>
      obtain ⟨jobs',h⟩ := IrcBot.msgReceived_shape m { w with bot.jobs := jobs }
      exact Or.inl ⟨_,congrArg Except.ok h,jobs',rfl⟩
  · rintro t ⟨jobs,rfl⟩
    obtain ⟨u,h⟩ := hfault jobs
    exact ⟨_,h,rfl⟩

end IrcServer

namespace IrcChannel
variable {m : IrcMessage} {self : ChanId} (env : Env)

theorem scanNick_null (hp : m.msgPrefix = none) (w : World) : scanNick env m w = .error (.nullString,w) := by
  rcases scanNick_cases env m w with ⟨_,h⟩ | ⟨_,h⟩
  · exact h
  · rw [scanNick,hp] at h
    cases h

theorem handleQuit_null (hp : m.msgPrefix = none) (w : World) :
    handleQuit self env m w = .error (.nullString,w) := by
  rw [handleQuit,scanNick_null env hp]
  rfl

theorem handlePart_null (hp : m.msgPrefix = none) {name : Bytes} (hname : m.params[0]? = some name) (w : World) :
    handlePart self env m w = if name = (w.chans self).name then .error (.nullString,w) else .ok w := by
  have hlen : m.params.length ≠ 0 := fun h => by
    rw [List.length_eq_zero_iff.mp h] at hname
    cases hname
  rw [handlePart,if_pos hlen,hname]
  change (if name = (w.chans self).name then _ else _) = _
  rw [handleQuit_null env hp]
  rfl

end IrcChannel

namespace IrcServer
variable {m : IrcMessage} (env : Env)

theorem handleMessage_missing (hi : ChannelInv w) (h : ReadsNull m w) :
    ∃ e, handleMessage env m w = .error e ∧ e.1 = .nullString := by
  have hlog : ChannelInv (logMessage m w) := hi.received (.message w m)
  change ∃ e, (handleCommand m (logMessage m w) >>= raiseMsgReceived env m) = .error e ∧ _
  rcases h with ⟨hc,hraw⟩ | ⟨hp,⟨hc | hc,hne⟩ | ⟨hc,name,hname,hsome⟩ | ⟨hc,name,hsome⟩⟩
  · refine ⟨(.nullString,logMessage m w),?_,rfl⟩
    rw [handleCommand,hc,hraw]
    rfl
  · have hown : ownPrefix m (logMessage m w) = .error (.nullString,logMessage m w) := by rw [ownPrefix,hp]; rfl
    refine ⟨(.nullString,logMessage m w),?_,rfl⟩
    rw [handleCommand,hc]
    dsimp only
    rw [handleNick,if_pos (fun h => hne (List.length_eq_zero_iff.mp h)),hown]
    rfl
  · have hown : ownPrefix m (logMessage m w) = .error (.nullString,logMessage m w) := by rw [ownPrefix,hp]; rfl
    refine ⟨(.nullString,logMessage m w),?_,rfl⟩
    rw [handleCommand,hc]
    dsimp only
    rw [handleJoin,if_pos (fun h => hne (List.length_eq_zero_iff.mp h)),hown]
    rfl
  · obtain ⟨chan,hget⟩ := Option.isSome_iff_exists.mp hsome
    have hmsg : ∀ self t, IrcChannel.handleMsg self env m t =
        if name = (t.chans self).name then .error (.nullString,t) else .ok t := by
      intro self t
      rw [IrcChannel.handleMsg,hc]
      exact IrcChannel.handlePart_null env hp hname t
    rw [handleCommand,hc]
    refine raiseMsgReceived_faults env hlog hget (by rw [hc]; decide) (fun self jobs _ => ?_) (fun jobs => ?_)
    · rw [hmsg]
      split
      · exact Or.inr ⟨_,rfl⟩
      · exact Or.inl rfl
    · rw [hmsg,if_pos (hlog.toLinked.name_of_get hget).2.symm]
      exact ⟨_,rfl⟩
  · obtain ⟨chan,hget⟩ := Option.isSome_iff_exists.mp hsome
    have hmsg : ∀ self t, IrcChannel.handleMsg self env m t = .error (.nullString,t) := by
      intro self t
      rw [IrcChannel.handleMsg,hc]
      exact IrcChannel.handleQuit_null env hp t
    rw [handleCommand,hc]
    exact raiseMsgReceived_faults env hlog hget (by rw [hc]; decide) (fun self _ _ => Or.inr ⟨_,hmsg self _⟩)
      (fun _ => ⟨_,hmsg chan _⟩)

theorem handleMessage_null {e : Fault × World} (hi : ChannelInv w) (h : handleMessage env m w = .error e)
    (he : e.1 = .nullString) : ReadsNull m w := by
  have hlog : ChannelInv (logMessage m w) := hi.received (.message w m)
  change (handleCommand m (logMessage m w) >>= raiseMsgReceived env m) = .error e at h
  cases hc : handleCommand m (logMessage m w) with
  | error f =>
    rw [hc] at h
    cases h
    have hnull := handleCommand_null hc he
    exact hnull
  | ok t =>
    rw [hc] at h
    obtain ⟨hp,u,self,hu,hl,hr⟩ := raiseMsgReceived_null env h he
    have hlisted : (m.command = .MSG_PART ∨ m.command = .MSG_QUIT) →
        w.server.channels.get (u.chans self).name = some self := by
      intro hcmd
      have ht : t = logMessage m w := by
        rcases hcmd with hcmd | hcmd
        all_goals
          rw [handleCommand,hcmd] at hc
          exact (Except.ok.inj hc).symm
      rw [ht] at hu
      refine listed_of_effects hlog hu ?_ hl
      rcases hcmd with hcmd | hcmd <;> rw [hcmd] <;> decide
    refine Or.inr ⟨hp,?_⟩
    rcases hr with ⟨hcmd | hcmd,hget⟩ | hcmd | ⟨hcmd,hlen⟩
    · exact Or.inl ⟨Or.inr hcmd,fun hn => by rw [hn] at hget; cases hget⟩
    · exact Or.inr (Or.inl ⟨hcmd,_,hget,by rw [hlisted (Or.inl hcmd)]; rfl⟩)
    · exact Or.inr (Or.inr ⟨hcmd,_,by rw [hlisted (Or.inr hcmd)]; rfl⟩)
    · exact Or.inl ⟨Or.inl hcmd,fun hn => by rw [hn] at hlen; cases hlen⟩

end IrcServer

/-- In every state while data is received, and for every message: no null string is met
exactly if no part is missing that is read without a check. -/
theorem message_safe_iff (h : w.Reachable) {t : World} (ht : ReflTransGen Received w t) (env : Env) (m : IrcMessage) :
    (∀ e, IrcServer.handleMessage env m t = .error e → e.1 ≠ .nullString) ↔ ¬ ReadsNull m t := by
  have hi := Effects.invariant (I := ChannelInv) (fun _ _ hu hs => hu.received hs) h.channelInv ht
  constructor
  · intro hsafe hnull
    obtain ⟨e,he,hn⟩ := IrcServer.handleMessage_missing env hi hnull
    exact hsafe e he hn
  · intro hno e he hn
    exact hno (IrcServer.handleMessage_null env hi he hn)

/-- A `QUIT` without a prefix, to a server with a channel. -/
theorem message_safe_iff_joined : ¬ ∀ e, IrcServer.handleMessage .failing
    ⟨none,lit "QUIT",none,[],.MSG_QUIT⟩ World.joined = .error e → e.1 ≠ .nullString := by
  have hr : World.joined.Reachable := World.after_reachable World.loggedIn_reachable (by decide +kernel)
  have hnull : ReadsNull ⟨none,lit "QUIT",none,[],.MSG_QUIT⟩ World.joined :=
    Or.inr ⟨rfl,Or.inr (Or.inr ⟨rfl,lit "#c",by decide +kernel⟩)⟩
  exact fun h => (message_safe_iff hr .refl .failing _).mp h hnull

def World.readable : World := after (Label.iteration (.io [] [3]) 1 0 .failing) connected

/-- A `PING` without parameters is answered with a null string. -/
theorem readable_nullString : World.readable.Reachable ∧ ∃ e,
    World.step (.next (.delivering ⟨lit "PING\x0d\n",by decide,by decide⟩)) World.readable = .error e ∧
      e.1 = .nullString :=
  ⟨World.after_reachable World.connected_reachable (by decide +kernel),World.fault_eq (by decide +kernel)⟩

end LibIrcBot
