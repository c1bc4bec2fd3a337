import LibIrcBot.System.Effects

/-! # Channels as sequences of effects

Each function of a channel is traced by elementary effects, through the events it raises.
A channel that handles a message may fault only on a missing prefix, or when it sends.
-/
namespace LibIrcBot
open CString Effects Relation Outcome

variable {msg : Option IrcMessage} {w : World}

theorem deref_get {l : List Bytes} {i : ℕ} (h : i < l.length) (w : World) : w.deref l[i]? = .ok l[i] := by
  rw [List.getElem?_eq_getElem h]
  rfl

theorem sendRawCmd_mild (cmd : IrcCommand) (hcmd : cmd.str.isSome) (hst : 0 < w.server.connst) (args : Bytes) :
    MildTraces msg w (IrcServer.sendRawCmd cmd (some args) w) := by
  cases h : IrcServer.sendRawCmd cmd (some args) w with
  | ok w' => exact .pure (.single (.send w w' cmd args hcmd hst h))
  | error e => exact .fault (.send w e cmd args hcmd hst h)

theorem sendCmd_loggedOut (cmd : IrcCommand) (args : Bytes) (hst : w.server.connst ≤ 0) :
    IrcServer.sendCmd cmd args w = .ok (-1,w) := by
  rw [IrcServer.sendCmd,if_pos hst]

theorem sendCmd_loggedIn (cmd : IrcCommand) (args : Bytes) (hst : 0 < w.server.connst) :
    IrcServer.sendCmd cmd args w = (IrcServer.sendRawCmd cmd (some args) w >>= fun w => pure (0,w)) := by
  rw [IrcServer.sendCmd,if_neg (by omega)]

theorem sendCmd_mild (cmd : IrcCommand) (hcmd : cmd.str.isSome) (args : Bytes) :
    Traced Mild (EffectFault msg) w Prod.snd (IrcServer.sendCmd cmd args w) := by
  by_cases hst : w.server.connst ≤ 0
  · rw [sendCmd_loggedOut cmd args hst]
    exact .pure .refl
  · have hst : 0 < w.server.connst := by omega
    rw [sendCmd_loggedIn cmd args hst]
    exact (sendRawCmd_mild cmd hcmd hst args).bind (fun _ _ => .pure .refl)

namespace IrcServer

theorem chanJoined_mild (chan : ChanId) (w : World) : MildTraces msg w (chanJoined chan w) := by
  refine raise_traced ?_ ?_
  · intro t _ _ _ _ _ _
    exact .pure (IrcBot.chanJoined_mild chan t)
  · intro t u _ h
    exact Nat.le_of_eq (congrArg Event.size h.effect.same.joined)

theorem chanParted_mild (chan : ChanId) (w : World) : MildTraces msg w (chanParted chan w) := by
  refine raise_traced ?_ ?_
  · intro _ _ _ _ h _ _
    exact h.elim
  · intro t u _ h
    exact Nat.le_of_eq (congrArg Event.size h.effect.same.parted)

end IrcServer

namespace IrcChannel
variable {self : ChanId}

theorem raiseJoined_mild (self : ChanId) (w : World) : MildTraces msg w (raiseJoined self w) := by
  refine raise_traced ?_ ?_
  · intro t _ _ _ _ _ _
    exact IrcServer.chanJoined_mild self t
  · intro t u _ h
    exact Nat.le_of_eq (h.effect.shrinks.joined self)

theorem raiseParted_mild (self : ChanId) (w : World) : MildTraces msg w (raiseParted self w) := by
  refine raise_traced ?_ ?_
  · intro t _ _ _ _ _ _
    exact IrcServer.chanParted_mild self t
  · intro t u _ h
    exact Nat.le_of_eq (h.effect.shrinks.parted self)

/-- An event on which only the bot listens: raising it starts jobs. -/
theorem raise_jobs {η : Type} {event : World → Listeners η} {call : η → World → Run} {i : ℤ}
    (hcall : ∀ h t, ∃ jobs, call h t = .ok { t with bot.jobs := jobs })
    (hevent : ∀ t jobs, event { t with bot.jobs := jobs } = event t) : MildTraces msg w (w.raise event call i) := by
  have hj : Traced (fun t u => ∃ jobs, u = { t with bot.jobs := jobs }) (EffectFault msg) w id
      (w.raise event call i) := by
    refine raise_traced ?_ ?_
    · intro t _ _ _ h _ _
      obtain ⟨jobs,hc⟩ := hcall h t
      rw [hc]
      exact .pure (.single ⟨jobs,rfl⟩)
    · rintro t _ _ ⟨jobs,rfl⟩
      rw [hevent]
  refine hj.mono ?_ (fun _ _ h => h)
  rintro t _ ⟨jobs,rfl⟩
  exact .job t jobs

theorem raiseEntered_mild (self : ChanId) (nick : Bytes) (w : World) : MildTraces msg w (raiseEntered self nick w) := by
  refine raise_jobs (fun _ t => ?_) (fun _ _ => rfl)
  obtain ⟨jobs,h⟩ := IrcBot.dispatch_shape _ _ t
  exact ⟨jobs,congrArg Except.ok h⟩

theorem raiseLeft_mild (self : ChanId) (nick : Bytes) (w : World) : MildTraces msg w (raiseLeft self nick w) := by
  refine raise_jobs (fun _ t => ?_) (fun _ _ => rfl)
  obtain ⟨jobs,h⟩ := IrcBot.dispatch_shape _ _ t
  exact ⟨jobs,congrArg Except.ok h⟩

theorem removed_of_effects {t : World} (h : ReflTransGen Effect w t) (hr : self ∈ w.ghost.removed) :
    self ∈ t.ghost.removed := by
  refine Effects.invariant (I := fun u => self ∈ u.ghost.removed) ?_ hr h
  intro u v hu huv
  cases huv with
  | send _ cmd args hcmd _ hs =>
    obtain ⟨_,_,_,_,_,_,_,_,_,_,_,_,rfl⟩ := sendRawCmd_outputs hcmd hs
    exact hu
  | remove c _ =>
    obtain ⟨_,_,he⟩ := remove_shape (u.chans c).name c u
    rw [he]
    exact hu
  | removed c => exact List.mem_append_left _ hu
  | _ => exact hu

theorem unregisterChannel_mild (chan : ChanId) (w : World) :
    ReflTransGen Mild w (IrcServer.unregisterChannel chan w) := by
  refine .single (.chan w chan _ ?_)
  constructor <;> intro c <;> simp

/-- The name of the channel is read when the channel has been destroyed. -/
theorem chanFailed_faults (chan : ChanId) (w : World) : IrcServer.chanFailed chan w =
    .error (.wildPointer,destroy chan (IrcServer.unregisterChannel chan w)) := by
  have hmem : chan ∈ (destroy chan (IrcServer.unregisterChannel chan w)).ghost.destroyed :=
    List.mem_append_right _ (List.mem_singleton_self chan)
  unfold IrcServer.chanFailed IrcServer.readName
  dsimp only
  rw [if_pos hmem]
  rfl

theorem raiseFailed_mild {m : IrcMessage} (hcmd : m.command = .ERR_NOSUCHCHANNEL) (w : World) :
    MildTraces (some m) w (raiseFailed self w) := by
  refine raise_traced ?_ ?_
  · intro t _ _ _ _ _ _
    rw [chanFailed_faults]
    exact .fault (.freedName t self m rfl hcmd)
  · intro t u _ h
    exact Nat.le_of_eq (h.effect.shrinks.failed self)

/-- Changes of a channel that touch none of its events. -/
theorem setChan_mild (w : World) (self : ChanId) (f : IrcChannel → IrcChannel)
    (hf : ∀ c, (f c).name = c.name ∧ (f c).joined = c.joined ∧ (f c).parted = c.parted ∧ (f c).failed = c.failed) :
    Mild w (w.setChan self f) := by
  refine .chan w self f ⟨fun c => (hf c).1,fun c => ?_,fun c => ?_,fun c => ?_⟩
  · rw [(hf c).2.1]
  · rw [(hf c).2.2.1]
  · rw [(hf c).2.2.2]

theorem join_mild (self : ChanId) (w : World) : MildTraces msg w (join self w) := by
  unfold join
  split
  · exact .pure .refl
  · refine .step (setChan_mild _ self (fun c => { c with wantJoined := true })
      (fun _ => ⟨rfl,rfl,rfl,rfl⟩)) ?_
    generalize w.setChan self (fun c => { c with wantJoined := true }) = w
    dsimp only
    by_cases hst : w.server.connst ≤ 0
    · rw [sendCmd_loggedOut _ _ hst]
      exact .pure (.single (.connectedRegister w self hst))
    · have hst : 0 < w.server.connst := by omega
      rw [sendCmd_loggedIn _ _ hst,bind_assoc]
      refine (sendRawCmd_mild .MSG_JOIN rfl hst _).bind (fun t ht => ?_)
      have hst' : 0 < t.server.connst := lt_of_lt_of_eq hst (connst_of_effects (effects_of_mild ht)).symm
      refine .pure (.head (setChan_mild _ self (fun c => { c with joinsyncticks := JOINSYNCTICKS })
        (fun _ => ⟨rfl,rfl,rfl,rfl⟩)) ?_)
      refine .head (.tickRegister _ (.waitjoin self) trivial) ?_
      exact .single (.disconnectedRegister _ self hst')

theorem unregisterTimers_mild (self : ChanId) (w : World) : ReflTransGen Mild w (unregisterTimers self w) := by
  refine .head (.connectedUnregister w self) ?_
  refine .head (.tickUnregister _ (.waitjoin self) trivial) ?_
  refine .head (.tickUnregister _ (.waitrejoin self) trivial) ?_
  exact .single (.disconnectedUnregister _ self)

theorem part_mild (self : ChanId) (w : World) : MildTraces msg w (part self w) := by
  unfold part
  refine .step (setChan_mild _ self (fun c => { c with wantJoined := false })
    (fun _ => ⟨rfl,rfl,rfl,rfl⟩)) ?_
  refine .after (unregisterTimers_mild self _) ?_
  dsimp only
  split
  · refine (sendCmd_mild .MSG_PART rfl _).bind (fun r _ => ?_)
    refine .step (setChan_mild _ self (fun c => { c with isJoined := false })
      (fun _ => ⟨rfl,rfl,rfl,rfl⟩)) ?_
    exact raiseParted_mild self _
  · exact .pure .refl

theorem joinOnConnect_mild (self : ChanId) (w : World) : MildTraces msg w (joinOnConnect self w) := by
  refine .step (.connectedUnregister w self) ?_
  refine .step (setChan_mild _ self (fun c => { c with wantJoined := false })
    (fun _ => ⟨rfl,rfl,rfl,rfl⟩)) ?_
  exact join_mild self _

theorem disconnected_mild (self : ChanId) (hst : w.server.connst ≤ 0) : MildTraces msg w (disconnected self w) := by
  refine .after (unregisterTimers_mild self w) ?_
  have hst : (unregisterTimers self w).server.connst ≤ 0 := hst
  unfold disconnected
  dsimp only
  generalize unregisterTimers self w = w at hst
  have hlast : ∀ t, MildTraces msg t (if (t.chans self).isJoined then
      raiseParted self (t.setChan self fun c => { c with isJoined := false }) else .ok t) := by
    intro t
    split
    · refine .step (setChan_mild _ self (fun c => { c with isJoined := false })
        (fun _ => ⟨rfl,rfl,rfl,rfl⟩)) ?_
      exact raiseParted_mild self _
    · exact .pure .refl
  split
  · exact .step (.connectedRegister w self hst) (hlast _)
  · exact hlast w

theorem waitjoin_mild (self : ChanId) (w : World) : MildTraces msg w (waitjoin self w) := by
  refine .step (setChan_mild _ self (fun c => { c with joinsyncticks := c.joinsyncticks - 1 })
    (fun _ => ⟨rfl,rfl,rfl,rfl⟩)) ?_
  unfold waitjoin
  dsimp only
  split
  · refine (sendCmd_mild .MSG_PART rfl _).bind (fun r _ => ?_)
    refine .pure (.head (.tickUnregister _ (.waitjoin self) trivial) ?_)
    refine .head (setChan_mild _ self (fun c => { c with rejointicks := REJOINTICKS })
      (fun _ => ⟨rfl,rfl,rfl,rfl⟩)) ?_
    exact .single (.tickRegister _ (.waitrejoin self) trivial)
  · exact .pure .refl

theorem waitrejoin_mild (self : ChanId) (w : World) : MildTraces msg w (waitrejoin self w) := by
  refine .step (setChan_mild _ self (fun c => { c with rejointicks := c.rejointicks - 1 })
    (fun _ => ⟨rfl,rfl,rfl,rfl⟩)) ?_
  unfold waitrejoin
  dsimp only
  split
  · refine .step (.tickUnregister _ (.waitrejoin self) trivial) ?_
    refine .step (setChan_mild _ self (fun c => { c with wantJoined := false })
      (fun _ => ⟨rfl,rfl,rfl,rfl⟩)) ?_
    exact join_mild self _
  · exact .pure .refl

section Messages
variable {m : IrcMessage} (env : Env)

theorem scanNick_cases (m : IrcMessage) (w : World) :
    (m.msgPrefix = none ∧ scanNick env m w = .error (.nullString,w)) ∨ ∃ nick, scanNick env m w = .ok nick := by
  unfold scanNick
  cases m.msgPrefix with
  | none => exact Or.inl ⟨rfl,rfl⟩
  | some p => exact Or.inr ⟨_,rfl⟩

theorem setNick_mild (self : ChanId) (nick : Bytes) (w : World) : Mild w (setNick self nick w) :=
  setChan_mild _ _ _ (fun _ => ⟨rfl,rfl,rfl,rfl⟩)

theorem deleteNick_mild (self : ChanId) (nick : Bytes) (w : World) : Mild w (deleteNick self nick w).2 :=
  setChan_mild _ self (fun c => { c with nicks := (c.nicks.delete nick).2.2 }) (fun _ => ⟨rfl,rfl,rfl,rfl⟩)

def Listens (self : ChanId) (m : IrcMessage) (w : World) : Prop :=
  0 < w.server.msgReceived.count () (.handleMsg self) m.command.code

/-- Reading the nick of the sender, which needs a prefix. -/
theorem scanNick_mild {k : Bytes → Run} (hl : Listens self m w) (hr : ReadsPrefix self m w)
    (hk : ∀ nick, MildTraces (some m) w (k nick)) : MildTraces (some m) w (scanNick env m w >>= k) := by
  rcases scanNick_cases env m w with ⟨hp,h⟩ | ⟨nick,h⟩
  · rw [h]
    exact .fault (.noPrefix w self m rfl hp hl hr)
  · rw [h]
    exact hk nick

theorem handleJoin_mild (hc : m.command = .MSG_JOIN) (hl : Listens self m w) :
    MildTraces (some m) w (handleJoin self env m w) := by
  unfold handleJoin
  split
  · next hlen =>
    rw [deref_get (by omega)]
    dsimp only [bind,Except.bind]
    split
    · next hname =>
      have hget : m.params[0]? = some (w.chans self).name := by
        rw [List.getElem?_eq_getElem (by omega),hname]
      refine scanNick_mild env hl (Or.inl ⟨Or.inl hc,hget⟩) (fun nick => ?_)
      split
      · exact .step (setNick_mild self nick w) (raiseEntered_mild self nick _)
      · exact .pure .refl
    · exact .pure .refl
  · exact .pure .refl

theorem handleQuit_mild (hl : Listens self m w) (hr : ReadsPrefix self m w) :
    MildTraces (some m) w (handleQuit self env m w) := by
  refine scanNick_mild env hl hr (fun nick => .step (deleteNick_mild self nick w) ?_)
  dsimp only
  split
  · exact raiseLeft_mild self nick _
  · exact .pure .refl

theorem handlePart_mild (hc : m.command = .MSG_PART) (hl : Listens self m w) :
    MildTraces (some m) w (handlePart self env m w) := by
  unfold handlePart
  split
  · next hlen =>
    rw [deref_get (by omega)]
    dsimp only [bind,Except.bind]
    split
    · next hname =>
      have hget : m.params[0]? = some (w.chans self).name := by
        rw [List.getElem?_eq_getElem (by omega),hname]
      exact handleQuit_mild env hl (Or.inl ⟨Or.inr hc,hget⟩)
    · exact .pure .refl
  · exact .pure .refl

theorem handleNick_mild (hc : m.command = .MSG_NICK) (hl : Listens self m w) :
    MildTraces (some m) w (handleNick self env m w) := by
  unfold handleNick
  split
  · next hlen =>
    refine scanNick_mild env hl (Or.inr (Or.inr ⟨hc,hlen⟩)) (fun nick => .step (deleteNick_mild self nick w) ?_)
    dsimp only
    split
    · rw [deref_get (by omega)]
      exact .pure (.single (setNick_mild self _ _))
    · exact .pure .refl
  · exact .pure .refl

theorem handleKick_mild (m : IrcMessage) (w : World) : MildTraces msg w (handleKick self m w) := by
  unfold handleKick
  split
  · next hlen =>
    rw [deref_get (by omega),deref_get (by omega)]
    dsimp only [bind,Except.bind]
    split
    · split
      · refine .step (setChan_mild _ self (fun c => { c with isJoined := false })
          (fun _ => ⟨rfl,rfl,rfl,rfl⟩)) ?_
        split
        · refine .step (setChan_mild _ self (fun c => { c with rejointicks := REJOINTICKS })
            (fun _ => ⟨rfl,rfl,rfl,rfl⟩)) ?_
          exact .step (.tickRegister _ (.waitrejoin self) trivial) (raiseParted_mild self _)
        · exact raiseParted_mild self _
      · refine .step (deleteNick_mild self m.params[1] w) ?_
        split
        · exact raiseLeft_mild self _ _
        · exact .pure .refl
    · exact .pure .refl
  · exact .pure .refl

theorem listNicks_mild (self : ChanId) (ws : List Bytes) (w : World) : ReflTransGen Mild w (ws.foldl
    (fun w word =>
      match listedNick w.server.nick word with
      | some nick => setNick self nick w
      | none => w) w) := by
  induction ws generalizing w with
  | nil => exact .refl
  | cons word ws ih =>
    rw [List.foldl_cons]
    split
    · exact .head (setNick_mild self _ w) (ih _)
    · exact ih w

theorem handleNamreply_mild (m : IrcMessage) (w : World) : MildTraces msg w (handleNamreply self m w) := by
  unfold handleNamreply
  split
  · next hlen =>
    rw [deref_get (by omega),deref_get (by omega)]
    dsimp only [bind,Except.bind]
    split
    · exact .pure (listNicks_mild self _ w)
    · exact .pure .refl
  · exact .pure .refl

theorem handleEndofnames_mild (m : IrcMessage) (w : World) : MildTraces msg w (handleEndofnames self m w) := by
  unfold handleEndofnames
  split
  · next hlen =>
    rw [deref_get (by omega)]
    dsimp only [bind,Except.bind]
    split
    · refine .step (setChan_mild _ self (fun c => { c with isJoined := true })
        (fun _ => ⟨rfl,rfl,rfl,rfl⟩)) ?_
      refine .step (.tickUnregister _ (.waitjoin self) trivial) ?_
      exact .step (.tickUnregister _ (.waitrejoin self) trivial) (raiseJoined_mild self _)
    · exact .pure .refl
  · exact .pure .refl

theorem handleNosuchchannel_mild (hcmd : m.command = .ERR_NOSUCHCHANNEL) (w : World) :
    MildTraces (some m) w (handleNosuchchannel self m w) := by
  unfold handleNosuchchannel
  split
  · next hlen =>
    rw [deref_get (by omega)]
    dsimp only [bind,Except.bind]
    split
    · exact .after (unregisterTimers_mild self w) (.step (.removed _ self) (raiseFailed_mild hcmd _))
    · exact .pure .refl
  · exact .pure .refl

theorem handleMsg_mild (hl : Listens self m w) : MildTraces (some m) w (handleMsg self env m w) := by
  unfold handleMsg
  split
  · next hc => exact handleJoin_mild env hc hl
  · next hc => exact handlePart_mild env hc hl
  · next hc => exact handleQuit_mild env hl (Or.inr (Or.inl hc))
  · next hc => exact handleNick_mild env hc hl
  · exact handleKick_mild m w
  · exact handleNamreply_mild m w
  · exact handleEndofnames_mild m w
  · next hc => exact handleNosuchchannel_mild hc w
  · exact .pure .refl

theorem handleMsg_traces (hl : Listens self m w) : Traces (some m) w (handleMsg self env m w) :=
  (handleMsg_mild env hl).traces

end Messages

theorem join_traces (self : ChanId) (w : World) : Traces msg w (join self w) := (join_mild self w).traces

theorem part_traces (self : ChanId) (w : World) : Traces msg w (part self w) := (part_mild self w).traces

theorem joinOnConnect_traces (self : ChanId) (w : World) : Traces msg w (joinOnConnect self w) :=
  (joinOnConnect_mild self w).traces

theorem disconnected_traces (self : ChanId) (hst : w.server.connst ≤ 0) : Traces msg w (disconnected self w) :=
  (disconnected_mild self hst).traces

theorem waitjoin_traces (self : ChanId) (w : World) : Traces msg w (waitjoin self w) := (waitjoin_mild self w).traces

theorem waitrejoin_traces (self : ChanId) (w : World) : Traces msg w (waitrejoin self w) :=
  (waitrejoin_mild self w).traces

theorem raiseParted_eq (self : ChanId) (w : World) : raiseParted self w = .ok w :=
  raise_const fun _ => raise_const fun h => h.elim

/-- The callback of a channel takes itself from the event, and nothing else. -/
theorem disconnected_event {w' : World} (h : disconnected self w = .ok w') :
    w'.server.disconnected = w.server.disconnected.unregister () (.disconnected self) 0 ∧
      w'.service.shutdownRef = w.service.shutdownRef := by
  unfold disconnected at h
  dsimp only at h
  rw [raiseParted_eq] at h
  split at h <;> split at h <;> cases h <;> exact ⟨rfl,rfl⟩

end IrcChannel
end LibIrcBot
