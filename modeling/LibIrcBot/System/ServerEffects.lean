import LibIrcBot.System.Calls
import LibIrcBot.System.Commands

/-! # The server as a sequence of changes

What the server does between two changes of its connection: it handles messages, and the
application calls it. Each is a sequence of calls into channels, of commands, and of a few
changes of the server's own. With an established connection none of them meets a null pointer
for the queue or the connection.
-/
namespace LibIrcBot
open CString Effects Relation Outcome

/-- The strings that `sendRawCmd` and `IrcServer_sendMsg` format. -/
inductive IrcServer.IsCommand : Bytes → Prop where
  | raw (cmd : IrcCommand) (name args : Bytes) (h : cmd.str = some name) : IsCommand (rawCmd name args)
  | line (recipient text : Bytes) (action : Bool) (hr : recipient.length ≤ 255)
      (ht : text.length ≤ maxchunk recipient action) : IsCommand (msgLine recipient action text)

/-- The state has a connection that is established. -/
structure World.Online (w : World) : Prop where
  conn : w.server.conn.isSome
  sendQueue : w.server.sendQueue.isSome

/-- A fault other than the use of a null queue or a null connection, with the connection as it was. -/
structure Sound (w : World) (e : Fault × World) : Prop where
  same : w.SameConn e.2
  queue : e.1 ≠ .nullQueue
  conn : e.1 ≠ .nullConn
  fuel : e.1 ≠ .outOfFuel

/-- One change of the state while the connection stays as it is. -/
inductive Change : World → World → Prop where
  | call {w w' : World} {l : Call} (h : Does l w w') : Change w w'
  | send (w w' : World) (command : Option Bytes) (hc : ∀ c ∈ command, IrcServer.IsCommand c)
      (h : IrcServer.sendRaw command w = .ok w') : Change w w'
  | login (w : World) (name : Option Bytes) (hw : w.Online) : Change w { w with
      server.name := name
      server.connst := 1
      server.sendcreditticks := FULLSENDCREDIT
      service.tick := (w.service.tick.unregister () .connWaitLogin 0).register () .activeTick 0 }
  | nick (w : World) (nick : Bytes) : Change w { w with server.nick := nick }
  | addChannel (w : World) (name : Bytes) (h : w.server.channels.get name = none) :
      Change w (IrcServer.addChannel name w).2

/-- A computation that makes changes only, and meets no null queue or connection. -/
abbrev Changes (w : World) (r : Run) : Prop := Traced Change Sound w id r

/-- A computation that makes calls only, with the same faults. -/
abbrev Calls (w : World) (r : Run) : Prop := Traced Called Sound w id r

variable {w w' : World}

theorem sendRaw_outputs {command : Option Bytes} (h : IrcServer.sendRaw command w = .ok w') : w.Outputs w' := by
  have hs := IrcServer.sendRaw_spec command w
  rw [h] at hs
  exact hs

theorem setChannel_shape (name : Bytes) (chan : ChanId) (w : World) : ∃ msgReceived destroyed,
    IrcServer.setChannel name chan w = { w with
      server.msgReceived := msgReceived
      ghost.destroyed := destroyed
      server.channels := (w.server.channels.set name chan (some .destroyIrcChannel)).2 } := by
  unfold IrcServer.setChannel
  dsimp only
  split <;> exact ⟨_,_,rfl⟩

theorem addChannel_shape (name : Bytes) (w : World) : ∃ chans destroyed msgReceived,
    (∀ c, c ≠ w.nchans → chans c = w.chans c) ∧ (chans w.nchans).name = name ∧
    (IrcServer.addChannel name w).2 = { w with
      chans := chans
      nchans := w.nchans + 1
      ghost.destroyed := destroyed
      server.msgReceived := msgReceived
      server.channels := (w.server.channels.set name w.nchans (some .destroyIrcChannel)).2 } := by
  obtain ⟨m,d,h⟩ := setChannel_shape name w.nchans (IrcServer.registerChannel w.nchans (IrcChannel.create name w).2)
  refine ⟨(IrcServer.registerChannel w.nchans (IrcChannel.create name w).2).chans,d,m,fun c hc => ?_,?_,h⟩
  · simp [IrcServer.registerChannel,IrcChannel.create,World.setChan,hc]
  · simp [IrcServer.registerChannel,IrcChannel.create,World.setChan]

/-- A new channel is in the table. -/
theorem addChannel_has (name : Bytes) (w : World) : (IrcServer.addChannel name w).2.Has w.nchans := by
  obtain ⟨_,_,_,_,hname,he⟩ := addChannel_shape name w
  rw [he,World.Has]
  change (w.server.channels.set name w.nchans (some Deleter.destroyIrcChannel)).2.get _ = _
  rw [hname,IBHashTable.get_set_self]

theorem Change.same (h : Change w w') : w.SameConn w' := by
  cases h with
  | call h => exact (same_of_effects h.effects).toSameConn
  | send _ command _ h => exact (sendRaw_outputs h).same.toSameConn
  | addChannel name _ =>
    obtain ⟨_,_,_,_,_,h⟩ := addChannel_shape name w
    rw [h]
    exact ⟨⟨rfl,rfl,rfl,rfl,rfl,rfl,rfl,rfl⟩,rfl,rfl,rfl⟩
  | _ => exact ⟨⟨rfl,rfl,rfl,rfl,rfl,rfl,rfl,rfl⟩,rfl,rfl,rfl⟩

theorem same_of_changes (h : ReflTransGen Change w w') : w.SameConn w' := by
  induction h with
  | refl => exact .refl w
  | tail _ h ih => exact ih.trans h.same

theorem Effect.sendQueue (h : Effect w w') (hq : w.server.sendQueue.isSome) : w'.server.sendQueue.isSome := by
  cases h with
  | send _ cmd args hcmd _ h => exact (sendRawCmd_outputs hcmd h).sendQueue hq
  | remove self _ =>
    obtain ⟨_,_,h⟩ := remove_shape (w.chans self).name self w
    rw [h]
    exact hq
  | _ => exact hq

theorem online_of_effects (h : ReflTransGen Effect w w') (hw : w.Online) : w'.Online := by
  refine ⟨by rw [(same_of_effects h).conn]; exact hw.conn,?_⟩
  exact Effects.invariant (I := fun t => t.server.sendQueue.isSome) (fun _ _ ht hs => hs.sendQueue ht) hw.sendQueue h

theorem Change.online (h : Change w w') (hw : w.Online) : w'.Online := by
  refine ⟨by rw [h.same.conn]; exact hw.conn,?_⟩
  cases h with
  | call h => exact (online_of_effects h.effects hw).sendQueue
  | send _ command _ h => exact (sendRaw_outputs h).sendQueue hw.sendQueue
  | addChannel name _ =>
    obtain ⟨_,_,_,_,_,h⟩ := addChannel_shape name w
    rw [h]
    exact hw.sendQueue
  | _ => exact hw.sendQueue

theorem online_of_changes (h : ReflTransGen Change w w') (hw : w.Online) : w'.Online :=
  Effects.invariant (fun _ _ h hc => Change.online hc h) hw h

theorem IrcServer.SendFault.sound {e : Fault × World} (h : IrcServer.SendFault w e.1) (ho : w.Outputs e.2)
    (hw : w.Online) : Sound w e := by
  rcases h with h | ⟨_,hq⟩ | ⟨_,hc⟩
  · exact ⟨ho.same.toSameConn,by rw [h]; decide,by rw [h]; decide,by rw [h]; decide⟩
  · exact absurd hw.sendQueue (by simp [hq])
  · exact absurd hw.conn (by simp [hc])

/-- What is traced by effects makes a single call, if it ends, and else has a sound fault. -/
theorem Calls.ofTraces {msg : Option IrcMessage} {r : Run} (h : Traces msg w r)
    (hd : ∀ w', r = .ok w' → Called w w') (hw : 0 < w.server.connst → w.Online) : Calls w r := by
  cases hr : r with
  | ok w' => exact .pure (.single (hd w' hr))
  | error e =>
    rw [hr] at h
    obtain ⟨t,ht,he⟩ := h
    refine .fault ?_
    have hs := same_of_effects ht
    have hsound : Sound t e := by
      cases he with
      | send _ cmd args hcmd hst h =>
        have hf := IrcServer.sendRawCmd_spec hcmd args t
        rw [h] at hf
        exact hf.2.sound hf.1 (online_of_effects ht (hw (hs.connst ▸ hst)))
      | noPrefix => exact ⟨.refl t,by simp,by simp,by simp⟩
      | freedName => exact ⟨⟨⟨rfl,rfl,rfl,rfl,rfl,rfl,rfl,rfl⟩,rfl,rfl,rfl⟩,by simp,by simp,by simp⟩
    exact { hsound with same := hs.toSameConn.trans hsound.same }

theorem Changes.ofCalls {r : Run} (h : Calls w r) : Changes w r :=
  h.mono (fun _ _ ⟨_,hd⟩ => .call hd) (fun _ _ he => he)

namespace IrcServer
variable {msg : Option IrcMessage} {m : IrcMessage} (env : Env)

theorem raiseConnected_traces (hst : 0 < w.server.connst) : Traces msg w (raiseConnected w) := by
  refine raise_traced ?_ ?_
  · intro t _ _ _ h _ _
    cases h with
    | joinOnConnect chan => exact IrcChannel.joinOnConnect_traces chan t
    | connected => exact .pure (effects_of_mild (IrcBot.dispatch_mild _ _ t))
  · intro t u ht h
    exact h.shrinks.connected (lt_of_lt_of_eq hst (connst_of_effects ht).symm)

theorem raiseDisconnected_traces (hst : w.server.connst ≤ 0) : Traces msg w (raiseDisconnected w) := by
  refine raise_traced ?_ ?_
  · intro t ht _ _ h _ _
    cases h with
    | disconnected chan =>
      exact IrcChannel.disconnected_traces chan (le_of_eq_of_le (connst_of_effects ht) hst)
    | shutdownok => exact .pure (IrcBot.shutdownok_effects t)
  · intro t u ht h
    exact h.shrinks.disconnected (le_of_eq_of_le (connst_of_effects ht) hst)

theorem raiseMsgReceived_traces (m : IrcMessage) (w : World) : Traces (some m) w (raiseMsgReceived env m w) := by
  refine raise_traced ?_ ?_
  · intro t _ slot hs h hh hid
    cases h with
    | handleMsg chan =>
      exact IrcChannel.handleMsg_traces env (Event.count_pos_iff.mpr ⟨slot,hs,rfl,hh,hid⟩)
    | msgReceived => exact .pure (effects_of_mild (IrcBot.msgReceived_mild m t))
  · intro t u _ h
    exact h.shrinks.msgReceived

theorem online_of_called {t : World} (h : ReflTransGen Called w t) (hw : w.Online) : t.Online :=
  online_of_effects (effects_of_called h) hw

theorem raiseConnected_calls (hst : 0 < w.server.connst) (hw : w.Online) :
    Calls w (raiseConnected w) := by
  have hlogged : ∀ {t}, ReflTransGen Called w t → 0 < t.server.connst :=
    fun ht => lt_of_lt_of_eq hst (connst_of_effects (effects_of_called ht)).symm
  refine raise_traced ?_ ?_
  · intro t ht slot hs h hh hid
    cases h with
    | joinOnConnect chan =>
      have hr : 0 < t.server.connected.count () (.joinOnConnect chan) 0 :=
        Event.count_pos_iff.mpr ⟨slot,hs,rfl,hh,hid⟩
      exact Calls.ofTraces (IrcChannel.joinOnConnect_traces chan t : Traces none t _)
        (fun _ he => ⟨_,.joinOnConnect chan (hlogged ht) hr he⟩) (fun _ => online_of_called ht hw)
    | connected =>
      obtain ⟨jobs,he⟩ : ∃ jobs, IrcBot.connected t = { t with bot.jobs := jobs } := IrcBot.dispatch_shape _ _ t
      dsimp only
      rw [he]
      exact .pure (.single ⟨_,.jobs jobs⟩)
  · rintro t u ht ⟨_,hd⟩
    exact (shrinks_of_effects hd.effects).connected (hlogged ht)

theorem raiseMsgReceived_calls (hw : w.Online) (m : IrcMessage) :
    Calls w (raiseMsgReceived env m w) := by
  refine raise_traced ?_ ?_
  · intro t ht slot hs h hh hid
    cases h with
    | handleMsg chan =>
      have hr : IrcChannel.Listens chan m t := Event.count_pos_iff.mpr ⟨slot,hs,rfl,hh,hid⟩
      exact Calls.ofTraces (IrcChannel.handleMsg_traces env hr) (fun _ he => ⟨_,.handleMsg chan env m hr he⟩)
        (fun _ => online_of_called ht hw)
    | msgReceived =>
      obtain ⟨jobs,he⟩ := IrcBot.msgReceived_shape m t
      dsimp only
      rw [he]
      exact .pure (.single ⟨_,.jobs jobs⟩)
  · rintro t u _ ⟨_,hd⟩
    exact (shrinks_of_effects hd.effects).msgReceived

theorem sendRaw_changes (hw : w.Online) {command : Option Bytes} (hc : ∀ c ∈ command, IsCommand c) :
    Changes w (sendRaw command w) := by
  have hf := sendRaw_spec command w
  cases h : sendRaw command w with
  | ok w' => exact .pure (.single (.send w w' command hc h))
  | error e =>
    rw [h] at hf
    exact .fault (hf.2.sound hf.1 hw)

theorem sendRawCmd_changes (hw : w.Online) (cmd : IrcCommand) (args : Option Bytes) :
    Changes w (sendRawCmd cmd args w) := by
  unfold sendRawCmd World.deref
  cases hcmd : cmd.str with
  | none => exact .fault ⟨.refl _,nofun,nofun,nofun⟩
  | some name =>
    cases args with
    | none => exact .fault ⟨.refl _,nofun,nofun,nofun⟩
    | some args =>
      refine sendRaw_changes hw (fun c hc => ?_)
      rw [← Option.mem_some.mp hc]
      exact .raw cmd name args hcmd

theorem handleMyinfo_changes (hw : w.Online) (m : IrcMessage) : Changes w (handleMyinfo m w) := by
  unfold handleMyinfo
  split
  · exact .step (.login w m.params[1]? hw) (Changes.ofCalls (raiseConnected_calls Int.one_pos ⟨hw.conn,hw.sendQueue⟩))
  · exact .pure .refl

theorem handleNicknameinuse_changes (hw : w.Online) : Changes w (handleNicknameinuse w) := by
  have h := Change.nick w (w.server.nick ++ lit "_")
  exact .step h (sendRawCmd_changes (h.online hw) _ _)

theorem ownPrefix_cases (m : IrcMessage) (w : World) :
    (m.msgPrefix = none ∧ ownPrefix m w = .error (.nullString,w)) ∨ ∃ own, ownPrefix m w = .ok own := by
  unfold ownPrefix
  cases m.msgPrefix with
  | none => exact Or.inl ⟨rfl,rfl⟩
  | some p => exact Or.inr ⟨_,rfl⟩

theorem handleNick_changes (m : IrcMessage) (w : World) : Changes w (handleNick m w) := by
  unfold handleNick
  split
  · next hlen =>
    rcases ownPrefix_cases m w with ⟨_,h⟩ | ⟨own,h⟩
    · rw [h]
      exact .fault ⟨.refl _,nofun,nofun,nofun⟩
    · rw [h,deref_get (by omega)]
      dsimp only [bind,Except.bind]
      split
      · exact .pure (.single (.nick w _))
      · exact .pure .refl
  · exact .pure .refl

theorem handleJoin_changes (m : IrcMessage) (w : World) : Changes w (handleJoin m w) := by
  unfold handleJoin
  split
  · next hlen =>
    rcases ownPrefix_cases m w with ⟨_,h⟩ | ⟨own,h⟩
    · rw [h]
      exact .fault ⟨.refl _,nofun,nofun,nofun⟩
    · rw [h,deref_get (by omega)]
      dsimp only [bind,Except.bind]
      split
      · split
        · exact .pure .refl
        · next hget => exact .pure (.single (.addChannel w _ hget))
      · exact .pure .refl
  · exact .pure .refl

theorem handleCommand_changes (hw : w.Online) (m : IrcMessage) : Changes w (handleCommand m w) := by
  unfold handleCommand
  split
  · exact handleMyinfo_changes hw m
  · exact handleNicknameinuse_changes hw
  · exact sendRawCmd_changes hw _ _
  · exact handleNick_changes m w
  · exact handleJoin_changes m w
  · exact .pure .refl

/-- The state with a message in the log of those handed to `handleMessage`. -/
def logMessage (m : IrcMessage) (w : World) : World := { w with ghost.handled := w.ghost.handled ++ [m] }

theorem handleMessage_changes (hw : w.Online) (m : IrcMessage) :
    Changes (logMessage m w) (handleMessage env m w) := by
  refine (handleCommand_changes (w := logMessage m w) ⟨hw.conn,hw.sendQueue⟩ m).bind (fun t ht => ?_)
  exact Changes.ofCalls (raiseMsgReceived_calls env (online_of_changes ht ⟨hw.conn,hw.sendQueue⟩) m)

section Application
variable (hw : 0 < w.server.connst → w.Online)
include hw

theorem setNick_changes (nick : Bytes) : Changes w (setNick nick w) := by
  unfold setNick
  split
  · have h := Change.nick w nick
    refine .step h ?_
    dsimp only
    split
    · next hst => exact sendRawCmd_changes (h.online (hw hst)) _ _
    · exact .pure .refl
  · exact .pure .refl

theorem channelJoin_calls {chan : ChanId} (hs : w.Has chan) : Calls w (IrcChannel.join chan w) :=
  Calls.ofTraces (IrcChannel.join_traces chan w : Traces none w _) (fun _ he => ⟨_,.join chan hs he⟩) hw

theorem join_changes {channel : Bytes}
    (hname : ∀ chan, w.server.channels.get channel = some chan → (w.chans chan).name = channel) :
    Changes w (join channel w) := by
  unfold join
  split
  · next chan hget =>
    have hs : w.Has chan := by rw [World.Has,hname chan hget,hget]
    exact Changes.ofCalls (channelJoin_calls hw hs)
  · next hget =>
    have hadd := Change.addChannel w channel hget
    refine .step hadd (Changes.ofCalls (channelJoin_calls ?_ (addChannel_has channel w)))
    intro hst
    obtain ⟨_,_,_,_,_,h⟩ := addChannel_shape channel w
    rw [h] at hst
    exact hadd.online (hw hst)

theorem sendCmd_changes (cmd : IrcCommand) (args : Bytes) :
    Traced Change Sound w Prod.snd (sendCmd cmd args w) := by
  by_cases hst : w.server.connst ≤ 0
  · rw [sendCmd_loggedOut cmd args hst]
    exact .pure .refl
  · have hst : 0 < w.server.connst := by omega
    rw [sendCmd_loggedIn cmd args hst]
    exact (sendRawCmd_changes (hw hst) cmd _).bind (fun _ _ => .pure .refl)

end Application

theorem sendChunks_changes {recipient : Bytes} (hr : recipient.length ≤ 255) (action : Bool) {n : ℕ}
    {message : Bytes} (hn : message.length ≤ n) (hw : w.Online) :
    Changes w (sendChunks (msgHeader recipient action) action (maxchunk recipient action) n message w) := by
  have hm := maxchunk_pos hr action
  induction n generalizing w message with
  | zero =>
    rw [sendChunks,if_pos (List.length_eq_zero_iff.mp (by omega))]
    exact .pure .refl
  | succ n ih =>
    rw [sendChunks]
    split
    · exact .pure .refl
    · next hne =>
      have hpos := List.length_pos_iff.mpr hne
      dsimp only
      have hsz : (if message.length > maxchunk recipient action then maxchunk recipient action
          else message.length) ≤ maxchunk recipient action ∧
          0 < if message.length > maxchunk recipient action then maxchunk recipient action
            else message.length := by
        split <;> omega
      generalize (if message.length > maxchunk recipient action then maxchunk recipient action
        else message.length) = chunksz at hsz ⊢
      split
      · exact .fault ⟨.refl _,by simp,by simp,by simp⟩
      · refine (sendRaw_changes hw (fun c hc => ?_)).bind
          (fun t ht => ih (by rw [List.length_drop]; omega) (online_of_changes ht hw))
        rw [← Option.mem_some.mp hc]
        exact .line recipient _ action hr (Nat.le_trans (List.length_take_le _ _) hsz.1)

theorem sendMsg_changes (hw : 0 < w.server.connst → w.Online) (recipient message : Bytes) (action : Bool) :
    Traced Change Sound w Prod.snd (sendMsg recipient message action w) := by
  unfold sendMsg
  split
  · exact .pure .refl
  · next hst =>
    split
    · exact .pure .refl
    · next hlen =>
      dsimp only
      split
      · exact .fault ⟨.refl _,by simp,by simp,by simp⟩
      · refine (sendChunks_changes (by omega) action (Nat.le_refl _) (hw (by omega))).bind (fun t _ => ?_)
        exact .pure .refl

end IrcServer
end LibIrcBot
