import LibIrcBot.Parties.Steps

/-! # Connections and calls

A new connection up to the login, the end of a connection, and the calls of the application, each
as what it does to the channel in the table and to the commands.
-/
namespace LibIrcBot
open CString Effects Relation Outcome

variable {channel : Bytes} {w w' : World} {self : ChanId}

theorem logMessage_sends (h : w.Serves channel) (m : IrcMessage) : Sends channel [] w (IrcServer.logMessage m w) :=
  ⟨h.logged m,rfl,(List.append_nil _).symm,id,rfl,rfl,fun _ => Nat.le_refl _,nofun⟩

/-- The end of the login. -/
theorem handleMyinfo_sends (h : w.Serves channel) (hst : w.server.connst ≠ 0) (m : IrcMessage)
    (hr : IrcServer.handleMyinfo m w = .ok w') : ∃ cs, Sends channel cs w w' := by
  unfold IrcServer.handleMyinfo at hr
  split at hr
  · have hlogin := login_sends h (h.charted.toLinked.online hst) m.params[1]?
    obtain ⟨cs,hcs⟩ := raiseConnected_sends hlogin.serves Int.one_pos hr
    exact ⟨_,hlogin.trans hcs⟩
  · cases hr
    exact ⟨[],h.sends⟩

theorem connect_sends (h : w.Serves channel) (hconn : w.server.conn = none) (env : Env) {name : Bytes}
    (hr : Parties.connect env name w = .ok w') : ∃ cs, Sends channel cs w w' := by
  unfold Parties.connect at hr
  dsimp only at hr
  split at hr
  · next hc =>
    cases hr
    rcases connect_shape env hconn with he | ⟨fd,conns,_,_,he⟩
    · rw [he]
      exact ⟨[],h.sends⟩
    · rw [he] at hc
      cases hc
  · next conn hc =>
    obtain ⟨t,ht,hr⟩ := ok_of_bind hr
    obtain ⟨u,hu,hr⟩ := ok_of_bind hr
    obtain ⟨cs,hlogin,hst⟩ := login_data_sends h hconn hc ht hu
    have hcommand : (IrcMessage.of name .RPL_MYINFO [u.server.nick,name,lit "1",lit "i"]).command = .RPL_MYINFO := rfl
    generalize IrcMessage.of name .RPL_MYINFO [u.server.nick,name,lit "1",lit "i"] = m at hr hcommand
    have hlog := logMessage_sends hlogin.serves m
    obtain ⟨v,hv,hr⟩ := ok_of_bind (r := IrcServer.handleCommand m (IrcServer.logMessage m u)) hr
    have hmyinfo : IrcServer.handleCommand m (IrcServer.logMessage m u) =
        IrcServer.handleMyinfo m (IrcServer.logMessage m u) := by rw [IrcServer.handleCommand,hcommand]
    obtain ⟨ds,hdone⟩ := handleMyinfo_sends hlog.serves (show u.server.connst ≠ 0 by omega) m (hmyinfo.symm.trans hv)
    obtain ⟨es,hlast⟩ := raiseMsgReceived_sends hdone.serves (by simp [hcommand,IrcChannel.msgCommands]) hr
    exact ⟨_,hlogin.trans (hlog.trans (hdone.trans hlast))⟩

/-- A connection ends: the commands and the tables stay, and the channels that learn of it leave. -/
structure Ends (channel : Bytes) (w w' : World) : Prop where
  serves : w'.Serves channel
  nick : w'.server.nick = w.server.nick
  commands : w'.ghost.commands = w.ghost.commands
  roster : w'.roster = w.roster
  nicks : w'.nicks = w.nicks
  logged : w'.logged = false
  leaves : (∀ c, w.Has c → (w.state c).isJoined = true → 0 < (w.state c).disconnected) →
    ∀ c, w'.Has c → (w'.state c).isJoined = false
  falls : ∀ c, (w'.state c).isJoined = true → (w.state c).isJoined = true

theorem raiseDisconnected_nicks (w : World) : KeepsNicks w (IrcServer.raiseDisconnected w) := by
  refine raise_nicks (fun handler t => ?_) w
  cases handler with
  | disconnected c => exact IrcChannel.disconnected_nicks c t
  | shutdownok =>
    change World.nicks (IrcBot.shutdownok t) = t.nicks
    unfold IrcBot.shutdownok Service.shutdownUnlock
    split <;> rfl

theorem connClosed_ends (h : w.Serves channel) {conn : ConnId} (hc : w.server.conn = some conn) {established : Bool}
    (hr : IrcServer.connClosed conn established w = .ok w') : Ends channel w w' := by
  have hspec := Connection.connClosed_spec hc established
  rw [hr] at hspec
  obtain ⟨t,ht,rfl⟩ := hspec
  have helse : Elsewhere w (w.log conn .disconnected) := ⟨rfl,rfl,rfl,rfl,rfl,rfl,rfl,fun hl => { hl with }⟩
  have hcharted := (h.charted.happens (.other helse)).close ht
  have hsame := same_of_effects (hangUp_effects ht)
  have hnicks := raiseDisconnected_nicks (IrcServer.hangUp established (w.log conn .disconnected))
  have hrun := raiseDisconnected_invariant (w := IrcServer.hangUp established (w.log conn .disconnected))
    (J := fun u => u.roster = w.roster ∧ u.ghost.commands = w.ghost.commands ∧ ∀ c, (u.state c).isJoined = true →
      (w.state c).isJoined = true)
    ?_ ?_ ⟨rfl,rfl,fun _ hj => hj⟩
  · rw [ht] at hrun hnicks
    obtain ⟨hroster,hcommands,hfalls⟩ := hrun
    refine ⟨h.congr hcharted (congrArg Roster.nchans hroster) (fun c => congrFun (congrArg Roster.name hroster) c) hnicks
      hsame.nick,hsame.nick,hcommands,hroster,hnicks,?_,fun hreg c hs => ?_,fun c => ?_⟩
    · change decide (0 < t.server.connst) = false
      rw [hsame.connst]
      rfl
    · rw [awaitReconn_state]
      exact raiseDisconnected_clears (w := IrcServer.hangUp established (w.log conn .disconnected)) hreg ht c hs
    · rw [awaitReconn_state]
      exact hfalls c
  · rintro u v c ⟨hroster,hcommands,hfalls⟩ _ hv
    refine ⟨hv.roster.trans hroster,?_,fun d => ?_⟩
    · rw [hv.commands,hcommands,List.append_nil]
    · by_cases hdc : d = c
      · rw [hdc,hv.own]
        exact nofun
      · rw [hv.others d hdc]
        exact hfalls d
  · rintro u v ⟨hroster,hcommands,hfalls⟩ hv
    rw [hv.state,hv.commands,List.append_nil]
    exact ⟨hv.roster.trans hroster,hcommands,hfalls⟩

/-- A channel that is told to join, and does not want to be joined yet, sends the command. -/
theorem join_registers (h : w.Serves channel) (hget : w.server.channels.get channel = some self)
    (hw : (w.state self).wantJoined = false) (hlog : w.logged = true) (hr : IrcChannel.join self w = .ok w') :
    0 < (w'.state self).disconnected := by
  have hres := (Does.join self ((h.has_iff self).mpr hget) hr).result h.charted.toChannelInv h.charted.toAttended
  rw [hres.own self rfl,Call.op,hlog]
  exact Call.join_registers hw

/-- A join makes sure that the channel is in the table, and calls it; a new one learns of the end of the connection. -/
inductive Joins (channel : Bytes) (w w' : World) : Prop where
  | old {cs : List Bytes} (hget : w.server.channels.get channel ≠ none) (hs : Sends channel cs w w')
  | new {cs : List Bytes} (hget : w.server.channels.get channel = none)
      (hs : Sends channel cs (IrcServer.addChannel channel w).2 w')
      (hlog : w.logged = true → 0 < (w'.state w.nchans).disconnected)

theorem join_joins (h : w.Serves channel) (hr : IrcServer.join channel w = .ok w') : Joins channel w w' := by
  unfold IrcServer.join at hr
  cases hget : w.server.channels.get channel with
  | some c =>
    rw [hget] at hr
    exact .old (by rw [hget]; nofun) ((Does.join c ((h.has_iff c).mpr hget) hr).sends h trivial)
  | none =>
    rw [hget] at hr
    have hc := addChannel_creates hget
    have hcreate := h.create hget
    refine .new hget ((Does.join w.nchans hc.has hr).sends hcreate trivial) fun hlog => ?_
    exact join_registers hcreate ((hcreate.has_iff w.nchans).mp hc.has) (by rw [hc.own]) (hc.logged.trans hlog) hr

/-- A part that finds its channel destroys it twice. -/
theorem part_destroys (h : w.Serves channel) (hget : w.server.channels.get channel = some self)
    (hr : IrcServer.part channel w = .ok w') : ¬ w'.ghost.destroyed.Nodup := by
  have hname := h.named self (h.lt_of_get hget)
  obtain ⟨_,_,_,_,_,hrem⟩ := part_spec h.charted.toOwned ((h.has_iff self).mpr hget) (hname.symm ▸ hr)
  rw [hrem.destroyed]
  intro hone
  have htwice : [self,self].Nodup := hone.of_append_right
  exact absurd htwice (by simp)

end LibIrcBot
