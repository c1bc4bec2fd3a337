import LibIrcBot.Parties.Views
import LibIrcBot.Properties.DeadConnection

/-! # What the bot does in a step

All channels of the bot bear the same name, so that at most one of them is in the table. The
lemmas say what the calls, the notices, the end of a connection and a new login do to it.
-/
namespace LibIrcBot
open CString Effects Relation Outcome

variable {channel : Bytes} {w w' : World} {self : ChanId} {l : Call} {n : Notice}

/-- The bot has no channels with other names. -/
structure World.Serves (channel : Bytes) (w : World) : Prop where
  charted : Charted w
  named : ∀ c, c < w.nchans → (w.chans c).name = channel
  sized : ∀ c, c < w.nchans → (w.nicks c).Sized
  own : ValidNick w.server.nick

namespace World.Serves

theorem has_iff (h : w.Serves channel) (c : ChanId) : w.Has c ↔ w.server.channels.get channel = some c := by
  constructor
  · intro hs
    rw [← h.named c (h.charted.lt_of_has hs)]
    exact hs
  · intro hget
    rw [World.Has,(h.charted.name_of_get hget).2]
    exact hget

theorem lt_of_get (h : w.Serves channel) (hget : w.server.channels.get channel = some self) : self < w.nchans :=
  (h.charted.name_of_get hget).1

/-- All that this depends on. -/
theorem congr (h : w.Serves channel) (hc : Charted w') (hn : w'.nchans = w.nchans)
    (hname : ∀ c, (w'.chans c).name = (w.chans c).name) (hnicks : w'.nicks = w.nicks)
    (ho : w'.server.nick = w.server.nick) : w'.Serves channel := by
  refine ⟨hc,fun c hlt => ?_,fun c hlt => ?_,?_⟩
  · rw [hname]
    exact h.named c (hn ▸ hlt)
  · rw [hnicks]
    exact h.sized c (hn ▸ hlt)
  · rw [ho]
    exact h.own

theorem call (h : w.Serves channel) (hd : Does l w w') (hl : ∀ self m, l ≠ .handleMsg self m) : w'.Serves channel := by
  have hsame := same_of_effects hd.effects
  refine h.congr (h.charted.call hd) hsame.nchans (fun c => ?_) (hd.nicks hl) hsame.nick
  exact Effects.invariant (I := fun t => (t.chans c).name = (w.chans c).name) (fun _ _ ht hs => (hs.name c).trans ht) rfl
    hd.effects

theorem create (h : w.Serves channel) (hget : w.server.channels.get channel = none) :
    (IrcServer.addChannel channel w).2.Serves channel := by
  have hc := addChannel_creates hget
  have hlt : ∀ c, c < (IrcServer.addChannel channel w).2.nchans → c ≠ w.nchans → c < w.nchans := by
    intro c hlt hne
    rw [hc.nchans] at hlt
    omega
  refine ⟨h.charted.create hget,fun c hc' => ?_,fun c hc' => ?_,?_⟩
  · by_cases he : c = w.nchans
    · rw [he]
      exact hc.name
    · rw [(hc.others c he).2]
      exact h.named c (hlt c hc' he)
  · by_cases he : c = w.nchans
    · rw [he,World.nicks,addChannel_new hget]
      simp only [IrcServer.registerChannel,IrcChannel.create,World.setChan,Function.update_self]
      exact IBHashTable.create_sized (by decide)
    · rw [World.nicks,(hc.others c he).2]
      exact h.sized c (hlt c hc' he)
  · rw [addChannel_new hget]
    exact h.own

theorem logged (h : w.Serves channel) (m : IrcMessage) : (IrcServer.logMessage m w).Serves channel :=
  h.congr (h.charted.logged m) rfl (fun _ => rfl) rfl rfl

end World.Serves

/-! ## Notices -/

theorem Notice.command (n : Notice) (channel own : Bytes) : (n.message channel own).command ∈ IrcChannel.msgCommands ∧
    (n.message channel own).command ≠ .ERR_NOSUCHCHANNEL := by
  cases n with
  | user change => cases change <;> simp [Notice.message,UserChange.message,IrcMessage.of,IrcChannel.msgCommands]
  | _ => simp [Notice.message,IrcMessage.of,IrcChannel.msgCommands]

/-- The echo of a join makes the server create the channel if it is not there. -/
def Notice.prepare (channel : Bytes) (n : Notice) (w : World) : World :=
  match n, w.server.channels.get channel with
  | .joined _, none => (IrcServer.addChannel channel w).2
  | _, _ => w

/-- A join of the bot itself is for the server, that of another user is not. -/
theorem handleJoin_user {nick host : Bytes} (h : ValidNick nick) {m : IrcMessage}
    (hm : m.msgPrefix = some (userPrefix nick host)) (hp : m.params = [channel]) : IrcServer.handleJoin m w =
      .ok (if nick = w.server.nick ∧ w.server.channels.get channel = none then (IrcServer.addChannel channel w).2 else w) := by
  rw [IrcServer.handleJoin,hp,if_pos (show [channel].length ≠ 0 by simp),ownPrefix_user h hm]
  change (if decide (nick = w.server.nick) = true then _ else _) = _
  by_cases ho : nick = w.server.nick
  · rw [if_pos (decide_eq_true ho)]
    cases hget : w.server.channels.get channel with
    | some c => simp [World.deref,bind,Except.bind,hget,pure,Except.pure]
    | none => simp [World.deref,bind,Except.bind,hget,ho,pure,Except.pure]
  · rw [if_neg (by simp [ho]),if_neg fun he => ho he.1]
    rfl

theorem handleNick_user {nick host new : Bytes} (h : ValidNick nick) (ho : nick ≠ w.server.nick) {m : IrcMessage}
    (hm : m.msgPrefix = some (userPrefix nick host)) (hp : m.params = [new]) : IrcServer.handleNick m w = .ok w := by
  rw [IrcServer.handleNick,hp,if_pos (show [new].length ≠ 0 by simp),ownPrefix_user h hm]
  change (if decide (nick = w.server.nick) = true then _ else _) = _
  rw [if_neg (by simp [ho])]
  rfl

theorem handleCommand_notice (ho : ValidNick w.server.nick) (hn : n.Valid w.server.nick) :
    IrcServer.handleCommand (n.message channel w.server.nick) w = .ok (n.prepare channel w) := by
  cases n with
  | joined host =>
    refine (handleJoin_user ho rfl rfl).trans (congrArg Except.ok ?_)
    unfold Notice.prepare
    cases w.server.channels.get channel with
    | some c => exact if_neg fun he => Option.some_ne_none c he.2
    | none => exact if_pos ⟨rfl,rfl⟩
  | user change =>
    cases change with
    | join nick host =>
      obtain ⟨hv,hne⟩ := hn nick List.mem_cons_self
      exact (handleJoin_user hv rfl rfl).trans (congrArg Except.ok (if_neg fun he => hne he.1))
    | rename nick host new =>
      obtain ⟨hv,hne⟩ := hn nick List.mem_cons_self
      exact handleNick_user hv hne rfl rfl
    | _ => rfl
  | _ => rfl

/-- The raise stores the notice in the table of the channel, once. -/
theorem raiseMsgReceived_nicks (h : w.Serves channel) {env : Env} (hn : n.Valid w.server.nick)
    (hr : IrcServer.raiseMsgReceived env (n.message channel w.server.nick) w = .ok w') (self : ChanId) :
    w'.nicks self = if w.Has self then n.store channel w.server.nick (w.nicks self) else w.nicks self := by
  obtain ⟨hcmd,hok⟩ := n.command channel w.server.nick
  generalize hm : n.message channel w.server.nick = m at hcmd hok hr
  have hinv := h.charted.toChannelInv
  have hraise : ∃ l, Delivering m w l w' ∧ (∀ c, w'.nicks c =
      if w.Has c ∧ w.server.msgReceived.countFrom l () (.handleMsg c) m.command.code = 0 then
        n.store channel w.server.nick (w.nicks c) else w.nicks c) ∧ w'.server.msgReceived.handlers[l]? = none := by
    refine raiseMsgReceived_spec (K := fun k t => ∀ c, t.nicks c =
      if w.Has c ∧ w.server.msgReceived.countFrom k () (.handleMsg c) m.command.code = 0 then
        n.store channel w.server.nick (w.nicks c) else w.nicks c) hinv hcmd hok ?_ ?_ ?_ hr
    · intro k t v slot ht hK hslot hdead hch c
      have hcount := Event.countFrom_succ (ht.slot_eq hslot) () (.handleMsg c) m.command.code
      rw [if_neg (by simp [hdead c]),Nat.add_zero] at hcount
      rw [World.nicks,hch,← hcount]
      exact hK c
    · intro k t v slot d ht hK hslot hh hid hv c
      have hlistens : IrcChannel.Listens d m w :=
        Event.count_pos_iff.mpr ⟨slot,List.mem_of_getElem? (ht.slot_eq hslot),rfl,hh,hid⟩
      have hsame := same_of_effects ht.effects
      have hname : (t.chans d).name = channel := (congrFun (congrArg Roster.name ht.roster) d).trans
        (h.named d (h.charted.lt_of_has (hinv.has_of_listens hcmd hlistens)))
      have hcount := Event.countFrom_succ (ht.slot_eq hslot) () (.handleMsg c) m.command.code
      rw [← hm,← hsame.nick] at hv
      have hstores := IrcChannel.handleMsg_stores env (hsame.nick ▸ hn) (hsame.nick ▸ h.own) hname
      rw [hv] at hstores
      rw [show v.nicks = _ from hstores,hsame.nick]
      by_cases hc : c = d
      · subst hc
        have hmatch : Event.Matches () (.handleMsg c) m.command.code slot = true := by simp [Event.Matches,hh,hid]
        have hle : w.server.msgReceived.countFrom k () (.handleMsg c) m.command.code ≤ 1 :=
          (Event.countFrom_le _ _ _ _ _).trans (hinv.listening.le c hcmd)
        rw [if_pos hmatch] at hcount
        rw [Function.update_self,hK,if_neg (by omega),if_pos ⟨hinv.has_of_listens hcmd hlistens,by omega⟩]
      · have hmatch : Event.Matches () (.handleMsg c) m.command.code slot = false := by simp [Event.Matches,hh,Ne.symm hc]
        rw [if_neg (by simp [hmatch]),Nat.add_zero] at hcount
        rw [Function.update_of_ne hc,hK,hcount]
    · intro c
      by_cases hs : w.Has c
      · have hone : w.server.msgReceived.countFrom 0 () (.handleMsg c) m.command.code = 1 :=
          (hinv.listening c m.command hcmd).trans (if_pos hs)
        simp [hone]
      · simp [hs]
  obtain ⟨l,hl,hK,hend⟩ := hraise
  rw [hK,hl.last hend]
  simp

/-- What the bot knows, from the nick table and the automaton of its channel. -/
theorem view_eq (self : ChanId) (w : World) : IrcChannel.view self w = ⟨(w.nicks self).keys,(w.state self).isJoined⟩ := rfl

theorem view_of_get (hget : w.server.channels.get channel = some self) :
    w.view channel = some (IrcChannel.view self w) := by
  rw [World.view,hget]
  rfl

theorem view_of_none (hget : w.server.channels.get channel = none) : w.view channel = none := by
  rw [World.view,hget]
  rfl

/-- Something that the bot hears changes what it knows, and little else. -/
structure Hears (channel : Bytes) (f : Option View → Option View) (w w' : World) : Prop where
  serves : w'.Serves channel
  nick : w'.server.nick = w.server.nick
  logged : w'.logged = w.logged
  commands : w'.ghost.commands = w.ghost.commands
  view : w'.view channel = f (w.view channel)
  keeps : ∀ c, w.server.channels.get channel = some c → w'.server.channels.get channel = some c
  counts : ∀ c, (w'.state c).disconnected = (w.state c).disconnected
  present : (∀ c, c < w.nchans → w.Has c) → ∀ c, c < w'.nchans → w'.Has c

theorem Hears.trans {f g : Option View → Option View} {t : World} (h : Hears channel f w t) (h' : Hears channel g t w') :
    Hears channel (g ∘ f) w w' where
  serves := h'.serves
  nick := h'.nick.trans h.nick
  logged := h'.logged.trans h.logged
  commands := h'.commands.trans h.commands
  view := h'.view.trans (congrArg g h.view)
  keeps := fun c hget => h'.keeps c (h.keeps c hget)
  counts := fun c => (h'.counts c).trans (h.counts c)
  present := fun hall => h'.present (h.present hall)

theorem World.Serves.hears (h : w.Serves channel) : Hears channel id w w :=
  ⟨h,rfl,rfl,rfl,rfl,fun _ hget => hget,fun _ => rfl,id⟩

theorem logMessage_hears (h : w.Serves channel) (m : IrcMessage) : Hears channel id w (IrcServer.logMessage m w) :=
  ⟨h.logged m,rfl,rfl,rfl,rfl,fun _ hget => hget,fun _ => rfl,id⟩

/-- A new channel has no nicks, and is not joined. -/
theorem addChannel_view (h : w.Serves channel) (hget : w.server.channels.get channel = none) :
    (IrcServer.addChannel channel w).2.view channel = some ⟨∅,false⟩ := by
  have hc := addChannel_creates hget
  have hhas := ((h.create hget).has_iff w.nchans).mp hc.has
  rw [view_of_get hhas,view_eq,hc.own,World.nicks,addChannel_new hget]
  simp only [IrcServer.registerChannel,IrcChannel.create,World.setChan,Function.update_self]
  rw [IBHashTable.keys_create]

theorem addChannel_hears (h : w.Serves channel) (hget : w.server.channels.get channel = none) :
    Hears channel (fun _ => some ⟨∅,false⟩) w (IrcServer.addChannel channel w).2 := by
  have hc := addChannel_creates hget
  refine ⟨h.create hget,?_,hc.logged,?_,addChannel_view h hget,fun c hs => ?_,fun c => ?_,fun hall c hlt => ?_⟩
  · rw [addChannel_new hget]
    rfl
  · rw [addChannel_new hget]
    rfl
  · rw [hget] at hs
    cases hs
  · by_cases hn : c = w.nchans
    · rw [hn,hc.own]
    · rw [(hc.others c hn).1]
  · by_cases hn : c = w.nchans
    · exact hn ▸ hc.has
    · rw [hc.nchans] at hlt
      exact (hc.has_iff hget hn).mpr (hall c (by omega))

/-- What the server itself does with a notice. -/
theorem prepare_hears (h : w.Serves channel) (n : Notice) : ∃ f, Hears channel f w (n.prepare channel w) ∧
    (f (w.view channel)).map (n.learn w.server.nick) = n.tell w.server.nick (w.view channel) := by
  unfold Notice.prepare
  cases n with
  | joined host =>
    cases hget : w.server.channels.get channel with
    | none => exact ⟨_,addChannel_hears h hget,by rw [view_of_none hget]; rfl⟩
    | some c => exact ⟨id,h.hears,by rw [view_of_get hget]; rfl⟩
  | _ => exact ⟨id,h.hears,rfl⟩

theorem raiseMsgReceived_hears (h : w.Serves channel) {own : Bytes} (ho : w.server.nick = own) {env : Env}
    (hn : n.Valid own) (hr : IrcServer.raiseMsgReceived env (n.message channel own) w = .ok w') :
    Hears channel (Option.map (n.learn own)) w w' := by
  subst ho
  obtain ⟨hcmd,hok⟩ := n.command channel w.server.nick
  have hd := raiseMsgReceived_delivers h.charted.toChannelInv hcmd hok hr
  have hnicks := raiseMsgReceived_nicks h hn hr
  have hchannels : w'.server.channels = w.server.channels := congrArg Roster.channels hd.roster
  have hnchans : w'.nchans = w.nchans := congrArg Roster.nchans hd.roster
  have hname : ∀ c, (w'.chans c).name = (w.chans c).name := fun c => congrFun (congrArg Roster.name hd.roster) c
  have hstate : ∀ c, w'.state c = if w.Has c then n.op (IrcChannel.greetings c w) (w.state c) else w.state c := by
    intro c
    rw [hd.state,IrcChannel.delivered]
    split
    · next hs => rw [received_notice (h.named c (h.charted.lt_of_has hs)) hn]
    · rfl
  refine ⟨⟨hd.charted h.charted,fun c hlt => ?_,fun c hlt => ?_,?_⟩,hd.nick,?_,hd.commands,?_,fun c hget => ?_,
    fun c => ?_,fun hall c hlt => (has_of_roster hd.roster c).mpr (hall c (hnchans ▸ hlt))⟩
  · rw [hname]
    exact h.named c (hnchans ▸ hlt)
  · have hsized := h.sized c (hnchans ▸ hlt)
    rw [hnicks]
    split
    · exact (n.store_keys hsized false).1
    · exact hsized
  · rw [hd.nick]
    exact h.own
  · rw [World.logged,World.logged,hd.connst]
  · cases hget : w.server.channels.get channel with
    | none => rw [view_of_none hget,view_of_none (hchannels ▸ hget),Option.map_none]
    | some c =>
      have hhas := (h.has_iff c).mpr hget
      rw [view_of_get hget,view_of_get (hchannels ▸ hget),Option.map_some,view_eq,view_eq,hnicks,if_pos hhas,hstate,
        if_pos hhas,n.op_isJoined _ w.server.nick _ (w.nicks c).keys,
        (n.store_keys (h.sized c (h.lt_of_get hget)) (w.state c).isJoined).2]
  · rw [hchannels]
    exact hget
  · rw [hstate]
    split
    · exact n.op_disconnected _ _
    · rfl

/-- The handling of a notice. -/
theorem handleMessage_hears (h : w.Serves channel) {env : Env} (hn : n.Valid w.server.nick)
    (hr : IrcServer.handleMessage env (n.message channel w.server.nick) w = .ok w') :
    Hears channel (n.tell w.server.nick) w w' := by
  rw [handleMessage_raises (handleCommand_notice (w := IrcServer.logMessage _ w) h.own hn)] at hr
  have hlog := logMessage_hears h (n.message channel w.server.nick)
  obtain ⟨f,hprep,hf⟩ := prepare_hears hlog.serves n
  have hall := hlog.trans (hprep.trans (raiseMsgReceived_hears hprep.serves hprep.nick hn hr))
  exact { hall with view := hall.view.trans hf }

/-! ## Calls -/

def joinCmd (channel : Bytes) : Bytes := IrcServer.rawCmd (lit "JOIN") channel
def partCmd (channel : Bytes) : Bytes := IrcServer.rawCmd (lit "PART") channel

/-- The first four characters of a command. -/
theorem take_rawCmd (name args : Bytes) (h : name.length = 4) : (IrcServer.rawCmd name args).take 4 = name := by
  have hlen : 4 ≤ (name ++ [SPACE] ++ args ++ [CR,LF]).length := by simp [h]
  rw [IrcServer.rawCmd,snprintf,List.take_take,Nat.min_eq_left (by omega),List.append_assoc,List.append_assoc,
    List.take_append_of_le_length (Nat.le_of_eq h.symm),← h,List.take_length]

theorem rawCmd_ne {name name' : Bytes} (h : name.length = 4) (h' : name'.length = 4) (hne : name ≠ name') (args args' : Bytes) :
    IrcServer.rawCmd name args ≠ IrcServer.rawCmd name' args' := by
  intro he
  have htake := congrArg (List.take 4) he
  rw [take_rawCmd name args h,take_rawCmd name' args' h'] at htake
  exact hne htake

/-- The bot sends some commands; what it knows stays, and a join that it sends is one of a channel
that will learn of the end of the connection. -/
structure Sends (channel : Bytes) (cs : List Bytes) (w w' : World) : Prop where
  serves : w'.Serves channel
  nick : w'.server.nick = w.server.nick
  commands : w'.ghost.commands = w.ghost.commands ++ cs
  logged : w.logged = true → w'.logged = true
  roster : w'.roster = w.roster
  view : w'.view channel = w.view channel
  counts : ∀ c, (w.state c).disconnected ≤ (w'.state c).disconnected
  joins : joinCmd channel ∈ cs → w'.logged = true ∧ ∃ c, c < w.nchans ∧ 0 < (w'.state c).disconnected

theorem World.Serves.sends (h : w.Serves channel) : Sends channel [] w w :=
  ⟨h,rfl,(List.append_nil _).symm,id,rfl,rfl,fun _ => Nat.le_refl _,nofun⟩

theorem Sends.trans {cs ds : List Bytes} {t : World} (h : Sends channel cs w t) (h' : Sends channel ds t w') :
    Sends channel (cs ++ ds) w w' where
  serves := h'.serves
  nick := h'.nick.trans h.nick
  commands := by rw [h'.commands,h.commands,List.append_assoc]
  logged := fun hlog => h'.logged (h.logged hlog)
  roster := h'.roster.trans h.roster
  view := h'.view.trans h.view
  counts := fun c => (h.counts c).trans (h'.counts c)
  joins := by
    intro hmem
    rcases List.mem_append.mp hmem with hmem | hmem
    · obtain ⟨hlog,c,hlt,hpos⟩ := h.joins hmem
      exact ⟨h'.logged hlog,c,hlt,hpos.trans_le (h'.counts c)⟩
    · obtain ⟨hlog,c,hlt,hpos⟩ := h'.joins hmem
      have hn : t.nchans = w.nchans := congrArg Roster.nchans h.roster
      exact ⟨hlog,c,hn ▸ hlt,hpos⟩

/-- The calls that leave the channel in the table and handle no message. -/
def Call.Quiet : Call → Prop
  | .part _ | .handleMsg _ _ => False
  | _ => True

namespace Call
variable {s : ChanState}

theorem join_disconnected (s : ChanState) (logged : Bool) : s.disconnected ≤ (s.join logged).disconnected := by
  unfold ChanState.join
  split
  · exact Nat.le_refl _
  · split
    · exact Nat.le_succ _
    · exact Nat.le_refl _

/-- A join that gets through. -/
theorem join_registers (hw : s.wantJoined = false) : 0 < (s.join true).disconnected := by
  rw [ChanState.join,if_neg (by simp [hw]),if_pos rfl]
  exact Nat.succ_pos _

theorem quiet_isJoined (hq : l.Quiet) (w : World) (s : ChanState) : (l.op w s).isJoined = s.isJoined := by
  cases l with
  | join self => exact ChanState.join_isJoined s _
  | part self => exact hq.elim
  | joinOnConnect self => exact ChanState.join_isJoined _ _
  | waitjoin self =>
    change s.tickJoin.isJoined = _
    unfold ChanState.tickJoin
    split <;> rfl
  | waitrejoin self =>
    change (s.tickRejoin w.logged).isJoined = _
    unfold ChanState.tickRejoin
    split
    · exact ChanState.join_isJoined _ _
    · rfl
  | handleMsg self m => exact hq.elim
  | jobs => rfl

theorem quiet_disconnected (hq : l.Quiet) (w : World) (s : ChanState) : s.disconnected ≤ (l.op w s).disconnected := by
  cases l with
  | join self => exact join_disconnected s _
  | part self => exact hq.elim
  | joinOnConnect self => exact join_disconnected { s with joinOnConnect := s.joinOnConnect - 1, wantJoined := false } _
  | waitjoin self =>
    change _ ≤ s.tickJoin.disconnected
    unfold ChanState.tickJoin
    split <;> exact Nat.le_refl _
  | waitrejoin self =>
    change _ ≤ (s.tickRejoin w.logged).disconnected
    unfold ChanState.tickRejoin
    split
    · exact join_disconnected { s with rejointicks := 0, waitrejoin := s.waitrejoin - 1, wantJoined := false } _
    · exact Nat.le_refl _
  | handleMsg self m => exact hq.elim
  | jobs => exact Nat.le_refl _

theorem mem_sends {cmd args x : Bytes} {logged : Bool} (h : x ∈ IrcServer.sends cmd args logged) :
    logged = true ∧ x = IrcServer.rawCmd cmd args := by
  unfold IrcServer.sends at h
  split at h
  · next hl => exact ⟨hl,List.mem_singleton.mp h⟩
  · cases h

/-- A call that sends a join registers the channel for the end of the connection. -/
theorem registers (hq : l.Quiet) (h : joinCmd channel ∈ l.emits w) :
    w.logged = true ∧ ∃ c, l.chan = some c ∧ 0 < (l.op w (w.state c)).disconnected := by
  cases l with
  | join self =>
    simp only [emits] at h
    split at h
    · cases h
    · next hw =>
      refine ⟨(mem_sends h).1,self,rfl,?_⟩
      change 0 < ((w.state self).join w.logged).disconnected
      rw [(mem_sends h).1]
      exact join_registers (eq_false_of_ne_true hw)
  | part self => exact hq.elim
  | joinOnConnect self =>
    refine ⟨(mem_sends h).1,self,rfl,?_⟩
    change 0 < ((w.state self).connect w.logged).disconnected
    rw [(mem_sends h).1]
    exact join_registers rfl
  | waitjoin self =>
    simp only [emits] at h
    split at h
    · exact absurd (mem_sends h).2 (rawCmd_ne rfl rfl (by decide) _ _)
    · cases h
  | waitrejoin self =>
    simp only [emits] at h
    split at h
    · next hone =>
      refine ⟨(mem_sends h).1,self,rfl,?_⟩
      have hs : (w.state self).rejointicks = 1 := hone
      change 0 < ((w.state self).tickRejoin w.logged).disconnected
      rw [ChanState.tickRejoin,if_pos hs,(mem_sends h).1]
      exact join_registers rfl
    · cases h
  | handleMsg self m => exact hq.elim
  | jobs => cases h

theorem Quiet.not_handleMsg (hq : l.Quiet) (self : ChanId) (m : IrcMessage) : l ≠ .handleMsg self m := by
  rintro rfl
  exact hq

theorem Quiet.not_removing (hq : l.Quiet) : ¬ l.Removing := by
  cases l <;> first | exact hq.elim | exact not_false

end Call

namespace Does

theorem chan_lt (hd : Does l w w') (h : Charted w) (hq : l.Quiet) {c : ChanId} (hl : l.chan = some c) : c < w.nchans := by
  by_contra hlt
  have hs := h.fresh c (Nat.not_lt.mp hlt)
  cases hd with
  | join self hs' _ => cases hl; exact hlt (h.lt_of_has hs')
  | joinOnConnect self _ hr _ => cases hl; exact absurd hs.joinOnConnect (Nat.ne_of_gt hr)
  | waitjoin self hr _ => cases hl; exact absurd hs.waitjoin (Nat.ne_of_gt hr)
  | waitrejoin self hr _ => cases hl; exact absurd hs.waitrejoin (Nat.ne_of_gt hr)
  | part self _ _ => exact hq
  | handleMsg self env m _ _ => exact hq
  | jobs jobs => cases hl

theorem sends (hd : Does l w w') (h : w.Serves channel) (hq : l.Quiet) : Sends channel (l.emits w) w w' := by
  have hres := hd.result h.charted.toChannelInv h.charted.toAttended
  have hroster := hres.keeps hq.not_removing
  have hchannels : w'.server.channels = w.server.channels := congrArg Roster.channels hroster
  have hnicks := hd.nicks hq.not_handleMsg
  have hlogged : w'.logged = w.logged := by rw [World.logged,World.logged,(same_of_effects hd.effects).connst]
  refine ⟨h.call hd hq.not_handleMsg,(same_of_effects hd.effects).nick,hres.commands,hlogged.trans,hroster,?_,fun c => ?_,
    fun hmem => ?_⟩
  · cases hget : w.server.channels.get channel with
    | none => rw [view_of_none hget,view_of_none (hchannels ▸ hget)]
    | some c =>
      have hjoined : (w'.state c).isJoined = (w.state c).isJoined := by
        by_cases hl : l.chan = some c
        · rw [hres.own c hl,Call.quiet_isJoined hq]
        · rw [(hres.others c hl).1]
      rw [view_of_get hget,view_of_get (hchannels ▸ hget),view_eq,view_eq,hnicks,hjoined]
  · by_cases hl : l.chan = some c
    · rw [hres.own c hl]
      exact Call.quiet_disconnected hq w _
    · rw [(hres.others c hl).1]
  · obtain ⟨hlog,c,hl,hpos⟩ := Call.registers hq hmem
    refine ⟨hlogged.trans hlog,c,hd.chan_lt h.charted hq hl,?_⟩
    rw [hres.own c hl]
    exact hpos

end Does

/-! ## Logging in -/

theorem Elsewhere.sends (he : Elsewhere w w') (h : w.Serves channel) {cs : List Bytes}
    (hnick : w'.server.nick = w.server.nick) (hc : w'.ghost.commands = w.ghost.commands ++ cs)
    (hno : joinCmd channel ∉ cs) : Sends channel cs w w' where
  serves := h.congr (h.charted.happens (.other he)) (congrArg Roster.nchans he.roster) (fun c => by rw [he.chans])
    (by funext c; rw [World.nicks,he.chans]; rfl) hnick
  nick := hnick
  commands := hc
  logged := he.logged.trans
  roster := he.roster
  view := by
    have hchannels : w'.server.channels = w.server.channels := congrArg Roster.channels he.roster
    rw [World.view,World.view,hchannels]
    simp only [IrcChannel.view,he.chans]
  counts := fun c => by rw [he.state]
  joins := fun hmem => absurd hmem hno

theorem Elsewhere.trans {t : World} (h : Elsewhere w t) (h' : Elsewhere t w') : Elsewhere w w' :=
  ⟨h'.state.trans h.state,h'.chans.trans h.chans,h'.roster.trans h.roster,h'.joined.trans h.joined,h'.bot.trans h.bot,
    h'.logged.trans h.logged,h'.closings.trans h.closings,fun hl => h'.linked (h.linked hl)⟩

/-- A command that a server sends concerns no channel. -/
theorem sendRawCmd_elsewhere {cmd : IrcCommand} {name : Bytes} (hcmd : cmd.str = some name) (args : Bytes)
    (hr : IrcServer.sendRawCmd cmd (some args) w = .ok w') : Elsewhere w w' ∧ w'.server.nick = w.server.nick ∧
      w'.ghost.commands = w.ghost.commands ++ [IrcServer.rawCmd name args] ∧ w'.server.connst = w.server.connst := by
  have hout := sendRawCmd_outputs (by rw [hcmd]; rfl) hr
  have hlog := IrcServer.sendRaw_commands (IrcServer.rawCmd name args) w
  have hlinked : Linked w → Linked w' := fun hl => by
    rw [IrcServer.sendRawCmd_eq hcmd] at hr
    exact hl.sends (IrcServer.sendRaw_sends hr)
  rw [IrcServer.sendRawCmd_eq hcmd] at hr
  rw [hr] at hlog
  exact ⟨hout.elsewhere hlinked,hout.same.nick,hlog,hout.same.connst⟩

theorem login_sends (h : w.Serves channel) (hw : w.Online) (name : Option Bytes) : Sends channel [] w { w with
    server.name := name
    server.connst := 1
    server.sendcreditticks := FULLSENDCREDIT
    service.tick := (w.service.tick.unregister () .connWaitLogin 0).register () .activeTick 0 } := by
  have hstate := login_state w name
  refine ⟨h.congr (h.charted.happens (.login name hw)) rfl (fun _ => rfl) rfl rfl,rfl,(List.append_nil _).symm,fun _ => rfl,
    rfl,rfl,fun c => ?_,fun hmem => absurd hmem List.not_mem_nil⟩
  rw [hstate]

/-- What quiet calls keep is kept when the server raises that it is connected. -/
theorem raiseConnected_calls {I : World → Prop} (hcall : ∀ {l t u}, I t → Does l t u → l.Quiet → I u) (h : I w)
    (hst : 0 < w.server.connst) (hr : IrcServer.raiseConnected w = .ok w') : I w' := by
  have hstays : ∀ {l t u}, 0 < t.server.connst ∧ I t → Does l t u → l.Quiet → 0 < u.server.connst ∧ I u :=
    fun ht hd hq => ⟨(same_of_effects hd.effects).connst.symm ▸ ht.1,hcall ht.2 hd hq⟩
  have hrun : Meets I (fun _ => True) (IrcServer.raiseConnected w) := by
    refine Meets.mono (Event.raiseFrom_spec (J := fun _ t => 0 < t.server.connst ∧ I t)
      (fun _ _ _ ht _ _ => ht) ?_ (fun _ => trivial) ⟨hst,h⟩) (fun _ ⟨_,ht,_⟩ => ht.2) fun _ he => he
    intro k t slot handler ht hslot hh hid
    cases handler with
    | joinOnConnect c =>
      have hcount : 0 < t.server.connected.count () (.joinOnConnect c) 0 :=
        Event.count_pos_iff.mpr ⟨slot,List.mem_of_getElem? hslot,rfl,hh,hid⟩
      dsimp only
      cases hv : IrcChannel.joinOnConnect c t with
      | error e => trivial
      | ok v => exact hstays ht (.joinOnConnect c ht.1 hcount hv) trivial
    | connected =>
      obtain ⟨jobs,he⟩ : ∃ jobs, IrcBot.connected t = { t with bot.jobs := jobs } := IrcBot.dispatch_shape _ _ t
      dsimp only
      rw [he]
      exact hstays ht (.jobs jobs) trivial
  rw [hr] at hrun
  exact hrun

theorem raiseConnected_sends (h : w.Serves channel) (hst : 0 < w.server.connst)
    (hr : IrcServer.raiseConnected w = .ok w') : ∃ cs, Sends channel cs w w' := by
  refine raiseConnected_calls (I := fun t => ∃ cs, Sends channel cs w t) ?_ ⟨[],h.sends⟩ hst hr
  rintro l t u ⟨cs,ht⟩ hd hq
  exact ⟨_,ht.trans (hd.sends ht.serves hq)⟩

/-- A message that no channel listens to. -/
theorem raiseMsgReceived_sends (h : w.Serves channel) {env : Env} {m : IrcMessage}
    (hm : m.command ∉ IrcChannel.msgCommands) (hr : IrcServer.raiseMsgReceived env m w = .ok w') :
    ∃ cs, Sends channel cs w w' := by
  have hpasses : ∀ c t, IrcChannel.handleMsg c env m t = .ok t := by
    intro c t
    simp only [IrcChannel.msgCommands,List.mem_cons,List.not_mem_nil,or_false,not_or] at hm
    unfold IrcChannel.handleMsg
    split <;> simp_all
  have hrun : Meets (fun t => ∃ cs, Sends channel cs w t) (fun _ => True) (IrcServer.raiseMsgReceived env m w) := by
    refine raise_invariant ?_ ⟨[],h.sends⟩
    rintro handler t ⟨cs,ht⟩
    cases handler with
    | handleMsg c =>
      dsimp only
      rw [hpasses]
      exact ⟨cs,ht⟩
    | msgReceived =>
      obtain ⟨jobs,he⟩ := IrcBot.msgReceived_shape m t
      dsimp only
      rw [he]
      exact ⟨_,ht.trans (Does.sends (.jobs jobs) ht.serves trivial)⟩
  rw [hr] at hrun
  exact hrun

/-- The server gets a send queue, and waits for data. -/
theorem connConnected_elsewhere (h : Linked w) {conn : ConnId} (hc : w.server.conn = some conn)
    (hq : w.server.sendQueue = none) (hst : w.server.connst = 0)
    (hlink : (w.conns conn).connecting = 0 ∧ (w.conns conn).tlsConnectSt = .none) :
    Elsewhere w (IrcServer.connConnected conn w) ∧ (IrcServer.connConnected conn w).server.nick = w.server.nick ∧
      (IrcServer.connConnected conn w).ghost.commands = w.ghost.commands ∧
      (IrcServer.connConnected conn w).server.connst = -1 := by
  have htick : ¬ TickHandler.connWaitLogin.IsTimer := not_false
  have hl := h.establish hc hq hlink
  rw [IrcServer.connConnected,if_pos hc] at hl ⊢
  refine ⟨⟨state_of_timers rfl rfl rfl fun _ => count_register_timer _ htick,rfl,rfl,rfl,rfl,?_,rfl,fun _ => hl⟩,rfl,rfl,rfl⟩
  change decide (0 < (-1 : ℤ)) = decide (0 < w.server.connst)
  rw [hst]
  rfl

/-- The server connects, and the connection is established. -/
theorem establish_elsewhere (h : Linked w) (hconn : w.server.conn = none) (env : Env) {conn : ConnId}
    (hc : (IrcServer.connect env w).2.server.conn = some conn)
    (hr : Connection.raiseConnected conn ((IrcServer.connect env w).2.setConn conn fun c => { c with connecting := 0 }) =
      .ok w') : Elsewhere w w' ∧ w'.server.nick = w.server.nick ∧ w'.ghost.commands = w.ghost.commands ∧
        w'.server.connst = -1 := by
  have hqueue : w.server.sendQueue.isSome = false := h.queue hconn
  have hl := h.connect env hconn
  have hopen : Elsewhere w (IrcServer.connect env w).2 ∧ (IrcServer.connect env w).2.server.nick = w.server.nick ∧
      (IrcServer.connect env w).2.ghost.commands = w.ghost.commands ∧
      (IrcServer.connect env w).2.server.sendQueue = none ∧
      ((IrcServer.connect env w).2.conns conn).tlsConnectSt = .none ∧
      (IrcServer.connect env w).2.server.connst = w.server.connst := by
    rcases connect_shape env hconn with he | ⟨fd,conns,_,hfresh,he⟩
    · rw [he,hconn] at hc
      cases hc
    · have htick : ¬ (TickHandler.checkPendingConnection w.nconns).IsTimer := not_false
      rw [he] at hc hl ⊢
      obtain rfl : w.nconns = conn := Option.some.inj hc
      refine ⟨⟨state_of_timers rfl rfl rfl fun _ => count_register_timer _ htick,rfl,rfl,rfl,rfl,rfl,rfl,fun _ => hl⟩,rfl,rfl,
        ?_,hfresh.tlsConnectSt,rfl⟩
      exact Option.isSome_eq_false_iff.mp hqueue |> Option.isNone_iff_eq_none.mp
  obtain ⟨helse,hnick,hcommands,hq,htls,hst⟩ := hopen
  generalize (IrcServer.connect env w).2 = u at hc hr hl helse hnick hcommands hq htls hst
  have htweak : Connection.Tweaked false (u.conns conn) { u.conns conn with connecting := 0 } :=
    ⟨rfl,rfl,rfl,rfl,rfl,rfl,rfl,rfl,rfl,Or.inl,.inr ⟨rfl,fun hne => absurd rfl hne⟩⟩
  have hv : Linked (u.setConn conn fun c => { c with connecting := 0 }) := by
    refine hl.setConn conn _ (fun hc => ?_) id
    rw [hq]
    exact (hl.attached_eq hc (by rw [hq])).tweak htweak
  rw [Connection.raiseConnected_own hv hc] at hr
  have hlog : Linked ((u.setConn conn fun c => { c with connecting := 0 }).log conn .connected) := { hv with }
  have hnote : Elsewhere u ((u.setConn conn fun c => { c with connecting := 0 }).log conn .connected) :=
    ⟨rfl,rfl,rfl,rfl,rfl,rfl,rfl,fun _ => hlog⟩
  have hzero : u.server.connst = 0 := hst.trans (h.connst hqueue)
  obtain ⟨hstart,hnick',hcommands',hone⟩ :=
    connConnected_elsewhere hlog hc hq hzero (by simp [World.setConn,World.log,htls])
  cases hr
  exact ⟨helse.trans (hnote.trans hstart),hnick'.trans hnick,hcommands'.trans hcommands,hone⟩

/-- The login data. -/
theorem sendLogin_elsewhere (hst : w.server.connst = -1) {env : Env} (hr : IrcServer.sendLogin env w = .ok w') :
    ∃ args, Elsewhere w w' ∧ w'.server.nick = w.server.nick ∧ w'.ghost.commands = w.ghost.commands ++
      [IrcServer.rawCmd (lit "NICK") w.server.nick,IrcServer.rawCmd (lit "USER") args] ∧ w'.server.connst = -2 := by
  unfold IrcServer.sendLogin at hr
  obtain ⟨t,ht,hr⟩ := ok_of_bind hr
  obtain ⟨hnick,hn,hc,hst'⟩ := sendRawCmd_elsewhere rfl _ ht
  obtain ⟨names,_,hr⟩ := ok_of_bind hr
  obtain ⟨u,hu,hr⟩ := ok_of_bind hr
  cases hr
  obtain ⟨huser,hn',hc',hst''⟩ := sendRawCmd_elsewhere rfl _ hu
  have hone : u.server.connst = -1 := hst''.trans (hst'.trans hst)
  have hlast : Elsewhere u { u with server.connst := -2 } := by
    refine ⟨rfl,rfl,rfl,rfl,rfl,?_,rfl,fun hl => hl.received (.login u hone)⟩
    change decide (0 < (-2 : ℤ)) = decide (0 < u.server.connst)
    rw [hone]
    rfl
  refine ⟨snprintf 512 (names.1 ++ lit " 0 * :" ++ names.2),hnick.trans (huser.trans hlast),hn'.trans hn,?_,rfl⟩
  change u.ghost.commands = _
  rw [hc',hc,List.append_assoc]
  rfl

/-- The next connection, up to the login data. -/
theorem login_data_sends (h : w.Serves channel) (hconn : w.server.conn = none) {env : Env} {conn : ConnId} {t : World}
    (hc : (IrcServer.connect env w).2.server.conn = some conn)
    (ht : Connection.raiseConnected conn ((IrcServer.connect env w).2.setConn conn fun c => { c with connecting := 0 }) =
      .ok t) (hr : IrcServer.sendLogin env t = .ok w') : ∃ cs, Sends channel cs w w' ∧ w'.server.connst = -2 := by
  obtain ⟨hopen,hnick,hcommands,hst⟩ := establish_elsewhere h.charted.toLinked hconn env hc ht
  obtain ⟨args,hlogin,hnick',hcommands',hst'⟩ := sendLogin_elsewhere hst hr
  refine ⟨_,(hopen.trans hlogin).sends h (hnick'.trans hnick) (hcommands'.trans (by rw [hcommands])) ?_,hst'⟩
  simp only [List.mem_cons,List.not_mem_nil,or_false,not_or]
  exact ⟨rawCmd_ne rfl rfl (by decide) _ _,rawCmd_ne rfl rfl (by decide) _ _⟩

end LibIrcBot
