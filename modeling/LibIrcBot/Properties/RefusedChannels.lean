import LibIrcBot.Properties.MessageSafety
import LibIrcBot.Protocol.MessageStream
import LibIrcBot.System.Deliveries

/-! # Refused channels

A numeric reply has the own nick as its first parameter. The handler of `403` takes that
parameter for the name of the channel.
-/
namespace LibIrcBot
open CString Effects Relation Outcome Framing

variable {w w' t : World} {m : IrcMessage} {chan : ChanId} (env : Env)

namespace IrcChannel

theorem handleMsg_passes (hcmd : m.command = .ERR_NOSUCHCHANNEL) (hf : ¬ Fails chan m w) :
    handleMsg chan env m w = .ok w := by
  rw [handleMsg,hcmd]
  dsimp only
  rw [handleNosuchchannel]
  split
  · next hlen =>
    have hget : m.params[0]? = some m.params[0] := List.getElem?_eq_getElem (Nat.pos_of_ne_zero hlen)
    rw [hget]
    change (if m.params[0] = (w.chans chan).name then _ else _) = _
    rw [if_neg fun he : m.params[0] = (w.chans chan).name => hf ⟨hcmd,hget.trans (congrArg some he)⟩]
    rfl
  · rfl

end IrcChannel

/-- A message that makes a channel of the table fail ends with the use of its freed name. -/
theorem raiseMsgReceived_fails (hc : Charted w) (hs : w.Has chan) (hf : IrcChannel.Fails chan m w) :
    ∃ e, IrcServer.raiseMsgReceived env m w = .error e ∧ e.1 = .wildPointer := by
  have hcmd : m.command ∈ IrcChannel.msgCommands := hf.1 ▸ by decide
  refine IrcServer.raiseMsgReceived_faults env hc.toChannelInv hs hcmd (fun self jobs hl => ?_) (fun jobs => ?_)
  · by_cases hfails : IrcChannel.Fails self m w
    · have hself := hc.has_of_listens hcmd hl
      exact Or.inr (handleMsg_fails (w := { w with bot.jobs := jobs }) ⟨hc.joined,hc.failed⟩ hself env hfails)
    · exact Or.inl (IrcChannel.handleMsg_passes env hf.1 hfails)
  · exact handleMsg_fails (w := { w with bot.jobs := jobs }) ⟨hc.joined,hc.failed⟩ hs env hf

/-- A message that makes no channel fail reaches the bot at most. -/
theorem raiseMsgReceived_passes (hi : ChannelInv w) (hcmd : m.command = .ERR_NOSUCHCHANNEL)
    (hno : ∀ d, w.Has d → ¬ IrcChannel.Fails d m w) :
    ∃ jobs, IrcServer.raiseMsgReceived env m w = .ok { w with bot.jobs := jobs } := by
  have hraise : ∃ (w' : World) (l : ℕ), IrcServer.raiseMsgReceived env m w = .ok w' ∧
      (∃ jobs, w' = { w with bot.jobs := jobs }) ∧ w'.server.msgReceived.handlers[l]? = none := by
    refine Event.raiseFrom_runs (J := fun (_ : ℕ) (t : World) => ∃ jobs, t = { w with bot.jobs := jobs }) ?_ ?_ ?_
      (Nat.le_add_right w.server.msgReceived.size 0) ⟨w.bot.jobs,rfl⟩
    · exact fun _ _ _ h _ _ => h
    · rintro k t slot handler ⟨jobs,rfl⟩ hslot hh hid
      cases handler with
      | handleMsg d =>
        have hlistens : IrcChannel.Listens d m w :=
          Event.count_pos_iff.mpr ⟨slot,List.mem_of_getElem? hslot,rfl,hh,hid⟩
        have hd := hi.has_of_listens (hcmd ▸ by decide) hlistens
        exact ⟨_,IrcChannel.handleMsg_passes env hcmd fun hf => hno d hd hf,jobs,rfl⟩
      | msgReceived =>
        obtain ⟨jobs',hshape⟩ := IrcBot.msgReceived_shape m { w with bot.jobs := jobs }
        exact ⟨_,rfl,jobs',hshape⟩
    · rintro k t ⟨jobs,rfl⟩
      exact Nat.le_refl _
  obtain ⟨w',l,hr,⟨jobs,rfl⟩,_⟩ := hraise
  exact ⟨jobs,hr⟩

/-- The message reads the name of a destroyed channel if its first parameter names one of the table,
and else changes nothing of the table. -/
theorem handleMessage_nosuchchannel (hc : Charted w) (hcmd : m.command = .ERR_NOSUCHCHANNEL) :
    ((∃ d, w.Has d ∧ IrcChannel.Fails d m w) ∧
        ∃ e, IrcServer.handleMessage env m w = .error e ∧ e.1 = .wildPointer) ∨
      ((∀ d, w.Has d → ¬ IrcChannel.Fails d m w) ∧
        ∃ w', IrcServer.handleMessage env m w = .ok w' ∧ w'.server.channels = w.server.channels) := by
  have hlog := hc.logged m
  have hcommand : IrcServer.handleCommand m (IrcServer.logMessage m w) = .ok (IrcServer.logMessage m w) := by
    rw [IrcServer.handleCommand,hcmd]
  rw [handleMessage_raises hcommand]
  by_cases hex : ∃ d, w.Has d ∧ IrcChannel.Fails d m w
  · obtain ⟨d,hs,hf⟩ := hex
    exact Or.inl ⟨⟨d,hs,hf⟩,raiseMsgReceived_fails env hlog hs hf⟩
  · obtain ⟨jobs,hr⟩ := raiseMsgReceived_passes env hlog.toChannelInv hcmd fun d hs hf => hex ⟨d,hs,hf⟩
    exact Or.inr ⟨fun d hs hf => hex ⟨d,hs,hf⟩,_,hr,rfl⟩

def nosuchchannelReply (srv n c text : Bytes) : Bytes :=
  COLON :: (srv ++ SPACE :: (lit "403" ++ SPACE :: (n ++ SPACE :: (c ++ SPACE :: COLON :: text))))

theorem reply_command {srv : Bytes} (n c text : Bytes) (hsrv : SPACE ∉ srv) :
    (IrcMessage.ofLine (nosuchchannelReply srv n c text)).command = .ERR_NOSUCHCHANNEL := by
  have hwords : (IrcMessage.splitPrefix (nosuchchannelReply srv n c text)).2 =
      lit "403" ++ SPACE :: (n ++ SPACE :: (c ++ SPACE :: COLON :: text)) := by
    rw [nosuchchannelReply,IrcMessage.splitPrefix,List.head?_cons,if_pos rfl,List.tail_cons,
      IrcMessage.after_append hsrv]
  unfold IrcMessage.ofLine
  dsimp only
  rw [hwords,IrcMessage.word_append (by decide)]
  decide

/-- The channel has failed, has nothing registered any more and has left the table; all
other channels are as they were. -/
structure Refused (chan : ChanId) (w w' : World) : Prop where
  failed : w'.ghost.removed = w.ghost.removed ++ [chan]
  timers : (w'.state chan).Silent
  gone : w'.server.channels.get (w.chans chan).name = none
  table : ∀ name, name ≠ (w.chans chan).name → w'.server.channels.get name = w.server.channels.get name
  others : ∀ d, d ≠ chan → w'.state d = w.state d ∧ w'.chans d = w.chans d

/-- In no state of any run does the reply refuse a channel of the table: either the handler
for `403` does not take the channel for the one that is meant, or a channel is destroyed
whose name is used after that. -/
theorem never_refused (h : w.Reached fun _ _ => True) (srv n text : Bytes) {c : Bytes}
    (hget : w.server.channels.get c = some chan) (hsrv : SPACE ∉ srv)
    (hline : PairFree CR LF (nosuchchannelReply srv n c text)) :
    ∃ m, IrcMessage.parse (nosuchchannelReply srv n c text) = some m ∧
      ¬ ∃ w', IrcServer.handleMessage env m w = .ok w' ∧ Refused chan w w' := by
  have hc : Charted w := (World.Reached.induct (I := fun _ => True) (fun _ _ => trivial) (fun _ _ _ _ _ _ _ => trivial) h).1
  have hparse := IrcMessage.parse_eq hline
  rw [if_neg (show nosuchchannelReply srv n c text ≠ [] from List.cons_ne_nil _ _)] at hparse
  refine ⟨_,hparse,?_⟩
  rintro ⟨w',hr,href⟩
  rcases handleMessage_nosuchchannel env hc (reply_command n c text hsrv) with ⟨_,e,he,_⟩ | ⟨_,t,ht,hsame⟩
  · cases hr.symm.trans he
  · obtain rfl : w' = t := Except.ok.inj (hr.symm.trans ht)
    have hgone := href.gone
    rw [(hc.name_of_get hget).2,hsame,hget] at hgone
    cases hgone

def World.renamed : World :=
  after (Label.iteration (.io [] [3]) 1 2 (Env.delivering ⟨lit ":n NICK #c\x0d\n",by decide,by decide⟩)) joined

/-- A bot with the name of the channel as its nick reaches the channel, and then its freed name. -/
theorem never_refused_renamed : World.renamed.server.nick = lit "#c" ∧
    ∃ m, IrcMessage.parse (nosuchchannelReply (lit "s") (lit "#c") (lit "#c") (lit "x")) = some m ∧
      ¬ ∃ w', IrcServer.handleMessage .failing m World.renamed = .ok w' ∧ Refused 0 World.renamed w' := by
  have hjoined : World.joined.Reachable := World.after_reachable World.loggedIn_reachable (by decide +kernel)
  have hr : World.renamed.Reachable := World.after_reachable hjoined (by decide +kernel)
  have hget : World.renamed.server.channels.get (lit "#c") = some 0 := by decide +kernel
  exact ⟨by decide +kernel,never_refused .failing hr.reached (lit "s") (lit "#c") (lit "x") hget (by decide) (by decide)⟩

/-- The bot is `n`, and the server refuses the channel `#c` of its table: the channel stays. -/
theorem refused_joined : ∃ m, IrcMessage.parse (nosuchchannelReply (lit "s") (lit "n") (lit "#c") (lit "x")) = some m ∧
    World.joined.server.nick = lit "n" ∧ World.joined.server.channels.get (lit "#c") = some 0 ∧
    ¬ ∃ w', IrcServer.handleMessage .failing m World.joined = .ok w' ∧ Refused 0 World.joined w' := by
  refine ⟨⟨some (lit "s"),lit "403",some (lit "n #c :x"),[lit "n",lit "#c",lit "x"],.ERR_NOSUCHCHANNEL⟩,by decide,
    by decide +kernel,by decide +kernel,?_⟩
  rintro ⟨w',hr,href⟩
  have hstays : (World.result (IrcServer.handleMessage .failing
      ⟨some (lit "s"),lit "403",some (lit "n #c :x"),[lit "n",lit "#c",lit "x"],.ERR_NOSUCHCHANNEL⟩
      World.joined)).server.channels.get (World.joined.chans 0).name = some 0 := by decide +kernel
  have hgone := href.gone
  rw [hr] at hstays
  rw [World.result,hgone] at hstays
  cases hstays

end LibIrcBot
