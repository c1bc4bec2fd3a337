import LibIrcBot.Parties.Naming
import LibIrcBot.Parties.Steps

/-! # Agreement on the nick

Whatever the bot does besides, its nick and the commands that ask for one are a copy that changes before it is
granted. The two parties follow the steps of such a copy, so that they agree when nothing is on its way.
-/
namespace LibIrcBot
open CString Effects Relation Outcome Transitions

variable {w w' : World} {l : Call}

/-! ## Wishes -/

theorem wish_rawCmd_ne {name : Bytes} (h : name.length = 4) (hne : name ≠ lit "NICK") (args : Bytes) :
    wish (IrcServer.rawCmd name args) = none := by
  refine if_neg fun he => hne ?_
  have htake := congrArg (List.take 4) he
  rw [List.take_take] at htake
  rw [← take_rawCmd name args h]
  exact htake

theorem wish_rawCmd {nick : Bytes} (h : ValidNick nick) : wish (IrcServer.rawCmd (lit "NICK") nick) = some nick := by
  have hcmd : IrcServer.rawCmd (lit "NICK") nick = lit "NICK " ++ (nick ++ [CR,LF]) := by
    have hlen := h.2.1
    have hshort : (lit "NICK" ++ [SPACE] ++ nick ++ [CR,LF]).length ≤ 513 - 1 := by
      simp only [List.length_append,List.length_cons,List.length_nil,show (lit "NICK").length = 4 from rfl]
      omega
    rw [IrcServer.rawCmd,snprintf,List.take_of_length_le hshort,List.append_assoc (lit "NICK" ++ [SPACE])]
    rfl
  have hdrop : (lit "NICK " ++ (nick ++ [CR,LF])).drop 5 = nick ++ [CR,LF] := List.drop_left' rfl
  have htake : (lit "NICK " ++ (nick ++ [CR,LF])).take 5 = lit "NICK " := List.take_left' rfl
  have hlen : (lit "NICK " ++ (nick ++ [CR,LF])).length - 7 = nick.length := by
    rw [List.length_append,List.length_append,show (lit "NICK ").length = 5 from rfl,show [CR,LF].length = 2 from rfl]
    omega
  rw [wish,hcmd,if_pos htake,hdrop,hlen,List.take_left]

/-- The bot does something that leaves it with a nick, and asks for some nicks. -/
structure Names (nick : Bytes) (asks : List Bytes) (w w' : World) : Prop where
  charted : Charted w'
  nick : w'.server.nick = nick
  conn : w'.server.conn = w.server.conn
  up : w.server.connst ≠ 0 → w'.server.connst ≠ 0
  wishes : ∃ cs, w'.ghost.commands = w.ghost.commands ++ cs ∧ cs.filterMap wish = asks

abbrev Aside (w w' : World) : Prop := Names w.server.nick [] w w'

theorem Aside.refl (h : Charted w) : Aside w w := ⟨h,rfl,rfl,id,[],(List.append_nil _).symm,rfl⟩

theorem Names.trans {t : World} {x y : Bytes} {xs ys : List Bytes} (h : Names x xs w t) (h' : Names y ys t w') :
    Names y (xs ++ ys) w w' := by
  obtain ⟨cs,hc,hcs⟩ := h.wishes
  obtain ⟨ds,hd,hds⟩ := h'.wishes
  refine ⟨h'.charted,h'.nick,h'.conn.trans h.conn,fun hup => h'.up (h.up hup),cs ++ ds,?_,?_⟩
  · rw [hd,hc,List.append_assoc]
  · rw [List.filterMap_append,hcs,hds]

theorem Names.aside {t : World} {x : Bytes} {xs : List Bytes} (h : Names x xs w t) (h' : Aside t w') : Names x xs w w' := by
  have hall := h.trans h'
  rw [h.nick,List.append_nil] at hall
  exact hall

theorem Aside.trans {t : World} (h : Aside w t) (h' : Aside t w') : Aside w w' := Names.aside h h'

/-- No channel sends a command that asks for a nick. -/
theorem Call.emits_wishes (l : Call) (w : World) : (l.emits w).filterMap wish = [] := by
  have hsends : ∀ {name : Bytes}, name.length = 4 → name ≠ lit "NICK" → ∀ args logged,
      (IrcServer.sends name args logged).filterMap wish = [] := by
    intro name hlen hne args logged
    unfold IrcServer.sends
    split
    · rw [List.filterMap_cons,wish_rawCmd_ne hlen hne]
      rfl
    · rfl
  cases l with
  | handleMsg self m => rfl
  | jobs => rfl
  | _ =>
    simp only [Call.emits]
    first
    | exact hsends rfl (by decide) _ _
    | split
      · first | rfl | exact hsends rfl (by decide) _ _
      · first | rfl | exact hsends rfl (by decide) _ _

theorem Does.aside (hd : Does l w w') (h : Charted w) : Aside w w' := by
  have hres := hd.result h.toChannelInv h.toAttended
  have hsame := same_of_effects hd.effects
  exact ⟨h.call hd,hsame.nick,hsame.conn,fun hup => hsame.connst ▸ hup,l.emits w,hres.commands,l.emits_wishes w⟩

/-- A step that touches no channel, the nick, the connection and no command. -/
theorem Elsewhere.aside (he : Elsewhere w w') (h : Charted w) (hnick : w'.server.nick = w.server.nick)
    (hconn : w'.server.conn = w.server.conn) (hst : w'.server.connst = w.server.connst)
    (hc : w'.ghost.commands = w.ghost.commands) : Aside w w' :=
  ⟨h.happens (.other he),hnick,hconn,fun hup => hst ▸ hup,[],hc.trans (List.append_nil _).symm,rfl⟩

theorem unregister_aside (h : Charted w) {t : TickHandler} (ht : ¬ t.IsTimer) :
    Aside w { w with service.tick := w.service.tick.unregister () t 0 } := by
  refine Elsewhere.aside ⟨state_of_timers rfl rfl rfl fun _ => count_unregister_timer _ ht,rfl,rfl,rfl,rfl,rfl,rfl,
    fun hl => ?_⟩ h rfl rfl rfl rfl
  exact { hl with ticks := hl.ticks.unregister () t 0 }

/-- A command of the server itself. -/
theorem sendRaw_names (h : Charted w) {command : Bytes} (hr : IrcServer.sendRaw (some command) w = .ok w') :
    Names w.server.nick (wish command).toList w w' := by
  have hout := sendRaw_outputs hr
  have he := hout.elsewhere fun hl => hl.sends (IrcServer.sendRaw_sends hr)
  have hc := IrcServer.sendRaw_commands command w
  rw [hr] at hc
  refine ⟨h.happens (.other he),hout.same.nick,hout.same.conn,fun hup => hout.same.connst ▸ hup,_,hc,?_⟩
  rw [List.filterMap_cons]
  cases wish command <;> rfl

theorem sendRawCmd_names (h : Charted w) {cmd : IrcCommand} {name : Bytes} (hcmd : cmd.str = some name) (args : Bytes)
    (hr : IrcServer.sendRawCmd cmd (some args) w = .ok w') :
    Names w.server.nick (wish (IrcServer.rawCmd name args)).toList w w' :=
  sendRaw_names h ((IrcServer.sendRawCmd_eq hcmd args w).symm.trans hr)

theorem sendRawCmd_aside (h : Charted w) {cmd : IrcCommand} {name : Bytes} (hcmd : cmd.str = some name)
    (hlen : name.length = 4) (hne : name ≠ lit "NICK") (args : Bytes)
    (hr : IrcServer.sendRawCmd cmd (some args) w = .ok w') : Aside w w' := by
  have hsend := sendRawCmd_names h hcmd args hr
  rw [wish_rawCmd_ne hlen hne] at hsend
  exact hsend

/-- The next command of the send queue goes to the connection. -/
theorem sendRaw_aside (h : Charted w) (hr : IrcServer.sendRaw none w = .ok w') : Aside w w' := by
  have hout := sendRaw_outputs hr
  have hc := IrcServer.sendNext_commands w
  rw [show IrcServer.sendNext w = .ok w' from hr] at hc
  exact (hout.elsewhere fun hl => hl.sends (IrcServer.sendRaw_sends hr)).aside h hout.same.nick hout.same.conn
    hout.same.connst hc

/-- The server sets its nick. -/
theorem nick_names (h : Charted w) (nick : Bytes) : Names nick [] w { w with server.nick := nick } :=
  ⟨h.happens (.other ⟨rfl,rfl,rfl,rfl,rfl,rfl,rfl,fun hl => { hl with }⟩),rfl,rfl,id,[],(List.append_nil _).symm,rfl⟩

/-! ## What is not about the nick -/

theorem addChannel_aside (h : Charted w) {name : Bytes} (hget : w.server.channels.get name = none) :
    Aside w (IrcServer.addChannel name w).2 := by
  refine ⟨h.create hget,?_,?_,?_,[],?_,rfl⟩ <;> rw [addChannel_new hget]
  · rfl
  · rfl
  · exact id
  · exact (List.append_nil _).symm

theorem join_aside (h : Charted w) {channel : Bytes} (hr : IrcServer.join channel w = .ok w') : Aside w w' := by
  unfold IrcServer.join at hr
  cases hget : w.server.channels.get channel with
  | some c =>
    rw [hget] at hr
    have hhas : w.Has c := by
      rw [World.Has,(h.name_of_get hget).2]
      exact hget
    exact (Does.join c hhas hr).aside h
  | none =>
    rw [hget] at hr
    have hnew := addChannel_aside h hget
    exact hnew.trans ((Does.join w.nchans (addChannel_creates hget).has hr).aside hnew.charted)

theorem part_aside (h : Charted w) {channel : Bytes} (hr : IrcServer.part channel w = .ok w') : Aside w w' := by
  cases hget : w.server.channels.get channel with
  | some c =>
    have hname := (h.name_of_get hget).2
    have hhas : w.Has c := by
      rw [World.Has,hname]
      exact hget
    exact (Does.part c hhas (hname.symm ▸ hr)).aside h
  | none =>
    rw [IrcServer.part,hget] at hr
    cases hr
    exact .refl h

theorem raiseConnected_aside (h : Charted w) (hst : 0 < w.server.connst) (hr : IrcServer.raiseConnected w = .ok w') :
    Aside w w' :=
  raiseConnected_calls (I := Aside w) (fun ht hd _ => ht.trans (hd.aside ht.charted)) (.refl h) hst hr

theorem raiseMsgReceived_aside (h : Charted w) {env : Env} {m : IrcMessage}
    (hr : IrcServer.raiseMsgReceived env m w = .ok w') : Aside w w' := by
  have hrun : Meets (Aside w) (fun _ => True) (IrcServer.raiseMsgReceived env m w) := by
    refine Meets.mono (Event.raiseFrom_spec (J := fun _ t => Aside w t) (fun _ _ _ ht _ _ => ht) ?_ (fun _ => trivial)
      (Aside.refl h)) (fun _ ⟨_,ht,_⟩ => ht) fun _ he => he
    intro k t slot handler ht hslot hh hid
    cases handler with
    | handleMsg c =>
      have hlistens : IrcChannel.Listens c m t := Event.count_pos_iff.mpr ⟨slot,List.mem_of_getElem? hslot,rfl,hh,hid⟩
      dsimp only
      cases hv : IrcChannel.handleMsg c env m t with
      | error e => trivial
      | ok v => exact ht.trans ((Does.handleMsg c env m hlistens hv).aside ht.charted)
    | msgReceived =>
      obtain ⟨jobs,he⟩ := IrcBot.msgReceived_shape m t
      dsimp only
      rw [he]
      exact ht.trans (Does.aside (.jobs jobs) ht.charted)
  rw [hr] at hrun
  exact hrun

/-- A message that is not about nicks, and does not end a login. -/
theorem handleCommand_aside (h : Charted w) {m : IrcMessage} (hnick : m.command ≠ .MSG_NICK)
    (huse : m.command ≠ .ERR_NICKNAMEINUSE) (hinfo : m.command ≠ .RPL_MYINFO)
    (hr : IrcServer.handleCommand m w = .ok w') : Aside w w' := by
  unfold IrcServer.handleCommand at hr
  split at hr
  · next he => exact absurd he hinfo
  · next he => exact absurd he huse
  · cases hraw : m.rawParams with
    | none =>
      rw [hraw] at hr
      cases hr
    | some args =>
      rw [hraw] at hr
      exact sendRawCmd_aside h rfl rfl (by decide) args hr
  · next he => exact absurd he hnick
  · unfold IrcServer.handleJoin at hr
    split at hr
    · obtain ⟨own,_,hr⟩ := ok_of_bind hr
      split at hr
      · obtain ⟨chan,_,hr⟩ := ok_of_bind hr
        split at hr
        · cases hr
          exact .refl h
        · next hget =>
          cases hr
          exact addChannel_aside h hget
      · cases hr
        exact .refl h
    · cases hr
      exact .refl h
  · cases hr
    exact .refl h

theorem logMessage_aside (h : Charted w) (m : IrcMessage) : Aside w (IrcServer.logMessage m w) :=
  ⟨h.logged m,rfl,rfl,id,[],(List.append_nil _).symm,rfl⟩

theorem handleMessage_aside (h : Charted w) {env : Env} {m : IrcMessage} (hnick : m.command ≠ .MSG_NICK)
    (huse : m.command ≠ .ERR_NICKNAMEINUSE) (hinfo : m.command ≠ .RPL_MYINFO)
    (hr : IrcServer.handleMessage env m w = .ok w') : Aside w w' := by
  have hlog := logMessage_aside h m
  obtain ⟨t,ht,hr⟩ := ok_of_bind (r := IrcServer.handleCommand m (IrcServer.logMessage m w)) hr
  have hcommand := handleCommand_aside hlog.charted hnick huse hinfo ht
  exact hlog.trans (hcommand.trans (raiseMsgReceived_aside hcommand.charted hr))

/-- A line of a message asks for no nick. -/
theorem wish_msgHeader (recipient : Bytes) (action : Bool) (rest : Bytes) :
    wish (IrcServer.msgHeader recipient action ++ rest) = none := by
  refine if_neg fun he => ?_
  have htake : (IrcServer.msgHeader recipient action ++ rest).take 5 = lit "PRIVM" := by
    simp only [IrcServer.msgHeader,List.append_assoc]
    rfl
  exact absurd (htake.symm.trans he) (by decide)

theorem sendChunks_aside (h : Charted w) {recipient : Bytes} {action : Bool} {maxchunk n : ℕ} {message : Bytes}
    (hr : IrcServer.sendChunks (IrcServer.msgHeader recipient action) action maxchunk n message w = .ok w') : Aside w w' := by
  induction n generalizing w message with
  | zero =>
    rw [IrcServer.sendChunks] at hr
    split at hr
    · cases hr
      exact .refl h
    · cases hr
  | succ n ih =>
    rw [IrcServer.sendChunks] at hr
    split at hr
    · cases hr
      exact .refl h
    · dsimp only at hr
      generalize (if message.length > maxchunk then maxchunk else message.length) = chunksz at hr
      split at hr
      · cases hr
      · obtain ⟨t,ht,hr⟩ := ok_of_bind hr
        have hline := sendRaw_names h ht
        rw [List.append_assoc,wish_msgHeader] at hline
        exact Aside.trans hline (ih hline.charted hr)

theorem sendMsg_aside (h : Charted w) {recipient message : Bytes} {action : Bool}
    (hr : (IrcServer.sendMsg recipient message action w).map Prod.snd = .ok w') : Aside w w' := by
  unfold IrcServer.sendMsg at hr
  split at hr
  · cases hr
    exact .refl h
  · split at hr
    · cases hr
      exact .refl h
    · dsimp only at hr
      split at hr
      · cases hr
      · cases ht : IrcServer.sendChunks (IrcServer.msgHeader recipient action) action
            (IrcServer.RAWMSGSZ - (IrcServer.msgHeader recipient action).length - 3 - if action then 1 else 0)
            message.length message w with
        | error e =>
          rw [ht] at hr
          cases hr
        | ok t =>
          rw [ht] at hr
          cases hr
          exact sendChunks_aside h ht

/-! ## What is about the nick -/

theorem setNick_names (h : Charted w) {nick : Bytes} (hv : ValidNick nick) (hr : IrcServer.setNick nick w = .ok w') :
    w' = w ∧ w.server.nick = nick ∨ Names nick (if w.logged then [nick] else []) w w' := by
  unfold IrcServer.setNick at hr
  split at hr
  · have hset := nick_names h nick
    dsimp only at hr
    split at hr
    · next hst =>
      have hsend := hset.trans (sendRawCmd_names hset.charted rfl nick hr)
      rw [wish_rawCmd hv] at hsend
      rw [if_pos (decide_eq_true hst)]
      exact .inr hsend
    · next hst =>
      cases hr
      rw [if_neg (by simpa using hst)]
      exact .inr hset
  · next hne =>
    cases hr
    exact .inl ⟨rfl,(not_not.mp hne).symm⟩

namespace NickNotice

def word : NickNotice → Option (Word Bytes)
  | welcome _ nick => some (.granted none nick)
  | changed old _ new => some (.granted (some old) new)
  | inUse _ => some .refused
  | other _ _ _ => none

def Valid : NickNotice → Prop
  | changed old _ new => ValidNick old ∧ ValidNick new
  | other old _ _ => ValidNick old
  | _ => True

end NickNotice

def longer (nick : Bytes) : Bytes := nick ++ lit "_"

theorem longer_valid {nick : Bytes} (h : ValidNick nick) (hlen : nick.length < 126) : ValidNick (longer nick) := by
  refine ⟨List.append_ne_nil_of_left_ne_nil h.1 _,?_,fun c hc => ?_⟩
  · rw [longer,List.length_append]
    exact hlen
  · rcases List.mem_append.mp hc with hc | hc
    · exact h.2.2 c hc
    · rw [List.mem_singleton.mp hc]
      decide

theorem handleNick_names (h : Charted w) {old host new : Bytes} (hv : ValidNick old) {m : IrcMessage}
    (hm : m.msgPrefix = some (userPrefix old host)) (hp : m.params = [new]) (hr : IrcServer.handleNick m w = .ok w') :
    Names (if w.server.nick = old then new else w.server.nick) [] w w' := by
  rw [IrcServer.handleNick,hp,if_pos (show [new].length ≠ 0 by simp),ownPrefix_user hv hm] at hr
  change (if decide (old = w.server.nick) = true then _ else _) = _ at hr
  by_cases ho : old = w.server.nick
  · rw [if_pos (decide_eq_true ho)] at hr
    cases hr
    rw [if_pos ho.symm]
    exact nick_names h new
  · rw [if_neg (by simp [ho])] at hr
    cases hr
    rw [if_neg fun he => ho he.symm]
    exact Aside.refl h

/-- The bot hears a notice as a copy hears the word of it. -/
theorem deliver_names (h : Charted w) (hup : w.server.connst ≠ 0) (hown : ValidNick w.server.nick) {n : NickNotice}
    (hv : n.Valid) (hclear : n.Clear w.server.nick) {env : Env}
    (hr : IrcServer.handleMessage env n.message w = .ok w') :
    Names ((n.word.map fun word => word.hear longer w.server.nick).getD w.server.nick)
      ((n.word.map fun word => word.asks longer w.server.nick).getD []) w w' := by
  have hlog := logMessage_aside h n.message
  obtain ⟨t,ht,hr⟩ := ok_of_bind (r := IrcServer.handleCommand n.message (IrcServer.logMessage n.message w)) hr
  suffices hcommand : Names ((n.word.map fun word => word.hear longer w.server.nick).getD w.server.nick)
      ((n.word.map fun word => word.asks longer w.server.nick).getD []) (IrcServer.logMessage n.message w) t by
    have hall := Names.trans hlog hcommand
    rw [List.nil_append] at hall
    exact hall.aside (raiseMsgReceived_aside hcommand.charted hr)
  generalize IrcServer.logMessage n.message w = u at ht hlog
  have hsame : u.server.nick = w.server.nick := hlog.nick
  cases n with
  | welcome name nick =>
    change IrcServer.raiseConnected _ = _ at ht
    have hlogin : Aside u _ := ⟨hlog.charted.happens (.login (some name) (hlog.charted.toLinked.online (hlog.up hup))),rfl,rfl,
      fun _ => Int.one_ne_zero,[],(List.append_nil _).symm,rfl⟩
    have hdone := hlogin.trans (raiseConnected_aside hlogin.charted Int.one_pos ht)
    exact hsame ▸ hdone
  | changed old host new =>
    have hnick := handleNick_names hlog.charted hv.1 rfl rfl ht
    rw [hsame] at hnick
    exact hnick
  | inUse nick =>
    have hset := nick_names hlog.charted (longer u.server.nick)
    have hsend := hset.trans (sendRawCmd_names hset.charted rfl (longer u.server.nick) ht)
    rw [hsame] at hsend
    rw [wish_rawCmd (longer_valid hown hclear)] at hsend
    exact hsend
  | other old host new =>
    have hnick := handleNick_names hlog.charted hv rfl rfl ht
    rw [hsame,if_neg fun he => hclear he.symm] at hnick
    exact hnick

/-! ## Connections -/

structure Off (w w' : World) : Prop where
  charted : Charted w'
  nick : w'.server.nick = w.server.nick
  conn : w'.server.conn = none

theorem connClosed_off (h : Charted w) {conn : ConnId} (hc : w.server.conn = some conn) {established : Bool}
    (hr : IrcServer.connClosed conn established w = .ok w') : Off w w' ∧ w'.nconns = w.nconns := by
  have hspec := Connection.connClosed_spec hc established
  rw [hr] at hspec
  obtain ⟨t,ht,rfl⟩ := hspec
  have helse : Elsewhere w (w.log conn .disconnected) := ⟨rfl,rfl,rfl,rfl,rfl,rfl,rfl,fun hl => { hl with }⟩
  have hsame := same_of_effects (hangUp_effects ht)
  exact ⟨⟨(h.happens (.other helse)).close ht,hsame.nick,hsame.conn⟩,hsame.nconns⟩

theorem close_off (h : Charted w) {conn : ConnId} (hc : w.server.conn = some conn)
    (hr : Connection.close conn w = .ok w') : Off w w' := by
  obtain ⟨t,ht,hr⟩ := ok_of_bind hr
  rw [Connection.raiseClosed_own h.toLinked hc] at ht
  cases hr
  obtain ⟨hoff,hn⟩ := connClosed_off h hc ht
  have hlt : conn < t.nconns := hn ▸ h.created conn hc
  unfold Connection.deleteLater
  split
  · have hlinked : Linked t → Linked ({ t.log conn .close with
        service.eventsDone := t.service.eventsDone.register () (.deleteConnection conn) 0 }.setConn conn
          fun c => { c with deleteScheduled := 1 }) := by
      intro hl
      have hdone : Linked { t.log conn .close with
          service.eventsDone := t.service.eventsDone.register () (.deleteConnection conn) 0 } :=
        { hl with dones := hl.dones.register () 0 ⟨hlt,by rw [hoff.conn]; nofun⟩ }
      exact hdone.setConn conn _ (fun hs => absurd (hoff.conn.symm.trans hs) nofun) id
    exact ⟨hoff.charted.happens (.other ⟨rfl,rfl,rfl,rfl,rfl,rfl,rfl,hlinked⟩),hoff.nick,hoff.conn⟩
  · exact hoff

def Goes (w w' : World) : Prop := Aside w w' ∨ Off w w'

theorem Aside.goes {t : World} (h : Aside w t) (h' : Goes t w') : Goes w w' := by
  rcases h' with hon | hoff
  · exact .inl (h.trans hon)
  · exact .inr ⟨hoff.charted,hoff.nick.trans h.nick,hoff.conn⟩

theorem closeConn_goes (h : Charted w) (hr : IrcServer.closeConn w = .ok w') : Goes w w' := by
  unfold IrcServer.closeConn at hr
  split at hr
  · next conn hc => exact .inr (close_off h hc hr)
  · cases hr

theorem disconnect_goes (h : Charted w) (hr : IrcServer.disconnect w = .ok w') : Goes w w' := by
  have hlogin := unregister_aside h (t := .connWaitLogin) not_false
  have hticks := hlogin.trans (unregister_aside hlogin.charted (t := .connWaitReconn) not_false)
  refine hticks.goes ?_
  unfold IrcServer.disconnect at hr
  dsimp only at hr
  split at hr
  · exact .inl (sendRawCmd_aside hticks.charted rfl rfl (by decide) _ hr)
  · split at hr
    · next conn hc => exact .inr (close_off hticks.charted hc hr)
    · cases hr
      exact .inl (.refl hticks.charted)

theorem connWaitLogin_goes (h : Charted w) (hr : IrcServer.connWaitLogin w = .ok w') : Goes w w' := by
  have hcount : Aside w { w with server.loginticks := w.server.loginticks - 1 } :=
    Elsewhere.aside ⟨rfl,rfl,rfl,rfl,rfl,rfl,rfl,fun hl => { hl with }⟩ h rfl rfl rfl rfl
  refine hcount.goes ?_
  unfold IrcServer.connWaitLogin at hr
  dsimp only at hr
  split at hr
  · have htick := unregister_aside hcount.charted (t := .connWaitLogin) not_false
    exact htick.goes (closeConn_goes htick.charted hr)
  · cases hr
    exact .inl (.refl hcount.charted)

theorem activeTick_goes (h : Charted w) (hr : IrcServer.activeTick w = .ok w') : Goes w w' := by
  obtain ⟨credits,_,he⟩ := IrcServer.credit_acts w
  unfold IrcServer.activeTick at hr
  rw [he] at hr
  obtain ⟨t,ht,hr⟩ := ok_of_bind hr
  have hcredit : Aside w { w with server.sendcreditticks := credits } :=
    Elsewhere.aside ⟨rfl,rfl,rfl,rfl,rfl,rfl,rfl,fun hl => { hl with }⟩ h rfl rfl rfl rfl
  have hsend := hcredit.trans (sendRaw_aside hcredit.charted ht)
  have hidle : Aside t { t with server.idleticks := t.server.idleticks - 1 } :=
    Elsewhere.aside ⟨rfl,rfl,rfl,rfl,rfl,rfl,rfl,fun hl => { hl with }⟩ hsend.charted rfl rfl rfl rfl
  refine (hsend.trans hidle).goes ?_
  dsimp only at hr
  split at hr
  · exact .inl (sendRawCmd_aside hidle.charted rfl rfl (by decide) _ hr)
  · split at hr
    · have htick := unregister_aside hidle.charted (t := .activeTick) not_false
      exact htick.goes (closeConn_goes htick.charted hr)
    · cases hr
      exact .inl (.refl hidle.charted)

/-- A connection that is opened asks for the nick of the bot. -/
theorem connect_names (h : Charted w) (hconn : w.server.conn = none) (hown : ValidNick w.server.nick) {env : Env}
    (hr : Naming.connect env w = .ok w') : w' = w ∨ (Charted w' ∧ w'.server.nick = w.server.nick ∧
      w'.server.connst ≠ 0 ∧ w'.server.conn ≠ none ∧ ∃ cs, w'.ghost.commands = w.ghost.commands ++ cs ∧ cs.filterMap wish = [w.server.nick]) := by
  unfold Naming.connect at hr
  dsimp only at hr
  split at hr
  · next hc =>
    cases hr
    rcases connect_shape env hconn with he | ⟨fd,conns,_,_,he⟩
    · exact .inl he
    · rw [he] at hc
      cases hc
  · next conn hc =>
    obtain ⟨t,ht,hr⟩ := ok_of_bind hr
    obtain ⟨hopen,hnick,hcommands,hst⟩ := establish_elsewhere h.toLinked hconn env hc ht
    obtain ⟨args,hlogin,hnick',hcommands',hst'⟩ := sendLogin_elsewhere hst hr
    have hcharted := h.happens (.other (hopen.trans hlogin))
    refine .inr ⟨hcharted,hnick'.trans hnick,by omega,fun hnone => ?_,_,hcommands'.trans (by rw [hcommands]),?_⟩
    · have hzero := hcharted.connst (hcharted.queue hnone)
      omega
    · rw [List.filterMap_cons,hnick,wish_rawCmd hown,List.filterMap_cons,wish_rawCmd_ne rfl (by decide)]
      rfl

/-! ## Runs -/

namespace Naming
variable {N M : Naming} {l : Label}

def copy (N : Naming) : Replica Bytes where
  copy := N.bot.server.nick
  asked := N.sent.filterMap wish
  words := N.answers.filterMap NickNotice.word
  value := N.nick

structure Sound (N : Naming) : Prop where
  charted : Charted N.bot
  processed : N.processed ≤ N.bot.ghost.commands.length
  own : ValidNick N.bot.server.nick
  valid : ∀ n ∈ N.answers, n.Valid
  nick : ∀ x ∈ N.nick, ValidNick x
  asked : ∀ x ∈ N.copy.asked, ValidNick x
  offline : N.bot.server.conn = none → N.nick = none ∧ N.answers = [] ∧ N.copy.asked = []
  up : N.bot.server.conn ≠ none → N.bot.server.connst ≠ 0
  follows : N.bot.server.conn ≠ none → N.copy.Follows longer

theorem act_ok {r : Run} (h : N.act r = .ok M) :
    ∃ w, r = .ok w ∧ M = if w.server.conn = none then lost w else { N with bot := w } := by
  cases r with
  | ok w =>
    rw [act] at h
    split at h
    · exact ⟨w,rfl,(Except.ok.inj h).symm⟩
    · cases h
  | error e => cases h

theorem asked_append (hp : N.processed ≤ N.bot.ghost.commands.length) {w : World} {cs : List Bytes}
    (hw : w.ghost.commands = N.bot.ghost.commands ++ cs) :
    (w.ghost.commands.drop N.processed).filterMap wish = N.copy.asked ++ cs.filterMap wish := by
  rw [hw,List.drop_append_of_le_length hp,List.filterMap_append]
  rfl

namespace Sound

/-- The bot acts, and hears some of what is on its way. -/
theorem names (h : N.Sound) {x : Bytes} {xs : List Bytes} {w : World} (hn : Names x xs N.bot w) (hx : ValidNick x)
    (hxs : ∀ y ∈ xs, ValidNick y) {answers : List NickNotice} (hv : ∀ n ∈ answers, n.Valid)
    (hoff : N.bot.server.conn = none → answers = [] ∧ xs = [])
    (hf : N.copy.Follows longer →
      Replica.Follows longer ⟨x,N.copy.asked ++ xs,answers.filterMap NickNotice.word,N.nick⟩) :
    Sound { N with bot := w, answers := answers } := by
  obtain ⟨cs,hc,hcs⟩ := hn.wishes
  have hasked : copy { N with bot := w, answers := answers } =
      ⟨x,N.copy.asked ++ xs,answers.filterMap NickNotice.word,N.nick⟩ := by
    rw [copy,sent,asked_append h.processed hc,hcs,hn.nick]
  refine ⟨hn.charted,?_,hn.nick.symm ▸ hx,hv,h.nick,?_,fun hnone => ?_,fun hsome => ?_,fun hsome => ?_⟩
  · change N.processed ≤ w.ghost.commands.length
    rw [hc,List.length_append]
    exact Nat.le_add_right_of_le h.processed
  · rw [hasked]
    intro y hy
    rcases List.mem_append.mp hy with hy | hy
    · exact h.asked y hy
    · exact hxs y hy
  · have hnone := hn.conn.symm.trans hnone
    rw [hasked]
    refine ⟨(h.offline hnone).1,(hoff hnone).1,?_⟩
    rw [(h.offline hnone).2.2,(hoff hnone).2]
    rfl
  · exact hn.up (h.up fun hnone => hsome (hn.conn.trans hnone))
  · rw [hasked]
    exact hf (h.follows fun hnone => hsome (hn.conn.trans hnone))

theorem aside (h : N.Sound) {w : World} (hn : Aside N.bot w) : Sound { N with bot := w } := by
  refine h.names hn h.own nofun h.valid (fun hnone => ⟨(h.offline hnone).2.1,rfl⟩) fun hf => ?_
  rw [List.append_nil]
  exact hf

/-- Without a connection nothing is on its way. -/
theorem lost {w : World} (h : Charted w) (hown : ValidNick w.server.nick) (hnone : w.server.conn = none) :
    Sound (lost w) := by
  have hasked : (w.ghost.commands.drop w.ghost.commands.length).filterMap wish = [] := by rw [List.drop_length]; rfl
  have hvalid : ∀ x ∈ (w.ghost.commands.drop w.ghost.commands.length).filterMap wish, ValidNick x := hasked ▸ nofun
  exact ⟨h,Nat.le_refl _,hown,nofun,nofun,hvalid,fun _ => ⟨rfl,rfl,hasked⟩,fun hsome => absurd hnone hsome,
    fun hsome => absurd hnone hsome⟩

/-- What is sound with its connection is sound after it. -/
theorem kept {w : World} (h : Sound { N with bot := w }) :
    Sound (if w.server.conn = none then Naming.lost w else { N with bot := w }) := by
  split
  · next hnone => exact lost h.charted h.own hnone
  · exact h

theorem goes (h : N.Sound) {w : World} (hg : Goes N.bot w) :
    Sound (if w.server.conn = none then Naming.lost w else { N with bot := w }) := by
  rcases hg with hon | hoff
  · exact (h.aside hon).kept
  · rw [if_pos hoff.conn]
    exact lost hoff.charted (hoff.nick ▸ h.own) hoff.conn

theorem setNick (h : N.Sound) {nick : Bytes} (hv : ValidNick nick) (hC : N.bot.logged = true ∨ N.bot.server.conn = none)
    {w : World} (hr : IrcServer.setNick nick N.bot = .ok w) : Sound { N with bot := w } := by
  rcases setNick_names h.charted hv hr with ⟨rfl,_⟩ | hn
  · exact h
  · by_cases hlog : N.bot.logged = true
    · rw [if_pos hlog] at hn
      refine h.names hn hv (fun y hy => List.mem_singleton.mp hy ▸ hv) h.valid (fun hnone => ?_) fun hf => hf.ask nick
      have hzero := h.charted.connst (h.charted.queue hnone)
      rw [World.logged,hzero] at hlog
      cases hlog
    · rw [if_neg hlog] at hn
      have hnone := hC.resolve_left hlog
      refine h.names hn hv (List.forall_mem_nil _) h.valid (fun _ => ⟨(h.offline hnone).2.1,rfl⟩) fun hf => ?_
      have hsettled := hf.settled (h.offline hnone).2.2 (by rw [copy,(h.offline hnone).2.1]; rfl)
      rw [copy,(h.offline hnone).1] at hsettled
      cases hsettled

theorem deliver (h : N.Sound) {n : NickNotice} {ns : List NickNotice} (hn : N.answers = n :: ns)
    (hclear : n.Clear N.bot.server.nick) {env : Env} {w : World}
    (hr : IrcServer.handleMessage env n.message N.bot = .ok w) : Sound { N with bot := w, answers := ns } := by
  have hsome : N.bot.server.conn ≠ none := fun hnone => by
    rw [(h.offline hnone).2.1] at hn
    cases hn
  have hnames := deliver_names h.charted (h.up hsome) h.own (h.valid n (hn ▸ List.mem_cons_self)) hclear hr
  have hrest : ∀ m ∈ ns, m.Valid := fun m hm => h.valid m (hn ▸ List.mem_cons_of_mem n hm)
  have hown := h.own
  have hfirst := h.valid n (hn ▸ List.mem_cons_self)
  refine h.names hnames ?_ ?_ hrest (fun hnone => absurd hnone hsome) fun hf => ?_
  · cases n with
    | changed old host new =>
      change ValidNick (if N.bot.server.nick = old then new else N.bot.server.nick)
      split
      · exact hfirst.2
      · exact hown
    | inUse nick => exact longer_valid hown hclear
    | welcome name nick => exact hown
    | other old host new => exact hown
  · cases n with
    | inUse nick => exact fun y hy => List.mem_singleton.mp hy ▸ longer_valid hown hclear
    | _ => exact nofun
  · have hwords : ∀ word, n.word = some word → N.copy.words = word :: ns.filterMap NickNotice.word := fun word hw => by
      rw [copy,hn,List.filterMap_cons_some hw]
    cases n with
    | other old host new =>
      have hsame : N.copy.words = ns.filterMap NickNotice.word := by
        rw [copy,hn]
        rfl
      rw [← hsame]
      change Replica.Follows longer { N.copy with asked := N.copy.asked ++ [] }
      rw [List.append_nil]
      exact hf
    | welcome name nick => exact hf.hear (hwords _ rfl)
    | changed old host new => exact hf.hear (hwords _ rfl)
    | inUse nick => exact hf.hear (hwords _ rfl)

theorem sent_cons {command : Bytes} {cs : List Bytes} (hs : N.sent = command :: cs) :
    N.processed < N.bot.ghost.commands.length ∧ N.bot.ghost.commands.drop (N.processed + 1) = cs := by
  constructor
  · by_contra hle
    rw [sent,List.drop_eq_nil_of_le (Nat.not_lt.mp hle)] at hs
    cases hs
  · rw [← List.drop_drop]
    change N.sent.drop 1 = cs
    rw [hs]
    rfl

/-- What the server does while the bot does nothing. -/
theorem server (h : N.Sound) {k : ℕ} {nick : Option Bytes} {answers : List NickNotice}
    (hk : k ≤ N.bot.ghost.commands.length) (hv : ∀ n ∈ answers, n.Valid) (hnick : ∀ x ∈ nick, ValidNick x)
    (hasked : ∀ x ∈ (N.bot.ghost.commands.drop k).filterMap wish, x ∈ N.copy.asked)
    (hsome : N.bot.server.conn ≠ none) (hf : N.copy.Follows longer → Replica.Follows longer
      ⟨N.bot.server.nick,(N.bot.ghost.commands.drop k).filterMap wish,answers.filterMap NickNotice.word,nick⟩) :
    Sound { N with processed := k, nick := nick, answers := answers } :=
  ⟨h.charted,hk,h.own,hv,hnick,fun x hx => h.asked x (hasked x hx),fun hnone => absurd hnone hsome,h.up,
    fun _ => hf (h.follows hsome)⟩

theorem process (h : N.Sound) (refused : Bool) (name host : Bytes) : (N.process refused name host).Sound := by
  unfold Naming.process
  cases hs : N.sent with
  | nil => exact h
  | cons command cs =>
    obtain ⟨hlt,hdrop⟩ := sent_cons hs
    have hasked : N.copy.asked = (command :: cs).filterMap wish := by rw [copy,hs]
    have hsub : ∀ x ∈ (N.bot.ghost.commands.drop (N.processed + 1)).filterMap wish, x ∈ N.copy.asked := by
      rw [hdrop,hasked]
      exact fun x hx => List.Sublist.mem hx ((List.sublist_cons_self command cs).filterMap wish)
    dsimp only
    cases hw : wish command with
    | none =>
      dsimp only
      have hsame : copy { N with processed := N.processed + 1 } = N.copy := by
        rw [copy,sent,hdrop,copy,hs,List.filterMap_cons_none hw]
      exact ⟨h.charted,hlt,h.own,h.valid,h.nick,hsame ▸ h.asked,hsame ▸ h.offline,h.up,hsame ▸ h.follows⟩
    | some x =>
      rw [List.filterMap_cons_some hw] at hasked
      have hx : ValidNick x := h.asked x (hasked ▸ List.mem_cons_self)
      have hsome : N.bot.server.conn ≠ none := fun hnone => by
        rw [(h.offline hnone).2.2] at hasked
        cases hasked
      have hmore : ∀ m : NickNotice, m.Valid → ∀ n ∈ N.answers ++ [m], n.Valid := fun m hm n hn => by
        rcases List.mem_append.mp hn with hn | hn
        · exact h.valid n hn
        · exact List.mem_singleton.mp hn ▸ hm
      have hwords : ∀ m word, m.word = some word → (N.answers ++ [m]).filterMap NickNotice.word = N.copy.words ++ [word] :=
        fun m word hm => by rw [List.filterMap_append,List.filterMap_cons_some hm]; rfl
      have hnew : ∀ y ∈ some x, ValidNick y := fun y hy => Option.some.inj hy ▸ hx
      dsimp only
      split
      · next hkeep =>
        refine h.server hlt h.valid h.nick hsub hsome fun hf => ?_
        rw [hdrop]
        exact hf.keep hasked hkeep
      · split
        · refine h.server hlt (hmore (.inUse x) trivial) h.nick hsub hsome fun hf => ?_
          rw [hdrop,hwords (.inUse x) .refused rfl]
          exact hf.refuse _
        · split
          · next hnone =>
            refine h.server hlt (hmore (.welcome name x) trivial) hnew hsub hsome fun hf => ?_
            rw [hdrop,hwords (.welcome name x) (.granted none x) rfl]
            have hgrant := hf.granted x (.inr hasked)
            rw [show N.copy.value = none from hnone] at hgrant
            exact hgrant
          · next old hold =>
            refine h.server hlt (hmore (.changed old host x) ⟨h.nick old hold,hx⟩) hnew hsub hsome fun hf => ?_
            rw [hdrop,hwords (.changed old host x) (.granted (some old) x) rfl]
            have hgrant := hf.granted x (.inr hasked)
            rw [show N.copy.value = some old from hold] at hgrant
            exact hgrant

theorem force (h : N.Sound) (host : Bytes) {new : Bytes} (hv : ValidNick new) : (N.force host new).Sound := by
  unfold Naming.force
  split
  · exact h
  · next old hold =>
    have hsome : N.bot.server.conn ≠ none := fun hnone => by
      rw [(h.offline hnone).1] at hold
      cases hold
    refine h.server h.processed (fun n hn => ?_) (fun y hy => Option.some.inj hy ▸ hv) (fun x hx => hx) hsome fun hf => ?_
    · rcases List.mem_append.mp hn with hn | hn
      · exact h.valid n hn
      · exact List.mem_singleton.mp hn ▸ ⟨h.nick old hold,hv⟩
    · have hgrant := hf.granted new (.inl rfl)
      rw [show N.copy.value = some old from hold] at hgrant
      rw [List.filterMap_append]
      exact hgrant

theorem rename (h : N.Sound) {old : Bytes} (hv : ValidNick old) (host new : Bytes) : (N.rename old host new).Sound := by
  unfold Naming.rename
  split
  · exact h
  · next nick hnick =>
    have hsome : N.bot.server.conn ≠ none := fun hnone => by
      rw [(h.offline hnone).1] at hnick
      cases hnick
    refine h.server h.processed (fun n hn => ?_) h.nick (fun x hx => hx) hsome fun hf => ?_
    · rcases List.mem_append.mp hn with hn | hn
      · exact h.valid n hn
      · exact List.mem_singleton.mp hn ▸ hv
    · rw [List.filterMap_append]
      change Replica.Follows longer { N.copy with words := N.copy.words ++ [] }
      rw [List.append_nil]
      exact hf

theorem connect (h : N.Sound) (hconn : N.bot.server.conn = none) {env : Env} {w : World}
    (hr : Naming.connect env N.bot = .ok w) : Sound { N with bot := w } := by
  rcases connect_names h.charted hconn h.own hr with rfl | ⟨hcharted,hnick,hup,hsome,cs,hc,hcs⟩
  · exact h
  · obtain ⟨hvalue,hans,hnone⟩ := h.offline hconn
    have hcopy : copy { N with bot := w } = ⟨w.server.nick,[w.server.nick],[],none⟩ := by
      rw [copy,sent,asked_append h.processed hc,hnone,hcs,hnick,hans,hvalue]
      rfl
    have hown : ValidNick w.server.nick := hnick.symm ▸ h.own
    refine ⟨hcharted,?_,hown,h.valid,h.nick,?_,fun hno => absurd hno hsome,fun _ => hup,fun _ => ?_⟩
    · change N.processed ≤ w.ghost.commands.length
      rw [hc,List.length_append]
      exact Nat.le_add_right_of_le h.processed
    · rw [hcopy]
      exact fun x hx => List.mem_singleton.mp hx ▸ hown
    · rw [hcopy]
      exact .opened _

theorem initial (h : Initial N) : N.Sound := by
  have hcharted : Charted N.bot := (World.Reached.induct (I := fun _ => True) (fun _ _ => trivial)
    (fun _ _ _ _ _ _ _ => trivial) h.bot.reached).1
  have hasked : N.copy.asked = [] := by
    rw [copy,sent,h.processed,List.drop_length]
    rfl
  have hnone : ∀ x ∈ N.copy.asked, ValidNick x := hasked ▸ nofun
  refine ⟨hcharted,h.processed.le,h.own,?_,?_,hnone,fun _ => ⟨h.nick,h.answers,hasked⟩,?_,?_⟩
  · rw [h.answers]
    exact nofun
  · rw [h.nick]
    exact nofun
  · exact fun hsome => absurd h.conn hsome
  · exact fun hsome => absurd h.conn hsome

theorem step (h : N.Sound) (hC : Careful l N) (hs : Naming.step l N = .ok M) : M.Sound := by
  cases l with
  | setNick nick =>
    obtain ⟨w,hw,rfl⟩ := act_ok hs
    exact (h.setNick hC.1 hC.2 hw).kept
  | join channel =>
    obtain ⟨w,hw,rfl⟩ := act_ok hs
    exact (h.aside (join_aside h.charted hw)).kept
  | part channel =>
    obtain ⟨w,hw,rfl⟩ := act_ok hs
    exact (h.aside (part_aside h.charted hw)).kept
  | sendMsg recipient message action =>
    obtain ⟨w,hw,rfl⟩ := act_ok hs
    exact (h.aside (sendMsg_aside h.charted hw)).kept
  | disconnect =>
    obtain ⟨w,hw,rfl⟩ := act_ok hs
    exact h.goes (disconnect_goes h.charted hw)
  | activeTick =>
    dsimp only [Naming.step] at hs
    split at hs
    · obtain ⟨w,hw,rfl⟩ := act_ok hs
      exact h.goes (activeTick_goes h.charted hw)
    · cases hs
      exact h
  | connWaitLogin =>
    dsimp only [Naming.step] at hs
    split at hs
    · obtain ⟨w,hw,rfl⟩ := act_ok hs
      exact h.goes (connWaitLogin_goes h.charted hw)
    · cases hs
      exact h
  | waitjoin c =>
    dsimp only [Naming.step] at hs
    split at hs
    · next hcount =>
      obtain ⟨w,hw,rfl⟩ := act_ok hs
      exact (h.aside ((Does.waitjoin c hcount hw).aside h.charted)).kept
    · cases hs
      exact h
  | waitrejoin c =>
    dsimp only [Naming.step] at hs
    split at hs
    · next hcount =>
      obtain ⟨w,hw,rfl⟩ := act_ok hs
      exact (h.aside ((Does.waitrejoin c hcount hw).aside h.charted)).kept
    · cases hs
      exact h
  | message env m =>
    dsimp only [Naming.step] at hs
    split at hs
    · cases hs
      exact h
    · obtain ⟨w,hw,rfl⟩ := act_ok hs
      exact (h.aside (handleMessage_aside h.charted hC.1 hC.2.1 hC.2.2 hw)).kept
  | deliver env =>
    dsimp only [Naming.step] at hs
    split at hs
    · cases hs
      exact h
    · next notice answers hans =>
      obtain ⟨w,hw,rfl⟩ := act_ok hs
      exact (h.deliver hans (hC notice (by rw [hans]; rfl)) hw).kept
  | process refused name host =>
    cases hs
    exact h.process refused name host
  | force host new =>
    cases hs
    exact h.force host hC
  | rename old host new =>
    cases hs
    exact h.rename hC host new
  | lose established =>
    dsimp only [Naming.step] at hs
    split at hs
    · cases hs
      exact h
    · next conn hc =>
      obtain ⟨w,hw,rfl⟩ := act_ok hs
      exact h.goes (.inr (connClosed_off h.charted hc hw).1)
  | connect env =>
    dsimp only [Naming.step] at hs
    split at hs
    · next hconn =>
      obtain ⟨w,hw,rfl⟩ := act_ok hs
      exact (h.connect hconn hw).kept
    · cases hs
      exact h

end Sound

def start : Naming := ⟨World.create (.create (lit "s") (lit "n") (some (lit "u")) (some (lit "r")) false) [],0,[],none⟩

theorem start_initial : start.Initial := ⟨.start (World.create_initial _ _ _ _ _ _),rfl,rfl,rfl,rfl,by decide +kernel⟩

end Naming
end LibIrcBot
