import LibIrcBot.System.Runs

/-! # The selection of handlers

Which handler the documentation of `IrcBot_addHandler` promises for an event, and which
one the callbacks of the bot find. A message is looked up by its origin and then by the
kind of its origin, an event of a channel by the name of the channel only. What is not sent
to a channel of the table counts as private, whoever it is sent to.
-/
namespace LibIrcBot
open CString IrcBot

variable {w w' : World}

structure Occasion where
  type : IrcBotEventType
  origin : Bytes
  /-- `ORIGIN_CHANNEL` stands for the origin. -/
  channel : Bool
  /-- `ORIGIN_PRIVATE` stands for the origin. -/
  isPrivate : Bool
  filter : Option Bytes

/-- The handler is registered for events like this one. -/
structure Occasion.Suits (o : Occasion) (serverId : Bytes) (h : IrcBotEventHandler) : Prop where
  type : h.type = o.type
  serverId : h.serverId = none ∨ h.serverId = some serverId
  origin : h.origin = none ∨ h.origin = some o.origin ∨ (o.channel ∧ h.origin = some ORIGIN_CHANNEL) ∨
    (o.isPrivate ∧ h.origin = some ORIGIN_PRIVATE)
  filter : h.filter = none ∨ h.filter = o.filter

def Occasion.Handled (o : Occasion) (w : World) : Prop := ∃ h ∈ w.bot.handlers, o.Suits w.server.id h

/-- One handler that suits is executed, or none suits and none is executed. -/
def Occasion.Selects (o : Occasion) (w w' : World) : Prop :=
  (∃ h ∈ w.bot.handlers, o.Suits w.server.id h ∧ ∃ e : IrcBotEvent, e.type = o.type ∧ e.origin = some o.origin ∧
    w'.bot.jobs = w.bot.jobs ++ [(h,e)]) ∨
  (¬ o.Handled w ∧ w'.bot.jobs = w.bot.jobs)

theorem accepts_iff {own given : Option Bytes} : accepts own given ↔ own = none ∨ own = given := by
  simp [accepts]

/-- What `findHandler` compares. -/
theorem findHandler_some {type : IrcBotEventType} {serverId origin : Bytes} {filter : Option Bytes}
    {h : IrcBotEventHandler} (hf : findHandler type (some serverId) (some origin) filter w = some h) :
    h ∈ w.bot.handlers ∧ h.type = type ∧ (h.serverId = none ∨ h.serverId = some serverId) ∧
      (h.origin = none ∨ h.origin = some origin) ∧ (h.filter = none ∨ h.filter = filter) := by
  have hp := List.find?_some hf
  simp only [Bool.and_eq_true,decide_eq_true_eq,accepts_iff] at hp
  exact ⟨List.mem_of_find?_eq_some hf,hp.1.1.1,hp.1.1.2,hp.1.2,hp.2⟩

theorem findHandler_none {type : IrcBotEventType} {serverId origin : Bytes} {filter : Option Bytes}
    (hf : findHandler type (some serverId) (some origin) filter w = none) {h : IrcBotEventHandler}
    (hmem : h ∈ w.bot.handlers) (ht : h.type = type) (hs : h.serverId = none ∨ h.serverId = some serverId)
    (hl : h.filter = none ∨ h.filter = filter) : ¬ (h.origin = none ∨ h.origin = some origin) := by
  intro ho
  have hp := List.find?_eq_none.mp hf h hmem
  simp only [Bool.and_eq_true,decide_eq_true_eq,accepts_iff] at hp
  exact hp ⟨⟨⟨ht,hs⟩,ho⟩,hl⟩

/-- What a search has found is executed. It is the right thing if and only if a handler suits the occasion exactly when
the search finds one. -/
theorem dispatch_selects_iff {o c : Occasion} {hdl : Option IrcBotEventHandler} {e : IrcBotEvent} {t : World}
    (ht : t.bot.jobs = w.bot.jobs) (hty : e.type = o.type) (hor : e.origin = some o.origin)
    (hsome : ∀ h, hdl = some h → h ∈ w.bot.handlers ∧ c.Suits w.server.id h ∧ (o.Handled w → o.Suits w.server.id h))
    (hnone : hdl = none → ¬ c.Handled w) : o.Selects w (dispatch hdl e t) ↔ (o.Handled w ↔ c.Handled w) := by
  cases hdl with
  | none =>
    have hno := hnone rfl
    constructor
    · rintro (⟨h,_,_,_,_,_,hjobs⟩ | ⟨hno',_⟩)
      · rw [show (dispatch none e t).bot.jobs = w.bot.jobs from ht] at hjobs
        simp at hjobs
      · exact iff_of_false hno' hno
    · exact fun hiff => Or.inr ⟨fun h => hno (hiff.mp h),ht⟩
  | some h =>
    obtain ⟨hmem,hc,ho⟩ := hsome h rfl
    have hjobs : (dispatch (some h) e t).bot.jobs = w.bot.jobs ++ [(h,e)] := congrArg (· ++ [(h,e)]) ht
    have hhandled : c.Handled w := ⟨h,hmem,hc⟩
    constructor
    · rintro (⟨h',hmem',hs,_⟩ | ⟨_,hsame⟩)
      · exact iff_of_true ⟨h',hmem',hs⟩ hhandled
      · rw [hjobs] at hsame
        simp at hsame
    · exact fun hiff => Or.inl ⟨h,hmem,ho (hiff.mpr hhandled),e,hty,hor,hjobs⟩

/-- The occasion of a message or of a command in it. A private message is one to the own nick. -/
def messageOccasion (type : IrcBotEventType) (recipient : Bytes) (filter : Option Bytes) (w : World) : Occasion where
  type := type
  origin := recipient
  channel := (w.server.channels.get recipient).isSome
  isPrivate := recipient = w.server.nick
  filter := filter

/-- What the bot takes for the occasion: whatever is not sent to a channel of the table is private. -/
def takenOccasion (type : IrcBotEventType) (recipient : Bytes) (filter : Option Bytes) (w : World) : Occasion where
  type := type
  origin := recipient
  channel := (w.server.channels.get recipient).isSome
  isPrivate := !(w.server.channels.get recipient).isSome
  filter := filter

/-- The command in a message that is private or starts with an exclamation mark. -/
def commandWord (isPrivate : Bool) (text : Bytes) : Option Bytes :=
  if text.head? = some 0x21 || isPrivate then (botCommand text).map Prod.fst else none

/-- The two searches together find what suits by origin or by its kind, and what suits the occasion if anything does. -/
theorem findMsgHandler_spec (type : IrcBotEventType) (recipient : Bytes) (filter : Option Bytes) (w : World) :
    (∀ h, findMsgHandler type recipient (w.server.channels.get recipient).isSome filter w = some h →
      h ∈ w.bot.handlers ∧ (takenOccasion type recipient filter w).Suits w.server.id h ∧
        ((messageOccasion type recipient filter w).Handled w →
          (messageOccasion type recipient filter w).Suits w.server.id h)) ∧
    (findMsgHandler type recipient (w.server.channels.get recipient).isSome filter w = none →
      ¬ (takenOccasion type recipient filter w).Handled w) := by
  unfold findMsgHandler
  cases hf : findHandler type (some w.server.id) (some recipient) filter w with
  | some h =>
    obtain ⟨hmem,ht,hs,ho,hl⟩ := findHandler_some hf
    refine ⟨?_,nofun⟩
    rintro _ ⟨⟩
    exact ⟨hmem,⟨ht,hs,ho.imp_right Or.inl,hl⟩,fun _ => ⟨ht,hs,ho.imp_right Or.inl,hl⟩⟩
  | none =>
    dsimp only
    cases hchan : (w.server.channels.get recipient).isSome with
    | true =>
      constructor
      · intro h hk
        obtain ⟨hmem,ht,hs,ho,hl⟩ := findHandler_some hk
        have hsuits : h.origin = none ∨ h.origin = some recipient ∨ ((w.server.channels.get recipient).isSome ∧
            h.origin = some ORIGIN_CHANNEL) := ho.imp_right fun ho => Or.inr ⟨hchan,ho⟩
        exact ⟨hmem,⟨ht,hs,hsuits.imp_right (Or.imp_right Or.inl),hl⟩,
          fun _ => ⟨ht,hs,hsuits.imp_right (Or.imp_right Or.inl),hl⟩⟩
      · rintro hk ⟨h,hmem,ht,hs,ho,hl⟩
        have hfirst := findHandler_none hf hmem ht hs hl
        have hsecond := findHandler_none hk hmem ht hs hl
        rcases ho with ho | ho | ⟨_,ho⟩ | ⟨hno,_⟩
        · exact hfirst (Or.inl ho)
        · exact hfirst (Or.inr ho)
        · exact hsecond (Or.inr ho)
        · simp [takenOccasion,hchan] at hno
    | false =>
      constructor
      · intro h hk
        obtain ⟨hmem,ht,hs,ho,hl⟩ := findHandler_some hk
        have hpriv : (takenOccasion type recipient filter w).isPrivate = true := by simp [takenOccasion,hchan]
        refine ⟨hmem,⟨ht,hs,ho.imp_right fun ho => Or.inr (Or.inr ⟨hpriv,ho⟩),hl⟩,?_⟩
        -- Another handler suits, and not by its origin, so that the message is private indeed.
        rintro ⟨h',hmem',ht',hs',ho',hl'⟩
        have hfirst := findHandler_none hf hmem' ht' hs' hl'
        rcases ho' with ho' | ho' | ⟨hno,_⟩ | ⟨hpriv',_⟩
        · exact absurd (Or.inl ho') hfirst
        · exact absurd (Or.inr ho') hfirst
        · simp [messageOccasion,hchan] at hno
        · exact ⟨ht,hs,ho.imp_right fun ho => Or.inr (Or.inr ⟨hpriv',ho⟩),hl⟩
      · rintro hk ⟨h,hmem,ht,hs,ho,hl⟩
        have hfirst := findHandler_none hf hmem ht hs hl
        have hsecond := findHandler_none hk hmem ht hs hl
        rcases ho with ho | ho | ⟨hno,_⟩ | ⟨_,ho⟩
        · exact hfirst (Or.inl ho)
        · exact hfirst (Or.inr ho)
        · simp [takenOccasion,hchan] at hno
        · exact hsecond (Or.inr ho)

/-- The events of the bot but for those of the connection. -/
inductive BotEvent where
  | message (msg : IrcMessage)
  | chanJoined (channel : ChanId)
  | joined (channel : ChanId) (nick : Bytes)
  | parted (channel : ChanId) (nick : Bytes)

namespace BotEvent

def call : BotEvent → World → World
  | message msg => msgReceived msg
  | chanJoined channel => IrcBot.chanJoined channel
  | joined channel nick => userJoined channel nick
  | parted channel nick => userParted channel nick

/-- The occasion of an event of a channel, which is any channel if the server has it. -/
def channelOccasion (type : IrcBotEventType) (channel : ChanId) (filter : Option Bytes) (w : World) : Occasion where
  type := type
  origin := (w.chans channel).name
  channel := (w.server.channels.get (w.chans channel).name).isSome
  isPrivate := false
  filter := filter

/-- What the bot takes for the occasion: no event of any channel. -/
def takenChannelOccasion (type : IrcBotEventType) (channel : ChanId) (filter : Option Bytes) (w : World) : Occasion where
  type := type
  origin := (w.chans channel).name
  channel := false
  isPrivate := false
  filter := filter

/-- A command is handled as such; what is no command, or has no handler as one, is a message. -/
def MessageSelects (recipient text : Bytes) (w w' : World) : Prop :=
  match commandWord (recipient = w.server.nick) text with
  | some cmd =>
    ((messageOccasion .IBET_BOTCOMMAND recipient (some cmd) w).Handled w ∧
      (messageOccasion .IBET_BOTCOMMAND recipient (some cmd) w).Selects w w') ∨
    (¬ (messageOccasion .IBET_BOTCOMMAND recipient (some cmd) w).Handled w ∧
      (messageOccasion .IBET_PRIVMSG recipient none w).Selects w w')
  | none => (messageOccasion .IBET_PRIVMSG recipient none w).Selects w w'

def Documented : BotEvent → World → World → Prop
  | message msg, w, w' =>
    match msg.params with
    | [recipient,text] => MessageSelects recipient text w w'
    | _ => w'.bot.jobs = w.bot.jobs
  | chanJoined channel, w, w' => (channelOccasion .IBET_CHANJOINED channel none w).Selects w w'
  | joined channel nick, w, w' => (channelOccasion .IBET_JOINED channel (some nick) w).Selects w w'
  | parted channel nick, w, w' => (channelOccasion .IBET_PARTED channel (some nick) w).Selects w w'

def CommandHandled (recipient text : Bytes) (w : World) : Prop :=
  ∃ cmd ∈ commandWord (recipient = w.server.nick) text,
    (messageOccasion .IBET_BOTCOMMAND recipient (some cmd) w).Handled w

def CommandTaken (recipient text : Bytes) (w : World) : Prop :=
  ∃ cmd ∈ commandWord (!(w.server.channels.get recipient).isSome) text,
    (takenOccasion .IBET_BOTCOMMAND recipient (some cmd) w).Handled w

/-- A handler suits the event if and only if one suits what the bot takes the event for. -/
def WellTaken : BotEvent → World → Prop
  | message msg, w =>
    match msg.params with
    | [recipient,text] =>
      (CommandHandled recipient text w ↔ CommandTaken recipient text w) ∧ (¬ CommandTaken recipient text w →
        ((messageOccasion .IBET_PRIVMSG recipient none w).Handled w ↔
          (takenOccasion .IBET_PRIVMSG recipient none w).Handled w))
    | _ => True
  | chanJoined channel, w => (channelOccasion .IBET_CHANJOINED channel none w).Handled w ↔
      (takenChannelOccasion .IBET_CHANJOINED channel none w).Handled w
  | joined channel nick, w => (channelOccasion .IBET_JOINED channel (some nick) w).Handled w ↔
      (takenChannelOccasion .IBET_JOINED channel (some nick) w).Handled w
  | parted channel nick, w => (channelOccasion .IBET_PARTED channel (some nick) w).Handled w ↔
      (takenChannelOccasion .IBET_PARTED channel (some nick) w).Handled w

end BotEvent

theorem message_wellTaken_iff {msg : IrcMessage} {recipient text : Bytes} (hm : msg.params = [recipient,text]) :
    (BotEvent.message msg).WellTaken w ↔
      (BotEvent.CommandHandled recipient text w ↔ BotEvent.CommandTaken recipient text w) ∧
        (¬ BotEvent.CommandTaken recipient text w → ((messageOccasion .IBET_PRIVMSG recipient none w).Handled w ↔
          (takenOccasion .IBET_PRIVMSG recipient none w).Handled w)) := by
  unfold BotEvent.WellTaken
  dsimp only
  rw [hm]

/-- A message to a channel of the table, or else to the own nick, is taken for what it is. -/
theorem message_wellTaken {msg : IrcMessage} {recipient text : Bytes} (hm : msg.params = [recipient,text])
    (hr : recipient = w.server.nick ↔ (w.server.channels.get recipient).isSome = false) :
    (BotEvent.message msg).WellTaken w := by
  have hpriv : decide (recipient = w.server.nick) = !(w.server.channels.get recipient).isSome := by
    rw [Bool.eq_iff_iff,decide_eq_true_iff,Bool.not_eq_true',hr]
  have hsame : ∀ type filter, messageOccasion type recipient filter w = takenOccasion type recipient filter w := by
    intro type filter
    rw [messageOccasion,hpriv]
    rfl
  have hcommand : BotEvent.CommandHandled recipient text w ↔ BotEvent.CommandTaken recipient text w := by
    rw [BotEvent.CommandHandled,BotEvent.CommandTaken,hpriv]
    simp only [hsame]
  exact (message_wellTaken_iff hm).mpr ⟨hcommand,fun _ => by rw [hsame]⟩

/-- A job that is started is one for the type of the occasion. -/
theorem Occasion.Selects.type_eq {o : Occasion} (h : o.Selects w w') {hdl : IrcBotEventHandler} {e : IrcBotEvent}
    (hj : w'.bot.jobs = w.bot.jobs ++ [(hdl,e)]) : e.type = o.type := by
  rcases h with ⟨h,_,_,e',hty,_,hjobs⟩ | ⟨_,hsame⟩
  · have heq := List.append_cancel_left (hj.symm.trans hjobs)
    cases heq
    exact hty
  · rw [hj] at hsame
    simp at hsame

/-- What is executed for a message: a command handler, if one is found, else what is found for a plain message. -/
theorem msgReceived_cases {msg : IrcMessage} {recipient text : Bytes} (hm : msg.params = [recipient,text]) (w : World) :
    (∃ cmd ∈ commandWord (!(w.server.channels.get recipient).isSome) text, ∃ h e,
      findMsgHandler .IBET_BOTCOMMAND recipient (w.server.channels.get recipient).isSome (some cmd) w = some h ∧
      e.type = .IBET_BOTCOMMAND ∧ e.origin = some recipient ∧
      msgReceived msg w = dispatch (some h) e w) ∨
    ((∀ cmd ∈ commandWord (!(w.server.channels.get recipient).isSome) text,
      findMsgHandler .IBET_BOTCOMMAND recipient (w.server.channels.get recipient).isSome (some cmd) w = none) ∧
      ∃ e, e.type = .IBET_PRIVMSG ∧ e.origin = some recipient ∧ msgReceived msg w =
        dispatch (findMsgHandler .IBET_PRIVMSG recipient (w.server.channels.get recipient).isSome none w) e w) := by
  unfold commandWord msgReceived
  rw [hm]
  dsimp only
  by_cases hcond : (text.head? = some 0x21 || !(w.server.channels.get recipient).isSome) = true
  · rw [if_pos hcond,if_pos hcond]
    cases hc : botCommand text with
    | none => exact Or.inr ⟨nofun,_,rfl,rfl,rfl⟩
    | some command =>
      obtain ⟨cmd,arg⟩ := command
      dsimp only [Option.map_some]
      cases hf : findMsgHandler .IBET_BOTCOMMAND recipient (w.server.channels.get recipient).isSome (some cmd) w with
      | none =>
        refine Or.inr ⟨?_,_,rfl,rfl,rfl⟩
        rintro _ ⟨⟩
        exact hf
      | some hdl => exact Or.inl ⟨cmd,rfl,hdl,_,hf,rfl,rfl,rfl⟩
  · rw [if_neg hcond,if_neg hcond]
    exact Or.inr ⟨nofun,_,rfl,rfl,rfl⟩

/-- Two readings of a message find the same command, if they find one. -/
theorem commandWord_eq {p q : Bool} {text cmd cmd' : Bytes} (h : commandWord p text = some cmd)
    (h' : commandWord q text = some cmd') : cmd = cmd' :=
  Option.some.inj ((Option.ite_none_right_eq_some.mp h).2.symm.trans (Option.ite_none_right_eq_some.mp h').2)

theorem msgReceived_selects_iff {msg : IrcMessage} {recipient text : Bytes} (hm : msg.params = [recipient,text]) (w : World) :
    BotEvent.MessageSelects recipient text w (msgReceived msg w) ↔ (BotEvent.message msg).WellTaken w := by
  rw [message_wellTaken_iff hm]
  rcases msgReceived_cases hm w with ⟨cmd,hcmd,h,e,hf,hty,hor,hrun⟩ | ⟨hno,e,hty,hor,hrun⟩
  · -- A command handler is executed, which is right if the message is a command that a handler suits.
    obtain ⟨hmem,hc,ho⟩ := (findMsgHandler_spec .IBET_BOTCOMMAND recipient (some cmd) w).1 h hf
    have htaken : BotEvent.CommandTaken recipient text w := ⟨cmd,hcmd,h,hmem,hc⟩
    have hjobs : (msgReceived msg w).bot.jobs = w.bot.jobs ++ [(h,e)] := congrArg (fun t : World => t.bot.jobs) hrun
    have hwrong : ¬ (messageOccasion .IBET_PRIVMSG recipient none w).Selects w (msgReceived msg w) :=
      fun hs => nomatch hty.symm.trans (hs.type_eq hjobs)
    rw [iff_true_right htaken,and_iff_left (fun hno => absurd htaken hno),BotEvent.MessageSelects,BotEvent.CommandHandled]
    cases hword : commandWord (recipient = w.server.nick) text with
    | none => simpa using hwrong
    | some cmd' =>
      obtain rfl := commandWord_eq hcmd hword
      simp only [Option.mem_def,Option.some.injEq,exists_eq_left']
      constructor
      · rintro (⟨hh,_⟩ | ⟨_,hs⟩)
        · exact hh
        · exact absurd hs hwrong
      · exact fun hh => Or.inl ⟨hh,Or.inl ⟨h,hmem,ho hh,e,hty,hor,hjobs⟩⟩
  · have hnot : ¬ BotEvent.CommandTaken recipient text w := by
      rintro ⟨cmd,hcmd,hh⟩
      exact (findMsgHandler_spec .IBET_BOTCOMMAND recipient (some cmd) w).2 (hno cmd hcmd) hh
    obtain ⟨hsome,hnone⟩ := findMsgHandler_spec .IBET_PRIVMSG recipient none w
    have hmessage : (messageOccasion .IBET_PRIVMSG recipient none w).Selects w (msgReceived msg w) ↔ _ :=
      hrun ▸ dispatch_selects_iff (w := w) rfl hty hor hsome hnone
    have hwrong : ∀ cmd, (messageOccasion .IBET_BOTCOMMAND recipient (some cmd) w).Handled w →
        ¬ (messageOccasion .IBET_BOTCOMMAND recipient (some cmd) w).Selects w (msgReceived msg w) := by
      rintro cmd hh (⟨h,_,_,e',hty',_,hjobs⟩ | ⟨hno,_⟩)
      · rw [hrun] at hjobs
        cases hf : findMsgHandler .IBET_PRIVMSG recipient (w.server.channels.get recipient).isSome none w with
        | none =>
          rw [hf] at hjobs
          simp [dispatch] at hjobs
        | some hdl =>
          rw [hf] at hjobs
          have heq := List.append_cancel_left hjobs
          cases heq
          exact nomatch hty.symm.trans hty'
      · exact hno hh
    rw [iff_false_right hnot,imp_iff_right hnot,BotEvent.MessageSelects,BotEvent.CommandHandled]
    cases hword : commandWord (recipient = w.server.nick) text with
    | none => simpa using hmessage
    | some cmd' =>
      simp only [Option.mem_def,Option.some.injEq,exists_eq_left']
      rw [hmessage]
      exact ⟨fun hall => hall.resolve_left fun hh => hwrong cmd' hh.1 hh.2,fun hh => Or.inr hh⟩

/-- An event of a channel is handled as documented unless only handlers for any channel suit. -/
theorem channel_selects_iff (type : IrcBotEventType) (channel : ChanId) (filter : Option Bytes) {e : IrcBotEvent}
    {t : World} (ht : t.bot.jobs = w.bot.jobs) (hty : e.type = type) (hor : e.origin = some (w.chans channel).name) :
    (BotEvent.channelOccasion type channel filter w).Selects w
      (dispatch (findHandler type (some w.server.id) (some (w.chans channel).name) filter w) e t) ↔
    ((BotEvent.channelOccasion type channel filter w).Handled w ↔
      (BotEvent.takenChannelOccasion type channel filter w).Handled w) := by
  refine dispatch_selects_iff ht hty hor (fun h hf => ?_) fun hf => ?_
  · obtain ⟨hmem,hh,hs,ho,hl⟩ := findHandler_some hf
    exact ⟨hmem,⟨hh,hs,ho.imp_right Or.inl,hl⟩,fun _ => ⟨hh,hs,ho.imp_right Or.inl,hl⟩⟩
  · rintro ⟨h,hmem,hh,hs,ho,hl⟩
    refine findHandler_none hf hmem hh hs hl (ho.imp_right fun ho => ho.resolve_right ?_)
    rintro (⟨hno,_⟩ | ⟨hno,_⟩) <;> cases hno

/-- For every list of handlers, every state and every event: the callback executes exactly one
handler that suits the event, or none if none suits, exactly if a handler suits the event if and only
if one suits what the bot takes the event for. -/
theorem selection_documented_iff (event : BotEvent) (w : World) :
    event.Documented w (event.call w) ↔ event.WellTaken w := by
  cases event with
  | message msg =>
    unfold BotEvent.Documented BotEvent.call
    dsimp only
    split
    · next recipient text hm => exact msgReceived_selects_iff hm w
    · next hm =>
      have hrun : msgReceived msg w = w := by
        unfold msgReceived
        split
        · next recipient text he => exact absurd he (hm recipient text)
        · rfl
      have hwell : (BotEvent.message msg).WellTaken w := by
        unfold BotEvent.WellTaken
        dsimp only
        split
        · next recipient text he => exact absurd he (hm recipient text)
        · trivial
      exact iff_of_true (by rw [hrun]) hwell
  | chanJoined channel =>
    have hname : ((w.setChan channel fun c => { c with
        entered := c.entered.register () .userJoined 0
        left := c.left.register () .userParted 0 }).chans channel).name = (w.chans channel).name := by
      simp [World.setChan]
    unfold BotEvent.Documented BotEvent.call IrcBot.chanJoined
    dsimp only
    rw [hname]
    exact channel_selects_iff .IBET_CHANJOINED channel none rfl rfl rfl
  | joined channel nick => exact channel_selects_iff .IBET_JOINED channel (some nick) rfl rfl rfl
  | parted channel nick => exact channel_selects_iff .IBET_PARTED channel (some nick) rfl rfl rfl

/-- A bot with one handler, for any user that joins, logs in and joins a channel; then a user joins. -/
def World.visited (origin : Option Bytes) : World :=
  after (Label.connecting ++ Label.iteration (.io [] [3]) 1 2
      (.delivering ⟨lit ":s 004 n s v\x0d\n",by decide,by decide⟩) ++
    .join (lit "#c") :: Label.iteration (.io [] [3]) 1 2
      (.delivering ⟨lit ":s 366 n #c e\x0d\n:a!b@c JOIN #c\x0d\n",by decide,by decide⟩))
    (create (.create (lit "s") (lit "n") (some (lit "u")) (some (lit "r")) false) [⟨0,none,origin,none,.IBET_JOINED⟩])

/-- A handler for any message origin is executed, one for any channel is not. -/
theorem visited_overlooked : (World.visited (some ORIGIN_CHANNEL)).Reachable ∧
    (World.visited (some ORIGIN_CHANNEL)).server.channels.get (lit "#c") = some 0 ∧
    (World.visited (some ORIGIN_CHANNEL)).bot.jobs = [] ∧ (World.visited none).bot.jobs.length = 1 ∧
    ¬ (BotEvent.joined 0 (lit "a")).Documented (World.visited (some ORIGIN_CHANNEL))
      ((BotEvent.joined 0 (lit "a")).call (World.visited (some ORIGIN_CHANNEL))) := by
  refine ⟨World.after_reachable (.start (World.create_initial _ _ _ _ _ _)) (by decide +kernel),by decide +kernel,
    by decide +kernel,by decide +kernel,?_⟩
  have hhandlers : (World.visited (some ORIGIN_CHANNEL)).bot.handlers =
      [⟨0,none,some ORIGIN_CHANNEL,none,.IBET_JOINED⟩] := by decide +kernel
  have hchannel : (BotEvent.channelOccasion .IBET_JOINED 0 (some (lit "a"))
      (World.visited (some ORIGIN_CHANNEL))).channel = true := by decide +kernel
  have horigin : (BotEvent.takenChannelOccasion .IBET_JOINED 0 (some (lit "a"))
      (World.visited (some ORIGIN_CHANNEL))).origin = lit "#c" := by decide +kernel
  intro h
  have hiff : (BotEvent.channelOccasion _ _ _ _).Handled _ ↔ (BotEvent.takenChannelOccasion _ _ _ _).Handled _ :=
    (selection_documented_iff _ _).mp h
  rw [Occasion.Handled,Occasion.Handled,hhandlers] at hiff
  obtain ⟨hdl,hmem,_,_,ho,_⟩ := hiff.mp ⟨_,List.mem_cons_self,rfl,Or.inl rfl,Or.inr (Or.inr (Or.inl ⟨hchannel,rfl⟩)),Or.inl rfl⟩
  rw [List.mem_singleton.mp hmem,horigin] at ho
  revert ho
  decide

end LibIrcBot
