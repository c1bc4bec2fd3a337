import LibIrcBot.System.Output

/-! # The bot's callbacks

The functions of `ircbot.c` that the server and its channels raise. What they start is
a job for the thread pool; its messages come back as calls of `IrcServer_sendMsg`.
-/
namespace LibIrcBot.IrcBot
open CString

def ORIGIN_PRIVATE : Bytes := lit ":"
def ORIGIN_CHANNEL : Bytes := lit "#"

/-- A criterion of a handler: null, or equal to a given string. -/
def accepts (own given : Option Bytes) : Bool := own = none || own = given

def findHandler (type : IrcBotEventType) (serverId origin filter : Option Bytes) (w : World) :
    Option IrcBotEventHandler :=
  w.bot.handlers.find? fun h =>
    h.type = type && accepts h.serverId serverId && accepts h.origin origin && accepts h.filter filter

def createBotEvent (type : IrcBotEventType) (origin command sender arg : Option Bytes) : IrcBotEvent where
  origin := origin
  command := command
  sender := sender.map fun s => s.take (strcspn s (lit "!"))
  arg := arg
  type := type

def executeHandler (hdl : IrcBotEventHandler) (e : IrcBotEvent) (w : World) : World :=
  { w with bot.jobs := w.bot.jobs ++ [(hdl,e)] }

def dispatch (hdl : Option IrcBotEventHandler) (e : IrcBotEvent) (w : World) : World :=
  match hdl with
  | some hdl => executeHandler hdl e w
  | none => w

/-- The handler for a message: by its origin, else by the kind of its origin. -/
def findMsgHandler (type : IrcBotEventType) (origin : Bytes) (isChannel : Bool) (filter : Option Bytes)
    (w : World) : Option IrcBotEventHandler :=
  match findHandler type (some w.server.id) (some origin) filter w with
  | some hdl => some hdl
  | none =>
    findHandler type (some w.server.id) (some (if isChannel then ORIGIN_CHANNEL else ORIGIN_PRIVATE)) filter w

/-- The command of a message text and what follows the character behind it. -/
def botCommand (message : Bytes) : Option (Bytes × Option Bytes) :=
  let message := if message.head? = some 0x21 then message.tail else message
  let cmdlen := strcspn message (lit " \t\x0d\n")
  if cmdlen ≠ 0 && cmdlen < 64 then
    let arg := message.drop (cmdlen + 1)
    some (message.take cmdlen,if arg = [] then none else some arg)
  else none

def msgReceived (msg : IrcMessage) (w : World) : World :=
  match msg.params with
  | [recipient,message] =>
    let isChannel := (w.server.channels.get recipient).isSome
    let command :=
      if message.head? = some 0x21 || !isChannel then
        match botCommand message with
        | some (cmd,arg) =>
          (findMsgHandler .IBET_BOTCOMMAND recipient isChannel (some cmd) w).map fun hdl =>
            (hdl,createBotEvent .IBET_BOTCOMMAND (some recipient) (some cmd) msg.msgPrefix arg)
        | none => none
      else none
    match command with
    | some (hdl,e) => executeHandler hdl e w
    | none =>
      dispatch (findMsgHandler .IBET_PRIVMSG recipient isChannel none w)
        (createBotEvent .IBET_PRIVMSG (some recipient) none msg.msgPrefix (some message)) w
  | _ => w

/-- `userJoined` and `userParted`, which differ in the event type. -/
def userChanged (type : IrcBotEventType) (channel : ChanId) (nick : Bytes) (w : World) : World :=
  let name := (w.chans channel).name
  dispatch (findHandler type (some w.server.id) (some name) (some nick) w)
    (createBotEvent type (some name) none none (some nick)) w

def userJoined : ChanId → Bytes → World → World := userChanged .IBET_JOINED
def userParted : ChanId → Bytes → World → World := userChanged .IBET_PARTED

def chanJoined (channel : ChanId) (w : World) : World :=
  let w := w.setChan channel fun c => { c with
    entered := c.entered.register () .userJoined 0
    left := c.left.register () .userParted 0 }
  let name := (w.chans channel).name
  dispatch (findHandler .IBET_CHANJOINED (some w.server.id) (some name) none w)
    (createBotEvent .IBET_CHANJOINED (some name) none none none) w

def connected (w : World) : World :=
  dispatch (findHandler .IBET_CONNECTED (some w.server.id) none none w)
    (createBotEvent .IBET_CONNECTED none none none none) w

def shutdownok (w : World) : World :=
  Service.shutdownUnlock
    { w with server.disconnected := w.server.disconnected.unregister () .shutdownok 0 }

end LibIrcBot.IrcBot
