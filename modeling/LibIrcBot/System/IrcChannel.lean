import LibIrcBot.System.IrcBot

/-! # Channels

The functions of `ircchannel.c`, and those of `ircserver.c` that a channel raises.
-/
namespace LibIrcBot
open CString

namespace IrcChannel

def msgCommands : List IrcCommand :=
  [.MSG_JOIN, .MSG_PART, .MSG_QUIT, .MSG_NICK, .MSG_KICK, .RPL_NAMREPLY, .RPL_ENDOFNAMES, .ERR_NOSUCHCHANNEL]

/-- `IrcChannel_create`. The two tick counters are not initialised. -/
def create (name : Bytes) (w : World) : ChanId × World :=
  let self := w.nchans
  (self,{ w with
    chans := Function.update w.chans self { w.chans self with
      name := name
      nicks := IBHashTable.create 8
      joined := Event.create
      parted := Event.create
      entered := Event.create
      left := Event.create
      failed := Event.create
      isJoined := false
      wantJoined := false }
    nchans := w.nchans + 1
    server.msgReceived := msgCommands.foldl
      (fun e cmd => e.register () (.handleMsg self) cmd.code) w.server.msgReceived })

def destroy (self : ChanId) (w : World) : World :=
  { w with
    server.msgReceived := msgCommands.reverse.foldl
      (fun e cmd => e.unregister () (.handleMsg self) cmd.code) w.server.msgReceived
    ghost.destroyed := w.ghost.destroyed ++ [self] }

end IrcChannel

namespace IrcServer

/-- `IBHashTable_delete` on the channels, with the deleter call it makes. -/
def deleteChannel (name : Bytes) (w : World) : World :=
  let (_,call,channels) := w.server.channels.delete name
  let w :=
    match call with
    | some (.destroyIrcChannel,chan) => IrcChannel.destroy chan w
    | _ => w
  { w with server.channels := channels }

/-- `IBHashTable_set` on the channels, with the deleter call it makes. -/
def setChannel (name : Bytes) (chan : ChanId) (w : World) : World :=
  let (call,channels) := w.server.channels.set name chan (some .destroyIrcChannel)
  let w :=
    match call with
    | some (.destroyIrcChannel,chan) => IrcChannel.destroy chan w
    | _ => w
  { w with server.channels := channels }

def chanJoined (chan : ChanId) (w : World) : Run :=
  w.raise (·.server.joined) (fun _ w => .ok (IrcBot.chanJoined chan w)) 0

def chanParted (_chan : ChanId) (w : World) : Run := w.raise (·.server.parted) (fun h _ => h.elim) 0

def registerChannel (chan : ChanId) (w : World) : World :=
  w.setChan chan fun c => { c with
    joined := c.joined.register () .chanJoined 0
    parted := c.parted.register () .chanParted 0
    failed := c.failed.register () .chanFailed 0 }

def unregisterChannel (chan : ChanId) (w : World) : World :=
  w.setChan chan fun c => { c with
    joined := c.joined.unregister () .chanJoined 0
    parted := c.parted.unregister () .chanParted 0
    failed := c.failed.unregister () .chanFailed 0 }

/-- Reading the string that `IrcChannel_name` points to, which the destruction of the channel frees. -/
def readName (chan : ChanId) (w : World) : Except (Fault × World) Bytes :=
  if chan ∈ w.ghost.destroyed then .error (.wildPointer,w) else .ok (w.chans chan).name

/-- `chanFailed`. The pointer to the name is taken before the channel is destroyed, and used after that. -/
def chanFailed (chan : ChanId) (w : World) : Run := do
  let w := IrcChannel.destroy chan (unregisterChannel chan w)
  let channel ← readName chan w
  pure (deleteChannel channel w)

end IrcServer

namespace IrcChannel

def raiseJoined (self : ChanId) (w : World) : Run :=
  w.raise (fun w => (w.chans self).joined) (fun _ => IrcServer.chanJoined self) 0

def raiseParted (self : ChanId) (w : World) : Run :=
  w.raise (fun w => (w.chans self).parted) (fun _ => IrcServer.chanParted self) 0

def raiseFailed (self : ChanId) (w : World) : Run :=
  w.raise (fun w => (w.chans self).failed) (fun _ => IrcServer.chanFailed self) 0

def raiseEntered (self : ChanId) (nick : Bytes) (w : World) : Run :=
  w.raise (fun w => (w.chans self).entered) (fun _ w => .ok (IrcBot.userJoined self nick w)) 0

def raiseLeft (self : ChanId) (nick : Bytes) (w : World) : Run :=
  w.raise (fun w => (w.chans self).left) (fun _ w => .ok (IrcBot.userParted self nick w)) 0

def join (self : ChanId) (w : World) : Run :=
  if (w.chans self).wantJoined then .ok w
  else do
    let w := w.setChan self fun c => { c with wantJoined := true }
    let (rc,w) ← IrcServer.sendCmd .MSG_JOIN (w.chans self).name w
    if rc < 0 then
      pure { w with server.connected := w.server.connected.register () (.joinOnConnect self) 0 }
    else
      let w := w.setChan self fun c => { c with joinsyncticks := JOINSYNCTICKS }
      pure { w with
        service.tick := w.service.tick.register () (.waitjoin self) 0
        server.disconnected := w.server.disconnected.register () (.disconnected self) 0 }

/-- The four unregistrations that several functions of a channel share. -/
def unregisterTimers (self : ChanId) (w : World) : World :=
  { w with
    server.connected := w.server.connected.unregister () (.joinOnConnect self) 0
    service.tick :=
      (w.service.tick.unregister () (.waitjoin self) 0).unregister () (.waitrejoin self) 0
    server.disconnected := w.server.disconnected.unregister () (.disconnected self) 0 }

def part (self : ChanId) (w : World) : Run := do
  let w := w.setChan self fun c => { c with wantJoined := false }
  let w := unregisterTimers self w
  if (w.chans self).isJoined then
    let (_,w) ← IrcServer.sendCmd .MSG_PART (w.chans self).name w
    raiseParted self (w.setChan self fun c => { c with isJoined := false })
  else pure w

def joinOnConnect (self : ChanId) (w : World) : Run :=
  let w := { w with server.connected := w.server.connected.unregister () (.joinOnConnect self) 0 }
  join self (w.setChan self fun c => { c with wantJoined := false })

def disconnected (self : ChanId) (w : World) : Run :=
  let w := unregisterTimers self w
  let w :=
    if (w.chans self).wantJoined then
      { w with server.connected := w.server.connected.register () (.joinOnConnect self) 0 }
    else w
  if (w.chans self).isJoined then raiseParted self (w.setChan self fun c => { c with isJoined := false })
  else .ok w

def waitjoin (self : ChanId) (w : World) : Run :=
  let w := w.setChan self fun c => { c with joinsyncticks := c.joinsyncticks - 1 }
  if (w.chans self).joinsyncticks = 0 then do
    let (_,w) ← IrcServer.sendCmd .MSG_PART (w.chans self).name w
    let w := { w with service.tick := w.service.tick.unregister () (.waitjoin self) 0 }
    let w := w.setChan self fun c => { c with rejointicks := REJOINTICKS }
    pure { w with service.tick := w.service.tick.register () (.waitrejoin self) 0 }
  else .ok w

def waitrejoin (self : ChanId) (w : World) : Run :=
  let w := w.setChan self fun c => { c with rejointicks := c.rejointicks - 1 }
  if (w.chans self).rejointicks = 0 then
    let w := { w with service.tick := w.service.tick.unregister () (.waitrejoin self) 0 }
    join self (w.setChan self fun c => { c with wantJoined := false })
  else .ok w

/-- `IBHashTable_set` on the nicks; their objects have no deleter. -/
def setNick (self : ChanId) (nick : Bytes) (w : World) : World :=
  w.setChan self fun c => { c with nicks := (c.nicks.set nick c.name none).2 }

def deleteNick (self : ChanId) (nick : Bytes) (w : World) : Bool × World :=
  (((w.chans self).nicks.delete nick).1,
    w.setChan self fun c => { c with nicks := (c.nicks.delete nick).2.2 })

def scanNick (env : Env) (msg : IrcMessage) (w : World) : Except (Fault × World) Bytes := do
  let msgPrefix ← w.deref msg.msgPrefix
  pure ((sscanfNick msgPrefix).getD env.stackbuf)

def handleJoin (self : ChanId) (env : Env) (msg : IrcMessage) (w : World) : Run := do
  if msg.params.length ≠ 0 then
    let name ← w.deref msg.params[0]?
    if name = (w.chans self).name then
      let buf ← scanNick env msg w
      if buf ≠ w.server.nick then raiseEntered self buf (setNick self buf w) else pure w
    else pure w
  else pure w

def handleQuit (self : ChanId) (env : Env) (msg : IrcMessage) (w : World) : Run := do
  let buf ← scanNick env msg w
  let (found,w) := deleteNick self buf w
  if found then raiseLeft self buf w else pure w

def handlePart (self : ChanId) (env : Env) (msg : IrcMessage) (w : World) : Run := do
  if msg.params.length ≠ 0 then
    let name ← w.deref msg.params[0]?
    if name = (w.chans self).name then handleQuit self env msg w else pure w
  else pure w

def handleNick (self : ChanId) (env : Env) (msg : IrcMessage) (w : World) : Run := do
  if msg.params.length = 1 then
    let buf ← scanNick env msg w
    let (found,w) := deleteNick self buf w
    if found then
      let nick ← w.deref msg.params[0]?
      pure (setNick self nick w)
    else pure w
  else pure w

def handleKick (self : ChanId) (msg : IrcMessage) (w : World) : Run := do
  if msg.params.length > 1 then
    let name ← w.deref msg.params[0]?
    if name = (w.chans self).name then
      let nick ← w.deref msg.params[1]?
      if nick = w.server.nick then
        let w := w.setChan self fun c => { c with isJoined := false }
        let w :=
          if (w.chans self).wantJoined then
            let w := w.setChan self fun c => { c with rejointicks := REJOINTICKS }
            { w with service.tick := w.service.tick.register () (.waitrejoin self) 0 }
          else w
        raiseParted self w
      else
        let (found,w) := deleteNick self nick w
        if found then raiseLeft self nick w else pure w
    else pure w
  else pure w

def words : Bytes → List Bytes
  | [] => [[]]
  | c :: s =>
    if c = SPACE then [] :: words s
    else
      match words s with
      | [] => [[c]]
      | word :: rest => (c :: word) :: rest

/-- The nick in a word of a name list: a status sign is skipped, and nothing may be left. -/
def listedNick (own word : Bytes) : Option Bytes :=
  let nick := if word.head? = some 0x40 || word.head? = some 0x25 then word.tail else word
  if nick ≠ [] && nick ≠ own then some nick else none

def handleNamreply (self : ChanId) (msg : IrcMessage) (w : World) : Run := do
  if msg.params.length = 4 then
    let name ← w.deref msg.params[2]?
    if name = (w.chans self).name then
      let nicklist ← w.deref msg.params[3]?
      pure ((words nicklist).foldl
        (fun w word =>
          match listedNick w.server.nick word with
          | some nick => setNick self nick w
          | none => w) w)
    else pure w
  else pure w

def handleEndofnames (self : ChanId) (msg : IrcMessage) (w : World) : Run := do
  if msg.params.length > 1 then
    let name ← w.deref msg.params[1]?
    if name = (w.chans self).name then
      let w := w.setChan self fun c => { c with isJoined := true }
      raiseJoined self { w with
        service.tick := (w.service.tick.unregister () (.waitjoin self) 0).unregister () (.waitrejoin self) 0 }
    else pure w
  else pure w

def handleNosuchchannel (self : ChanId) (msg : IrcMessage) (w : World) : Run := do
  if msg.params.length ≠ 0 then
    let name ← w.deref msg.params[0]?
    if name = (w.chans self).name then
      raiseFailed self { unregisterTimers self w with ghost.removed := w.ghost.removed ++ [self] }
    else pure w
  else pure w

def handleMsg (self : ChanId) (env : Env) (msg : IrcMessage) (w : World) : Run :=
  match msg.command with
  | .MSG_JOIN => handleJoin self env msg w
  | .MSG_PART => handlePart self env msg w
  | .MSG_QUIT => handleQuit self env msg w
  | .MSG_NICK => handleNick self env msg w
  | .MSG_KICK => handleKick self msg w
  | .RPL_NAMREPLY => handleNamreply self msg w
  | .RPL_ENDOFNAMES => handleEndofnames self msg w
  | .ERR_NOSUCHCHANNEL => handleNosuchchannel self msg w
  | _ => .ok w

end IrcChannel
end LibIrcBot
