import LibIrcBot.System.IrcChannel

/-! # The server

The functions of `ircserver.c` up to those that close a connection or open one: the
handling of a received message, and the callbacks for the events of a connection.
-/
namespace LibIrcBot.IrcServer
open CString

def raiseConnected (w : World) : Run :=
  w.raise (·.server.connected) (fun h w =>
    match h with
    | .joinOnConnect chan => IrcChannel.joinOnConnect chan w
    | .connected => .ok (IrcBot.connected w)) 0

def raiseDisconnected (w : World) : Run :=
  w.raise (·.server.disconnected) (fun h w =>
    match h with
    | .disconnected chan => IrcChannel.disconnected chan w
    | .shutdownok => .ok (IrcBot.shutdownok w)) 0

def raiseMsgReceived (env : Env) (msg : IrcMessage) (w : World) : Run :=
  w.raise (·.server.msgReceived) (fun h w =>
    match h with
    | .handleMsg chan => IrcChannel.handleMsg chan env msg w
    | .msgReceived => .ok (IrcBot.msgReceived msg w)) msg.command.code

/-- Whether the prefix of a message is the own nick, by `strncmp` and `strcspn`. -/
def ownPrefix (msg : IrcMessage) (w : World) : Except (Fault × World) Bool := do
  let msgPrefix ← w.deref msg.msgPrefix
  pure (strncmp msgPrefix w.server.nick w.server.nick.length &&
    strcspn msgPrefix (lit "!") = w.server.nick.length)

def handleMyinfo (msg : IrcMessage) (w : World) : Run := do
  if msg.params.length > 2 then
    raiseConnected { w with
      server.name := msg.params[1]?
      server.connst := 1
      server.sendcreditticks := FULLSENDCREDIT
      service.tick := (w.service.tick.unregister () .connWaitLogin 0).register () .activeTick 0 }
  else pure w

def handleNicknameinuse (w : World) : Run :=
  let w := { w with server.nick := w.server.nick ++ lit "_" }
  sendRawCmd .MSG_NICK (some w.server.nick) w

def handleNick (msg : IrcMessage) (w : World) : Run := do
  if msg.params.length ≠ 0 then
    if ← ownPrefix msg w then
      let nick ← w.deref msg.params[0]?
      pure { w with server.nick := nick }
    else pure w
  else pure w

/-- A new channel with its registrations, entered into the table. -/
def addChannel (name : Bytes) (w : World) : ChanId × World :=
  let (chan,w) := IrcChannel.create name w
  (chan,setChannel name chan (registerChannel chan w))

def handleJoin (msg : IrcMessage) (w : World) : Run := do
  if msg.params.length ≠ 0 then
    if ← ownPrefix msg w then
      let chan ← w.deref msg.params[0]?
      match w.server.channels.get chan with
      | some _ => pure w
      | none => pure (addChannel chan w).2
    else pure w
  else pure w

def handleCommand (msg : IrcMessage) (w : World) : Run :=
  match msg.command with
  | .RPL_MYINFO => handleMyinfo msg w
  | .ERR_NICKNAMEINUSE => handleNicknameinuse w
  | .MSG_PING => sendRawCmd .MSG_PONG msg.rawParams w
  | .MSG_NICK => handleNick msg w
  | .MSG_JOIN => handleJoin msg w
  | _ => .ok w

def handleMessage (env : Env) (msg : IrcMessage) (w : World) : Run := do
  let w ← handleCommand msg { w with ghost.handled := w.ghost.handled ++ [msg] }
  raiseMsgReceived env msg w

/-- `handleMessage` on the result of the parser, which may be null. -/
def handleIf (env : Env) (msg : Option IrcMessage) (w : World) : Run :=
  match msg with
  | some msg => handleMessage env msg w
  | none => .ok w

/-- The loop of `connDataReceived`, with a bound on its passes. -/
def receiveLoop (env : Env) : ℕ → ℕ → World → Except (Fault × World) (ℕ × World)
  | 0, _, w => .error (.outOfFuel,w)
  | n + 1, oldpos, w => do
    let (msg,pos) := IrcMessage.create w.server.recvbuf oldpos
    let w ← handleIf env msg w
    if pos = oldpos then pure (pos,w) else receiveLoop env n pos w

/-- What is kept of the receive buffer when the loop has stopped at `pos`. -/
def keepRest (recvbuf : Bytes) (pos : ℕ) : Bytes :=
  if pos = recvbuf.length then [] else if recvbuf.length - pos > 4096 then [] else recvbuf.drop pos

/-- `toupper` on ASCII. -/
def toupper (c : UInt8) : UInt8 := if 0x61 ≤ c && c ≤ 0x7a then c - 0x20 else c

/-- `sizeof nmbuf`. -/
def NMBUFSZ : ℕ := 64

/-- The real name in a password entry, which replaces `&` by the capitalised user name;
`none` when the capital is written behind the end of the buffer. -/
def gecosName (passwd : Passwd) : Option Bytes :=
  let rawnm := passwd.pw_gecos.take (strcspn passwd.pw_gecos (lit ","))
  let amperpos := strcspn rawnm (lit "&")
  if amperpos < rawnm.length then
    let nmbuf := snprintf NMBUFSZ (rawnm.take amperpos ++ passwd.pw_name ++ rawnm.drop (amperpos + 1))
    if amperpos < NMBUFSZ then some (nmbuf.modify amperpos toupper) else none
  else some (snprintf NMBUFSZ rawnm)

def loginNames (env : Env) (w : World) : Except (Fault × World) (Bytes × Bytes) :=
  let passwd := if w.server.user.isNone then env.getpwuid else none
  let user :=
    match w.server.user with
    | some user => user
    | none => (passwd.map Passwd.pw_name).getD (lit "nobody")
  match w.server.realname with
  | some realname => .ok (user,realname)
  | none =>
    match (passwd.orElse fun _ => env.getpwnam user).orElse fun _ => env.getpwuid with
    | some passwd =>
      match gecosName passwd with
      | some realname => .ok (user,realname)
      | none => .error (.outOfBounds,w)
    | none => .ok (user,w.server.nick)

/-- The login data that `connDataReceived` sends after the first data on a connection. -/
def sendLogin (env : Env) (w : World) : Run := do
  let w ← sendRawCmd .MSG_NICK (some w.server.nick) w
  let (user,realname) ← loginNames env w
  let w ← sendRawCmd .MSG_USER (some (snprintf 512 (user ++ lit " 0 * :" ++ realname))) w
  pure { w with server.connst := -2 }

def connDataReceived (env : Env) (conn : ConnId) (data : Bytes) (w : World) : Run :=
  if w.server.conn ≠ some conn then .ok w
  else
    let w := { w with server.idleticks := IDLETICKS, ghost.received := w.ghost.received ++ [data] }
    if w.server.recvbuf.length + data.length > RECVBUFSZ then w.fail .outOfBounds
    else do
      let w := { w with server.recvbuf := w.server.recvbuf ++ data }
      let (pos,w) ← receiveLoop env (w.server.recvbuf.length + 1) 0 w
      let w := { w with server.recvbuf := keepRest w.server.recvbuf pos }
      if w.server.connst = -1 then sendLogin env w else pure w

def connDataSent (conn : ConnId) (w : World) : Run :=
  if w.server.conn = some conn then
    sendRaw none { w with server.sendcmd := none, server.sending := false }
  else .ok w

def connConnected (conn : ConnId) (w : World) : World :=
  if w.server.conn = some conn then
    let w := w.setConn conn fun c => { c with
      dataReceived := c.dataReceived.register () .connDataReceived 0
      dataSent := c.dataSent.register () .connDataSent 0 }
    { w with
      server.sendQueue := some IBQueue.create
      server.sendcreditticks := FULLSENDCREDIT
      server.connst := -1
      server.loginticks := LOGINTICKS
      service.tick := w.service.tick.register () .connWaitLogin 0
      ghost.leftover := w.server.recvbuf
      ghost.received := []
      ghost.handled := []
      ghost.openings := w.ghost.openings ++ [w.server.sending] }
  else w

/-- `IBQueue_destroy` on the send queue, whose deleter calls free the strings. -/
def destroyQueue (w : World) : Run :=
  match w.server.sendQueue with
  | none => .ok w
  | some queue => if queue.destroy.all Option.isSome then .ok w else w.fail .wildPointer

/-- `connClosed`; the flag says whether the connection had been established. -/
def connClosed (conn : ConnId) (established : Bool) (w : World) : Run :=
  if w.server.conn = some conn then do
    let w := w.log conn .disconnected
    let closing := ⟨w.service.tick.count () .activeTick 0,w.server.sending,w.server.recvbuf⟩
    let w ← destroyQueue { w with
      ghost.closings := w.ghost.closings ++ [closing]
      server.conn := none
      server.reconnticks := if established then QUICKRECONNTICKS else RECONNTICKS
      server.connst := 0 }
    let w ← raiseDisconnected { w with server.sendQueue := none }
    pure { w with
      server.name := none
      service.tick := (w.service.tick.unregister () .connWaitLogin 0).register () .connWaitReconn 0 }
  else .ok w

def setNick (nick : Bytes) (w : World) : Run :=
  if nick ≠ w.server.nick then
    let w := { w with server.nick := nick }
    if w.server.connst > 0 then sendRawCmd .MSG_NICK (some w.server.nick) w else .ok w
  else .ok w

def join (channel : Bytes) (w : World) : Run :=
  match w.server.channels.get channel with
  | some chan => IrcChannel.join chan w
  | none =>
    let (chan,w) := addChannel channel w
    IrcChannel.join chan w

def part (channel : Bytes) (w : World) : Run :=
  match w.server.channels.get channel with
  | some chan => do
    let w ← IrcChannel.part chan { w with ghost.removed := w.ghost.removed ++ [chan] }
    pure (deleteChannel channel (IrcChannel.destroy chan (unregisterChannel chan w)))
  | none => .ok w

end LibIrcBot.IrcServer
