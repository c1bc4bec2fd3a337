import LibIrcBot.System.Connection

/-! # The service loop

`Service_run` as a step function. One step starts an iteration, returns from `pselect`,
visits one slot of the event being raised, or is a call that the application makes in
between. A step that does not apply in a state leaves it as it is.
-/
namespace LibIrcBot
open CString

namespace Service

inductive Ready where
  | shutdown
  | tick
  | io (writes reads : List ℤ)
deriving Repr

/-- One pass of `Event_raise` over the slot the service is at. -/
def visit {η : Type} (e : Listeners η) (id : ℤ) (call : η → World → Run) (w : World) : Run :=
  match e.handlers[w.service.slot]? with
  | none => .ok { w with service.todo := w.service.todo.tail, service.slot := 0 }
  | some slot =>
    match slot.handler with
    | none => .ok { w with service.slot := w.service.slot + 1 }
    | some handler =>
      if slot.id = id then do
        let w ← call handler w
        pure { w with service.slot := w.service.slot + 1 }
      else .ok { w with service.slot := w.service.slot + 1 }

def callTick (env : Env) : TickHandler → World → Run
  | .connWaitLogin, w => IrcServer.connWaitLogin w
  | .connWaitReconn, w => .ok (IrcServer.connWaitReconn env w)
  | .activeTick, w => IrcServer.activeTick w
  | .waitjoin self, w => IrcChannel.waitjoin self w
  | .waitrejoin self, w => IrcChannel.waitrejoin self w
  | .checkPendingConnection self, w => Connection.checkPendingConnection self w
  | .checkPendingTls self, w => Connection.checkPendingTls self w
  | .other _, w => .ok w

def callRead (env : Env) : ReadHandler → World → Run
  | .readConnection self => Connection.readConnection env self

def callWrite (env : Env) : WriteHandler → World → Run
  | .writeConnection self => Connection.writeConnection env self

def callDone : DoneHandler → World → Run
  | .deleteConnection self => Connection.deleteConnection self

def next (env : Env) (w : World) : Run :=
  match w.service.todo with
  | [] => .ok w
  | .eventsDone :: _ => visit w.service.eventsDone 0 callDone w
  | .tick :: _ => visit w.service.tick 0 (callTick env) w
  | .readyWrite id :: _ => visit w.service.readyWrite id (callWrite env) w
  | .readyRead id :: _ => visit w.service.readyRead id (callRead env) w

def loop (w : World) : World :=
  if w.service.todo = [] && !w.service.selecting && w.service.shutdownRef ≠ 0 then
    { w with service.todo := [.eventsDone], service.slot := 0, service.selecting := true }
  else w

def shutdown (w : World) : Run :=
  IrcServer.disconnect (shutdownLock
    { w with server.disconnected := w.server.disconnected.register () .shutdownok 0 })

def select (ready : Ready) (w : World) : Run :=
  if w.service.todo = [] && w.service.selecting then
    let w := { w with service.selecting := false }
    match ready with
    | .shutdown => shutdown { w with service.shutdownRef := 0, service.shutdownTicks := 5 }
    | .tick =>
      if w.service.shutdownTicks > 0 then
        let ticks := w.service.shutdownTicks - 1
        let w := { w with service.shutdownTicks := ticks }
        if ticks = 0 then .ok { w with service.shutdownRef := 0 } else .ok { w with service.todo := [.tick] }
      else .ok { w with service.todo := [.tick] }
    | .io writes reads =>
      if writes.all w.service.writefds && reads.all w.service.readfds then
        .ok { w with service.todo := writes.map .readyWrite ++ reads.map .readyRead }
      else .ok w
  else .ok w

def startup (env : Env) (w : World) : World :=
  let (rc,w) := IrcServer.connect env w
  if rc < 0 then w
  else { w with
    server.connected := w.server.connected.register () .connected 0
    server.joined := w.server.joined.register () .chanJoined 0
    server.msgReceived := w.server.msgReceived.register () .msgReceived IrcCommand.MSG_PRIVMSG.code }

end Service

/-- The steps of a run: those of the service, the calls of the application, and
registrations of other objects on the tick event. -/
inductive Label where
  | startup (env : Env)
  | loop
  | select (ready : Service.Ready)
  | next (env : Env)
  | join (channel : Bytes)
  | part (channel : Bytes)
  | sendCmd (cmd : IrcCommand) (args : Bytes)
  | sendMsg (recipient message : Bytes) (action : Bool)
  | setNick (nick : Bytes)
  | disconnect
  | otherRegister (n : ℕ)
  | otherUnregister (n : ℕ)

namespace World

def step : Label → World → Run
  | .startup env, w => .ok (Service.startup env w)
  | .loop, w => .ok (Service.loop w)
  | .select ready, w => Service.select ready w
  | .next env, w => Service.next env w
  | .join channel, w => IrcServer.join channel w
  | .part channel, w => IrcServer.part channel w
  | .sendCmd cmd args, w => (IrcServer.sendCmd cmd args w).map Prod.snd
  | .sendMsg recipient message action, w => (IrcServer.sendMsg recipient message action w).map Prod.snd
  | .setNick nick, w => IrcServer.setNick nick w
  | .disconnect, w => IrcServer.disconnect w
  | .otherRegister n, w => .ok { w with service.tick := w.service.tick.register () (.other n) 0 }
  | .otherUnregister n, w => .ok { w with service.tick := w.service.tick.unregister () (.other n) 0 }

/-- The state after `Service_init` and `IrcServer_create`; fields these do not set are arbitrary. -/
structure Initial (w : World) : Prop where
  tick : w.service.tick = Event.create
  readyRead : w.service.readyRead = Event.create
  readyWrite : w.service.readyWrite = Event.create
  eventsDone : w.service.eventsDone = Event.create
  readfds : w.service.readfds = fun _ => false
  writefds : w.service.writefds = fun _ => false
  shutdownRef : w.service.shutdownRef = -1
  shutdownTicks : w.service.shutdownTicks = -1
  todo : w.service.todo = []
  selecting : w.service.selecting = false
  name : w.server.name = none
  channels : w.server.channels = IBHashTable.create 6
  conn : w.server.conn = none
  sendQueue : w.server.sendQueue = none
  connected : w.server.connected = Event.create
  disconnected : w.server.disconnected = Event.create
  msgReceived : w.server.msgReceived = Event.create
  joined : w.server.joined = Event.create
  parted : w.server.parted = Event.create
  sendcmd : w.server.sendcmd = none
  sending : w.server.sending = false
  connst : w.server.connst = 0
  recvbuf : w.server.recvbuf = []
  jobs : w.bot.jobs = []
  nconns : w.nconns = 0
  nchans : w.nchans = 0
  ghost : w.ghost = ⟨[],[],[],[],[],[],[],[],[]⟩

end World
end LibIrcBot
