import LibIrcBot.Containers.Queue
import LibIrcBot.Containers.HashTable
import LibIrcBot.Events.Event
import LibIrcBot.Protocol.IrcMessage

/-! # The state of one IRC server and its connections

The objects of `ircserver.c`, `connection.c`, `ircchannel.c`, `ircbot.c` and `service.c`
for one server. Connections and channels live in a memory indexed by creation order;
freed objects stay as they are, and an id is never used again. An event lists
callbacks, a handler together with its receiver, of those that the source registers on it.
-/
namespace LibIrcBot
open CString

abbrev ConnId := ℕ
abbrev ChanId := ℕ

/-- `Service_tick`; `other` stands for callbacks of other objects. -/
inductive TickHandler where
  | connWaitLogin | connWaitReconn | activeTick
  | waitjoin (self : ChanId) | waitrejoin (self : ChanId)
  | checkPendingConnection (self : ConnId) | checkPendingTls (self : ConnId)
  | other (n : ℕ)
deriving DecidableEq, Repr

/-- `Service_readyRead`, `Service_readyWrite` and `Service_eventsDone`. -/
inductive ReadHandler where
  | readConnection (self : ConnId)
deriving DecidableEq, Repr

inductive WriteHandler where
  | writeConnection (self : ConnId)
deriving DecidableEq, Repr

inductive DoneHandler where
  | deleteConnection (self : ConnId)
deriving DecidableEq, Repr

/-- The events of a connection, on which the server registers. -/
inductive ConnectedHandler where
  | connConnected
deriving DecidableEq, Repr

inductive ClosedHandler where
  | connClosed
deriving DecidableEq, Repr

inductive ReceivedHandler where
  | connDataReceived
deriving DecidableEq, Repr

inductive SentHandler where
  | connDataSent
deriving DecidableEq, Repr

inductive LoginHandler where
  | joinOnConnect (self : ChanId) | connected
deriving DecidableEq, Repr

inductive LogoutHandler where
  | disconnected (self : ChanId) | shutdownok
deriving DecidableEq, Repr

inductive MsgHandler where
  | handleMsg (self : ChanId) | msgReceived
deriving DecidableEq, Repr

/-- The events of a channel on which the server registers. -/
inductive JoinedHandler where
  | chanJoined
deriving DecidableEq, Repr

inductive PartedHandler where
  | chanParted
deriving DecidableEq, Repr

inductive FailedHandler where
  | chanFailed
deriving DecidableEq, Repr

/-- The events of a channel on which the bot registers. -/
inductive EnteredHandler where
  | userJoined
deriving DecidableEq, Repr

inductive LeftHandler where
  | userParted
deriving DecidableEq, Repr

abbrev Listeners (η : Type) := Event Unit η

/-- A string on the heap; two of them are the same object exactly if the addresses agree. -/
structure Buffer where
  addr : ℕ
  text : Bytes
deriving DecidableEq, Repr

structure WriteRecord where
  wrbuf : Buffer
  /-- Whether the id is not null. -/
  id : Bool
  wrbuflen : ℕ
  wrbufpos : ℕ
deriving DecidableEq, Repr

/-- The states of a TLS operation: none pending, or the readiness it waits for. -/
inductive TlsWant where
  | none | wantRead | wantWrite
deriving DecidableEq, Repr

def CONNBUFSZ : ℕ := 4096
def NWRITERECS : ℕ := 16
def CONNTICKS : ℤ := 6

structure Connection where
  connected : Listeners ConnectedHandler
  closed : Listeners ClosedHandler
  dataReceived : Listeners ReceivedHandler
  dataSent : Listeners SentHandler
  tls : Bool
  writerecs : ℕ → WriteRecord
  /-- `args.handling`. -/
  handling : Bool
  fd : ℤ
  connecting : ℤ
  tlsConnectSt : TlsWant
  tlsConnectTicks : ℤ
  tlsReadSt : TlsWant
  tlsWriteSt : TlsWant
  deleteScheduled : ℕ
  nrecs : ℕ
  baserecidx : ℕ

def JOINSYNCTICKS : ℤ := 15
def REJOINTICKS : ℤ := 30

structure IrcChannel where
  name : Bytes
  nicks : IBHashTable Bytes Unit
  joined : Listeners JoinedHandler
  parted : Listeners PartedHandler
  entered : Listeners EnteredHandler
  left : Listeners LeftHandler
  failed : Listeners FailedHandler
  isJoined : Bool
  wantJoined : Bool
  joinsyncticks : ℤ
  rejointicks : ℤ

/-- The deleters the server passes to its containers. -/
inductive Deleter where
  | free | destroyIrcChannel
deriving DecidableEq, Repr

def RECONNTICKS : ℤ := 300
def QUICKRECONNTICKS : ℤ := 5
def LOGINTICKS : ℤ := 20
def IDLETICKS : ℤ := 180
def PINGTICKS : ℤ := 3
def FULLSENDCREDIT : ℤ := 9
/-- `sizeof recvbuf`. -/
def RECVBUFSZ : ℕ := 8192

structure IrcServer where
  id : Bytes
  tls : Bool
  name : Option Bytes
  nick : Bytes
  user : Option Bytes
  realname : Option Bytes
  channels : IBHashTable ChanId Deleter
  conn : Option ConnId
  sendQueue : Option (IBQueue Buffer Deleter)
  connected : Listeners LoginHandler
  disconnected : Listeners LogoutHandler
  msgReceived : Listeners MsgHandler
  /-- The bot registers its own `chanJoined` here. -/
  joined : Listeners JoinedHandler
  /-- Nothing in the library registers on this event. -/
  parted : Listeners Empty
  sendcmd : Option Buffer
  sending : Bool
  connst : ℤ
  loginticks : ℤ
  reconnticks : ℤ
  idleticks : ℤ
  sendcreditticks : ℤ
  /-- The first `recvbufsz` bytes of the receive buffer. -/
  recvbuf : Bytes

inductive IrcBotEventType where
  | IBET_BOTCOMMAND | IBET_PRIVMSG | IBET_CONNECTED | IBET_CHANJOINED | IBET_JOINED | IBET_PARTED
deriving DecidableEq, Repr

/-- A registered handler of the application, with a number for its function. -/
structure IrcBotEventHandler where
  handler : ℕ
  serverId : Option Bytes
  origin : Option Bytes
  filter : Option Bytes
  type : IrcBotEventType
deriving DecidableEq, Repr

structure IrcBotEvent where
  origin : Option Bytes
  command : Option Bytes
  sender : Option Bytes
  arg : Option Bytes
  type : IrcBotEventType
deriving DecidableEq, Repr

structure IrcBot where
  handlers : List IrcBotEventHandler
  /-- The jobs handed to the thread pool. -/
  jobs : List (IrcBotEventHandler × IrcBotEvent)

/-- An event that the service raises: `id` is the descriptor for the readiness events. -/
inductive ServiceEvent where
  | eventsDone | tick | readyWrite (id : ℤ) | readyRead (id : ℤ)
deriving DecidableEq, Repr

/-- The service with the position of its loop: the events still to be raised in this
iteration, the slot index in the first of them, and whether `pselect` comes next. -/
structure Service where
  tick : Listeners TickHandler
  readyRead : Listeners ReadHandler
  readyWrite : Listeners WriteHandler
  eventsDone : Listeners DoneHandler
  readfds : ℤ → Bool
  writefds : ℤ → Bool
  shutdownRef : ℤ
  shutdownTicks : ℤ
  todo : List ServiceEvent
  slot : ℕ
  selecting : Bool

/-- What a connection leaves behind when the server learns that it is closed. -/
structure Closing where
  /-- The registrations of `activeTick`. -/
  active : ℕ
  sending : Bool
  unread : Bytes
deriving DecidableEq, Repr

/-- What a connection does that others can see: the calls it makes, and the events that it
raises or that the server raises when it is closed. -/
inductive Operation where
  | getsockopt | sslConnect | sslRead | sslWrite | read | write | wantreadwrite | close | destroy
  | connected | dataReceived | disconnected
deriving DecidableEq, Repr

/-- An operation of a connection, with the state of the connection at that moment. -/
structure Entry where
  self : ConnId
  operation : Operation
  conn : Connection

/-- Ghost logs. `received` and `handled` start anew when a connection is established. -/
structure Ghost where
  /-- The strings handed to `sendRaw`. -/
  commands : List Bytes
  /-- What the receive buffer held when the connection was established. -/
  leftover : Bytes
  /-- The bytes handed to `connDataReceived`, read by read. -/
  received : List Bytes
  /-- The messages handed to `handleMessage`. -/
  handled : List IrcMessage
  /-- The state in front of each `connClosed` of the server's connection. -/
  closings : List Closing
  /-- The flag `sending` after each `connConnected` of the server's connection. -/
  openings : List Bool
  /-- The channels found by `IrcServer_part` or named by `ERR_NOSUCHCHANNEL`. -/
  removed : List ChanId
  /-- The channels `IrcChannel_destroy` was run on. -/
  destroyed : List ChanId
  /-- The operations of all connections. -/
  operations : List Entry

structure World where
  service : Service
  server : IrcServer
  bot : IrcBot
  conns : ConnId → Connection
  nconns : ℕ
  chans : ChanId → IrcChannel
  nchans : ℕ
  /-- The next address of a copied string. -/
  allocs : ℕ
  ghost : Ghost

/-- What a C program must not do: use a null queue, connection or string, use a pointer that is
indeterminate or whose object has been freed, write outside of a buffer. The last one is no fault of the
program but of the bound a loop of the model is given. -/
inductive Fault where
  | nullQueue | nullConn | nullString | wildPointer | outOfBounds | outOfFuel
deriving DecidableEq, Repr

/-- A function of the program: it ends in a state, or at a fault in the state it had reached. -/
abbrev Run := Except (Fault × World) World

def World.fail (w : World) (f : Fault) : Run := .error (f,w)

namespace World
variable (w : World)

def copystr (text : Bytes) : Buffer × World := (⟨w.allocs,text⟩,{ w with allocs := w.allocs + 1 })

def setConn (self : ConnId) (f : Connection → Connection) : World :=
  { w with conns := Function.update w.conns self (f (w.conns self)) }

def setChan (self : ChanId) (f : IrcChannel → IrcChannel) : World :=
  { w with chans := Function.update w.chans self (f (w.chans self)) }

def log (self : ConnId) (operation : Operation) : World :=
  { w with ghost.operations := w.ghost.operations ++ [⟨self,operation,w.conns self⟩] }

/-- `Event_raise` on an event of the state. No handler registers on the event that is
being raised, so that its slots bound the number of passes. -/
def raise {η : Type} (event : World → Listeners η) (call : η → World → Run) (id : ℤ) : Run :=
  Event.raise event (fun _ => call) (fun w => (.outOfFuel,w)) id (event w).size w

/-- A string that the source uses without a check; a null pointer is a fault. -/
def deref (s : Option Bytes) : Except (Fault × World) Bytes :=
  match s with
  | some s => .ok s
  | none => .error (.nullString,w)

end World

structure Chunk where
  bytes : Bytes
  nonempty : bytes ≠ []
  fits : bytes.length ≤ CONNBUFSZ

/-- The outcome of `read` or `SSL_read_ex`; without TLS `want` is `EAGAIN`. -/
inductive ReadResult where
  | data (chunk : Chunk)
  | want (st : TlsWant)
  | failed

/-- The outcome of `write` or `SSL_write_ex`. -/
inductive WriteResult where
  | sent (n : ℕ)
  | want (st : TlsWant)
  | failed

inductive ConnectResult where
  | done
  | want (st : TlsWant)
  | failed

structure Passwd where
  pw_name : Bytes
  pw_gecos : Bytes

/-- What the operating system, OpenSSL and uninitialised memory answer during one step. -/
structure Env where
  /-- `SO_ERROR`, or a failing `getsockopt`. -/
  sockErr : Bool
  sslConnect : ConnectResult
  read : ReadResult
  write : WriteResult
  /-- The descriptor of a new TCP connection, if one could be initiated. -/
  socket : Option ℤ
  getpwuid : Option Passwd
  getpwnam : Bytes → Option Passwd
  /-- The string found in the local `buf` of `handleMsg`. -/
  stackbuf : Bytes

end LibIrcBot
