import LibIrcBot.Containers.TableRefinement
import LibIrcBot.System.Deliveries
import Mathlib.Data.Finset.Basic

/-! # The bot and a channel of a server

Two parties with a queue of messages in each direction. The bot is the program from its server
object upwards: calls of the application, timers of its channels, and messages one by one. The
server has one channel. It puts the bot on it and takes it off, tells it of the other users
while it is on, and says nothing about the channel while it is off.
-/
namespace LibIrcBot
open CString Transitions

/-- A nick without separators and status signs that `sscanf` reads as a whole. -/
def ValidNick (nick : Bytes) : Prop :=
  nick ≠ [] ∧ nick.length ≤ 126 ∧ ∀ c ∈ nick, c ≠ SPACE ∧ c ≠ 0x21 ∧ c ≠ 0x40 ∧ c ≠ 0x25

instance (nick : Bytes) : Decidable (ValidNick nick) := inferInstanceAs (Decidable (_ ∧ _))

/-- What another user does that concerns the channel. -/
inductive UserChange where
  | join (nick host : Bytes)
  | part (nick host : Bytes) (reason : Option Bytes)
  | quit (nick host : Bytes) (reason : Option Bytes)
  | rename (nick host new : Bytes)
  | kick (nick op : Bytes) (reason : Option Bytes)
deriving DecidableEq, Repr

/-- The sign in front of a nick in a list of names. -/
inductive Sign where
  | at | percent | plus
deriving DecidableEq, Repr

def Sign.char : Sign → UInt8
  | .at => 0x40
  | .percent => 0x25
  | .plus => 0x2B

abbrev NameLine := List (Option Sign × Bytes)

/-- The nick that the bot reads from a name; of the signs it leaves the plus. -/
def listed (name : Option Sign × Bytes) : Bytes :=
  if name.1 = some .plus then Sign.plus.char :: name.2 else name.2

/-- What the server tells the bot of the channel. -/
inductive Notice where
  | joined (host : Bytes)
  | names (line : NameLine)
  | endOfNames
  | parted (host : Bytes) (reason : Option Bytes)
  | kicked (op : Bytes) (reason : Option Bytes)
  | user (change : UserChange)
deriving DecidableEq, Repr

/-- The parameters of a message as they are sent: a colon precedes the last one. -/
def rawLine : List Bytes → Bytes
  | [] => []
  | [param] => COLON :: param
  | param :: params => param ++ [SPACE] ++ rawLine params

def IrcMessage.of (msgPrefix : Bytes) (command : IrcCommand) (params : List Bytes) : IrcMessage where
  msgPrefix := some msgPrefix
  rawCmd := command.str.getD []
  rawParams := if params = [] then none else some (rawLine params)
  params := params
  command := command

def userPrefix (nick host : Bytes) : Bytes := nick ++ lit "!" ++ host

def NameLine.text (line : NameLine) : Bytes :=
  [SPACE].intercalate (line.map fun name => (name.1.map Sign.char).toList ++ name.2)

namespace UserChange

/-- The change is possible for a channel with these other users; nobody takes the nick of the bot. -/
def Possible (own : Bytes) (users : Finset Bytes) : UserChange → Prop
  | .join nick _ => ValidNick nick ∧ nick ≠ own ∧ nick ∉ users
  | .part nick _ _ | .quit nick _ _ | .kick nick _ _ => nick ∈ users
  | .rename nick _ new => nick ∈ users ∧ ValidNick new ∧ new ≠ own ∧ new ∉ users

instance (own : Bytes) (users : Finset Bytes) (change : UserChange) : Decidable (change.Possible own users) := by
  cases change <;> unfold Possible <;> infer_instance

def apply (users : Finset Bytes) : UserChange → Finset Bytes
  | .join nick _ => insert nick users
  | .part nick _ _ | .quit nick _ _ | .kick nick _ _ => users.erase nick
  | .rename nick _ new => insert new (users.erase nick)

def message (channel : Bytes) : UserChange → IrcMessage
  | .join nick host => .of (userPrefix nick host) .MSG_JOIN [channel]
  | .part nick host reason => .of (userPrefix nick host) .MSG_PART (channel :: reason.toList)
  | .quit nick host reason => .of (userPrefix nick host) .MSG_QUIT reason.toList
  | .rename nick host new => .of (userPrefix nick host) .MSG_NICK [new]
  | .kick nick op reason => .of op .MSG_KICK (channel :: nick :: reason.toList)

end UserChange

namespace Notice

def origin : Bytes := lit "irc.server"

def message (channel own : Bytes) : Notice → IrcMessage
  | .joined host => .of (userPrefix own host) .MSG_JOIN [channel]
  | .names line => .of origin .RPL_NAMREPLY [own,lit "=",channel,line.text]
  | .endOfNames => .of origin .RPL_ENDOFNAMES [own,channel,lit "End of /NAMES list."]
  | .parted host reason => .of (userPrefix own host) .MSG_PART (channel :: reason.toList)
  | .kicked op reason => .of op .MSG_KICK (channel :: own :: reason.toList)
  | .user change => change.message channel

end Notice

structure Parties where
  bot : World
  /-- The number of commands of the bot that the server has processed, or that are lost. -/
  processed : ℕ
  /-- What the server has sent and the bot has not handled. -/
  answers : List Notice
  /-- Whether the server has the bot on the channel. -/
  member : Bool
  /-- The other users on the channel. -/
  users : Finset Bytes
  /-- Whether the last call of the application was `IrcServer_join`. -/
  asked : Bool

namespace Parties
variable (channel : Bytes)

def sent (P : Parties) : List Bytes := P.bot.ghost.commands.drop P.processed

/-- The bot runs a function. A channel that is destroyed a second time has been freed. -/
def act (P : Parties) (r : Run) : Except Fault Parties :=
  match r with
  | .ok w => if w.ghost.destroyed.Nodup then .ok { P with bot := w } else .error .wildPointer
  | .error e => .error e.1

def say (notices : List Notice) (P : Parties) : Parties := { P with answers := P.answers ++ notices }

def takeOff (notice : Notice) (P : Parties) : Parties :=
  if P.member then { P with member := false }.say [notice] else P

/-- The server processes a command: on `JOIN` it puts the bot on the channel and lists all who are on it. -/
def process (host : Bytes) (lines : List NameLine) (P : Parties) : Parties :=
  match P.sent with
  | [] => P
  | command :: _ =>
    let done := { P with processed := P.processed + 1 }
    if command = IrcServer.rawCmd (lit "JOIN") channel then
      if P.member then done
      else if (lines.flatten.map Prod.snd).toFinset = insert P.bot.server.nick P.users then
        { done with member := true }.say (Notice.joined host :: lines.map Notice.names ++ [Notice.endOfNames])
      else P
    else if command = IrcServer.rawCmd (lit "PART") channel then done.takeOff (.parted host none)
    else done

/-- Another user does something; the bot learns of it while it is on the channel. -/
def change (change : UserChange) (P : Parties) : Parties :=
  if change.Possible P.bot.server.nick P.users then
    let P := { P with users := change.apply P.users }
    if P.member then P.say [.user change] else P
  else P

def lose (established : Bool) (P : Parties) : Except Fault Parties :=
  match P.bot.server.conn with
  | none => .ok P
  | some conn =>
    match IrcServer.connClosed conn established P.bot with
    | .ok w => .ok { P with bot := w, processed := w.ghost.commands.length, answers := [], member := false }
    | .error e => .error e.1

/-- The next connection is opened and established; the first data on it triggers the login data, and
`RPL_MYINFO` ends the login. -/
def connect (env : Env) (name : Bytes) (w : World) : Run :=
  let w := (IrcServer.connect env w).2
  match w.server.conn with
  | none => .ok w
  | some conn => do
    let w ← Connection.raiseConnected conn (w.setConn conn fun c => { c with connecting := 0 })
    let w ← IrcServer.sendLogin env w
    IrcServer.handleMessage env (.of name .RPL_MYINFO [w.server.nick,name,lit "1",lit "i"]) w

/-- The steps of the two parties. The callbacks of a tick are called one by one. -/
inductive Label where
  | join | part
  | waitjoin (self : ChanId) | waitrejoin (self : ChanId)
  | deliver (env : Env)
  | process (host : Bytes) (lines : List NameLine)
  | kick (op : Bytes) (reason : Option Bytes)
  | remove (host : Bytes) (reason : Option Bytes)
  | change (change : UserChange)
  | lose (established : Bool)
  | login (env : Env) (name : Bytes)

def step : Label → Parties → Except Fault Parties
  | .join, P => { P with asked := true }.act (IrcServer.join channel P.bot)
  | .part, P => { P with asked := false }.act (IrcServer.part channel P.bot)
  | .waitjoin self, P =>
    if 0 < P.bot.service.tick.count () (.waitjoin self) 0 then P.act (IrcChannel.waitjoin self P.bot) else .ok P
  | .waitrejoin self, P =>
    if 0 < P.bot.service.tick.count () (.waitrejoin self) 0 then P.act (IrcChannel.waitrejoin self P.bot) else .ok P
  | .deliver env, P =>
    match P.answers with
    | [] => .ok P
    | notice :: answers =>
      { P with answers := answers }.act
        (IrcServer.handleMessage env (notice.message channel P.bot.server.nick) P.bot)
  | .process host lines, P => .ok (P.process channel host lines)
  | .kick op reason, P => .ok (P.takeOff (.kicked op reason))
  | .remove host reason, P => .ok (P.takeOff (.parted host reason))
  | .change change, P => .ok (P.change change)
  | .lose established, P => P.lose established
  | .login env name, P => if P.bot.server.conn = none then P.act (connect env name P.bot) else .ok P

/-- The bot has no channel yet, and the server does not have it on the channel. -/
structure Initial (P : Parties) : Prop where
  bot : P.bot.Reachable
  nchans : P.bot.nchans = 0
  processed : P.processed = P.bot.ghost.commands.length
  answers : P.answers = []
  member : P.member = false
  asked : P.asked = false
  nick : ValidNick P.bot.server.nick
  users : ∀ nick ∈ P.users, ValidNick nick ∧ nick ≠ P.bot.server.nick

/-- The bot is logged in, and nothing is on its way. -/
structure Settled (P : Parties) : Prop where
  logged : P.bot.logged = true
  sent : P.sent = []
  answers : P.answers = []

def entry (P : Parties) : Option ChanId := P.bot.server.channels.get channel

end Parties

/-- What the bot knows of a channel in its table: the keys of `IrcChannel_nicks`, and `IrcChannel_isJoined`. -/
structure View where
  nicks : Finset Bytes
  joined : Bool
deriving DecidableEq

def IrcChannel.view (self : ChanId) (w : World) : View where
  nicks := (w.chans self).nicks.keys
  joined := (w.chans self).isJoined

def World.view (channel : Bytes) (w : World) : Option View :=
  (w.server.channels.get channel).map fun self => IrcChannel.view self w

end LibIrcBot
