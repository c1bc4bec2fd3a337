import LibIrcBot.Foundations.Replica
import LibIrcBot.Parties.NickTables

/-! # The nick of the bot

The bot takes a nick at once and tells the server, which grants it or not and may change it on its own. Two parties
again: the bot does anything the program can do, and the server decides on the nick under which it knows the bot.
-/
namespace LibIrcBot
open CString Transitions

inductive NickNotice where
  | welcome (name nick : Bytes)
  | changed (old host new : Bytes)
  | inUse (nick : Bytes)
  /-- Another user changes the nick. -/
  | other (old host new : Bytes)
deriving DecidableEq, Repr

namespace NickNotice

def message : NickNotice → IrcMessage
  | welcome name nick => .of name .RPL_MYINFO [nick,name,lit "1",lit "i"]
  | changed old host new | other old host new => .of (userPrefix old host) .MSG_NICK [new]
  | inUse nick => .of Notice.origin .ERR_NICKNAMEINUSE [lit "*",nick,lit "Nickname is already in use."]

/-- The nick of the bot is none that another user gives up, and leaves room for one more character. -/
def Clear (own : Bytes) : NickNotice → Prop
  | other old _ _ => old ≠ own
  | inUse _ => own.length < 126
  | _ => True

instance (own : Bytes) (n : NickNotice) : Decidable (n.Clear own) := by
  cases n <;> unfold Clear <;> infer_instance

end NickNotice

def wish (command : Bytes) : Option Bytes :=
  if command.take 5 = lit "NICK " then some ((command.drop 5).take (command.length - 7)) else none

structure Naming where
  bot : World
  /-- The number of commands of the bot that the server has processed, or that are lost. -/
  processed : ℕ
  /-- What the server has sent and the bot has not handled. -/
  answers : List NickNotice
  /-- The nick of the bot on the server, once it is registered there. -/
  nick : Option Bytes

namespace Naming

def sent (N : Naming) : List Bytes := N.bot.ghost.commands.drop N.processed

def lost (w : World) : Naming where
  bot := w
  processed := w.ghost.commands.length
  answers := []
  nick := none

/-- The bot runs a function, which may end the connection. A channel that is destroyed a second time has been freed. -/
def act (N : Naming) (r : Run) : Except Fault Naming :=
  match r with
  | .ok w =>
    if w.ghost.destroyed.Nodup then .ok (if w.server.conn = none then lost w else { N with bot := w })
    else .error .wildPointer
  | .error e => .error e.1

/-- The server processes a command. A wish for a nick that the bot has is passed over; any other is refused or
granted, which registers a bot that has none. -/
def process (refused : Bool) (name host : Bytes) (N : Naming) : Naming :=
  match N.sent with
  | [] => N
  | command :: _ =>
    let done := { N with processed := N.processed + 1 }
    match wish command with
    | none => done
    | some nick =>
      if N.nick = some nick then done
      else if refused then { done with answers := N.answers ++ [.inUse nick] }
      else
        match N.nick with
        | none => { done with nick := some nick, answers := N.answers ++ [.welcome name nick] }
        | some old => { done with nick := some nick, answers := N.answers ++ [.changed old host nick] }

/-- The server changes the nick of the bot, or tells of another user. -/
def force (host new : Bytes) (N : Naming) : Naming :=
  match N.nick with
  | none => N
  | some old => { N with nick := some new, answers := N.answers ++ [.changed old host new] }

def rename (old host new : Bytes) (N : Naming) : Naming :=
  match N.nick with
  | none => N
  | some _ => { N with answers := N.answers ++ [.other old host new] }

/-- The next connection is opened and established; the first data on it triggers the login data. -/
def connect (env : Env) (w : World) : Run :=
  let w := (IrcServer.connect env w).2
  match w.server.conn with
  | none => .ok w
  | some conn => do
    let w ← Connection.raiseConnected conn (w.setConn conn fun c => { c with connecting := 0 })
    IrcServer.sendLogin env w

inductive Label where
  | setNick (nick : Bytes)
  | join (channel : Bytes) | part (channel : Bytes)
  | sendMsg (recipient message : Bytes) (action : Bool)
  | disconnect
  | activeTick | connWaitLogin
  | waitjoin (self : ChanId) | waitrejoin (self : ChanId)
  /-- A message that is not about nicks. -/
  | message (env : Env) (m : IrcMessage)
  | deliver (env : Env)
  | process (refused : Bool) (name host : Bytes)
  | force (host new : Bytes)
  | rename (old host new : Bytes)
  | lose (established : Bool)
  | connect (env : Env)

def step : Label → Naming → Except Fault Naming
  | .setNick nick, N => N.act (IrcServer.setNick nick N.bot)
  | .join channel, N => N.act (IrcServer.join channel N.bot)
  | .part channel, N => N.act (IrcServer.part channel N.bot)
  | .sendMsg recipient message action, N => N.act ((IrcServer.sendMsg recipient message action N.bot).map Prod.snd)
  | .disconnect, N => N.act (IrcServer.disconnect N.bot)
  | .activeTick, N =>
    if 0 < N.bot.service.tick.count () .activeTick 0 then N.act (IrcServer.activeTick N.bot) else .ok N
  | .connWaitLogin, N =>
    if 0 < N.bot.service.tick.count () .connWaitLogin 0 then N.act (IrcServer.connWaitLogin N.bot) else .ok N
  | .waitjoin self, N =>
    if 0 < N.bot.service.tick.count () (.waitjoin self) 0 then N.act (IrcChannel.waitjoin self N.bot) else .ok N
  | .waitrejoin self, N =>
    if 0 < N.bot.service.tick.count () (.waitrejoin self) 0 then N.act (IrcChannel.waitrejoin self N.bot) else .ok N
  | .message env m, N => if N.bot.server.conn = none then .ok N else N.act (IrcServer.handleMessage env m N.bot)
  | .deliver env, N =>
    match N.answers with
    | [] => .ok N
    | notice :: answers => { N with answers := answers }.act (IrcServer.handleMessage env notice.message N.bot)
  | .process refused name host, N => .ok (N.process refused name host)
  | .force host new, N => .ok (N.force host new)
  | .rename old host new, N => .ok (N.rename old host new)
  | .lose established, N =>
    match N.bot.server.conn with
    | none => .ok N
    | some conn => N.act (IrcServer.connClosed conn established N.bot)
  | .connect env, N => if N.bot.server.conn = none then N.act (connect env N.bot) else .ok N

/-- The bot is not connected, and the server does not know it. -/
structure Initial (N : Naming) : Prop where
  bot : N.bot.Reachable
  conn : N.bot.server.conn = none
  processed : N.processed = N.bot.ghost.commands.length
  answers : N.answers = []
  nick : N.nick = none
  own : ValidNick N.bot.server.nick

/-- The application sets the nick when no login is under way. Nicks are valid, and stay so after refusals. When
another user changes a nick, the bot has not taken that nick itself. -/
def Careful : Label → Naming → Prop
  | .setNick nick, N => ValidNick nick ∧ (N.bot.logged = true ∨ N.bot.server.conn = none)
  | .message _ m, _ => m.command ≠ .MSG_NICK ∧ m.command ≠ .ERR_NICKNAMEINUSE ∧ m.command ≠ .RPL_MYINFO
  | .deliver _, N => ∀ n ∈ N.answers.head?, n.Clear N.bot.server.nick
  | .force _ new, _ => ValidNick new
  | .rename old _ _, _ => ValidNick old
  | _, _ => True

instance (l : Label) (N : Naming) : Decidable (Careful l N) := by
  cases l <;> unfold Careful <;> infer_instance

end Naming
end LibIrcBot
