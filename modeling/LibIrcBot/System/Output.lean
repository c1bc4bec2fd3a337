import LibIrcBot.System.State

/-! # Writing to a connection

The descriptor sets of `service.c`, the write records of `connection.c` and the send
queue of `ircserver.c`: everything a command passes through before `write` is called.
-/
namespace LibIrcBot
open CString

namespace Service

def registerRead (id : ℤ) (w : World) : World :=
  { w with service.readfds := Function.update w.service.readfds id true }

def unregisterRead (id : ℤ) (w : World) : World :=
  { w with service.readfds := Function.update w.service.readfds id false }

def registerWrite (id : ℤ) (w : World) : World :=
  { w with service.writefds := Function.update w.service.writefds id true }

def unregisterWrite (id : ℤ) (w : World) : World :=
  { w with service.writefds := Function.update w.service.writefds id false }

/-- `Service_shutdownLock`, without the timer it restarts. -/
def shutdownLock (w : World) : World :=
  if w.service.shutdownRef ≥ 0 then { w with service.shutdownRef := w.service.shutdownRef + 1 } else w

def shutdownUnlock (w : World) : World :=
  if w.service.shutdownRef > 0 then { w with service.shutdownRef := w.service.shutdownRef - 1 } else w

end Service

namespace Connection

def wantsWrite (c : Connection) : Bool :=
  c.connecting ≠ 0 || c.tlsConnectSt = .wantWrite || c.tlsReadSt = .wantWrite || c.tlsWriteSt = .wantWrite ||
    c.nrecs ≠ 0

def wantsRead (c : Connection) : Bool :=
  c.tlsConnectSt = .wantRead || c.tlsReadSt = .wantRead || c.tlsWriteSt = .wantRead || !c.handling

def wantreadwrite (self : ConnId) (w : World) : World :=
  let w := w.log self .wantreadwrite
  let c := w.conns self
  let w := if wantsWrite c then Service.registerWrite c.fd w else Service.unregisterWrite c.fd w
  if wantsRead c then Service.registerRead c.fd w else Service.unregisterRead c.fd w

theorem wantreadwrite_shape (self : ConnId) (w : World) : ∃ operations readfds writefds,
    wantreadwrite self w = { w with
      ghost.operations := operations
      service.readfds := readfds
      service.writefds := writefds } := by
  unfold wantreadwrite
  dsimp only
  split <;> split <;> exact ⟨_,_,_,rfl⟩

def addRecord (buf : Buffer) (id : Bool) (c : Connection) : Connection :=
  { c with
    writerecs := Function.update c.writerecs ((c.baserecidx + c.nrecs) % NWRITERECS)
      ⟨buf,id,buf.text.length % 2 ^ 16,0⟩
    nrecs := c.nrecs + 1 }

/-- What a call of `Connection_write` does to the connection itself. -/
def record (buf : Buffer) (id : Bool) (c : Connection) : Connection :=
  if c.nrecs = NWRITERECS then c else addRecord buf id c

def writes (calls : List (Buffer × Bool)) (c : Connection) : Connection :=
  calls.foldl (fun c call => record call.1 call.2 c) c

def write (self : ConnId) (buf : Buffer) (id : Bool) (w : World) : ℤ × World :=
  if (w.conns self).nrecs = NWRITERECS then (-1,w)
  else (0,wantreadwrite self (w.setConn self (addRecord buf id)))

end Connection

namespace IrcServer

def queueRaw (command : Option Bytes) (w : World) : Run :=
  match command with
  | none => .ok w
  | some command =>
    let w := { w with ghost.commands := w.ghost.commands ++ [command] }
    match w.server.sendQueue with
    | none => w.fail .nullQueue
    | some queue =>
      let (buf,w) := w.copystr command
      .ok { w with server.sendQueue := some (queue.enqueue buf (some .free)) }

/-- The part of `sendRaw` that hands the next command to the connection. -/
def sendNext (w : World) : Run :=
  if w.server.sendcreditticks < 2 || w.server.sending then .ok w
  else match w.server.sendQueue with
    | none => w.fail .nullQueue
    | some queue =>
      match queue.dequeue with
      | (none,queue) => .ok { w with server.sendQueue := some queue, server.sendcmd := none }
      | (some none,_) => w.fail .wildPointer
      | (some (some sendcmd),queue) =>
        let w := { w with
          server.sendQueue := some queue
          server.sendcmd := some sendcmd
          server.sending := true
          server.sendcreditticks := w.server.sendcreditticks - 2 }
        match w.server.conn with
        | none => w.fail .nullConn
        | some conn => .ok (Connection.write conn sendcmd true w).2

def sendRaw (command : Option Bytes) (w : World) : Run := do
  let w ← queueRaw command w
  sendNext w

/-- The string `sendRawCmd` formats into its buffer of 513 bytes. -/
def rawCmd (cmd args : Bytes) : Bytes := snprintf 513 (cmd ++ [SPACE] ++ args ++ [CR,LF])

def sendRawCmd (cmd : IrcCommand) (args : Option Bytes) (w : World) : Run := do
  let cmd ← w.deref cmd.str
  let args ← w.deref args
  sendRaw (some (rawCmd cmd args)) w

def sendCmd (cmd : IrcCommand) (args : Bytes) (w : World) : Except (Fault × World) (ℤ × World) :=
  if w.server.connst ≤ 0 then .ok (-1,w)
  else do
    let w ← sendRawCmd cmd (some args) w
    pure (0,w)

/-- `sizeof rawmsg`. -/
def RAWMSGSZ : ℕ := 513

def msgHeader (recipient : Bytes) (action : Bool) : Bytes :=
  lit "PRIVMSG" ++ [SPACE] ++ recipient ++ [SPACE,COLON] ++ if action then lit "\x01ACTION " else []

def msgEnd (action : Bool) : Bytes := if action then [1,CR,LF] else [CR,LF]

/-- The loop of `IrcServer_sendMsg`, with a bound on its passes. -/
def sendChunks (header : Bytes) (action : Bool) (maxchunk : ℕ) : ℕ → Bytes → World → Run
  | 0, message, w => if message = [] then .ok w else w.fail .outOfFuel
  | n + 1, message, w =>
    if message = [] then .ok w
    else
      let chunksz := if message.length > maxchunk then maxchunk else message.length
      let rawmsg := header ++ message.take chunksz ++ msgEnd action
      if rawmsg.length + 1 > RAWMSGSZ then w.fail .outOfBounds
      else do
        let w ← sendRaw (some rawmsg) w
        sendChunks header action maxchunk n (message.drop chunksz) w

def sendMsg (recipient message : Bytes) (action : Bool) (w : World) : Except (Fault × World) (ℤ × World) :=
  if w.server.connst ≤ 0 then .ok (-1,w)
  else if recipient.length > 255 then .ok (-1,w)
  else
    let header := msgHeader recipient action
    if header.length + 1 > RAWMSGSZ then .error (.outOfBounds,w)
    else do
      let maxchunk := RAWMSGSZ - header.length - 3 - if action then 1 else 0
      let w ← sendChunks header action maxchunk message.length message w
      pure (0,w)

end IrcServer
end LibIrcBot
