import LibIrcBot.System.IrcServer

/-! # Connections

The functions of `connection.c` that do I/O or raise events, for a build with TLS; a
connection without TLS takes the other branch in each of them.
-/
namespace LibIrcBot.Connection

def raiseConnected (self : ConnId) (w : World) : Run :=
  (w.log self .connected).raise (fun w => (w.conns self).connected) (fun _ w => .ok (IrcServer.connConnected self w)) 0

def raiseClosed (self : ConnId) (established : Bool) (w : World) : Run :=
  w.raise (fun w => (w.conns self).closed) (fun _ => IrcServer.connClosed self established) 0

def raiseDataReceived (env : Env) (self : ConnId) (data : Bytes) (w : World) : Run :=
  (w.log self .dataReceived).raise (fun w => (w.conns self).dataReceived)
    (fun _ => IrcServer.connDataReceived env self data) 0

def raiseDataSent (self : ConnId) (w : World) : Run :=
  w.raise (fun w => (w.conns self).dataSent) (fun _ => IrcServer.connDataSent self) 0

/-- Raise `dataSent` for a record, unless its id is null. -/
def confirm (self : ConnId) (id : Bool) (w : World) : Run := if id then raiseDataSent self w else .ok w

def create (fd : ℤ) (tls : Bool) (w : World) : ConnId × World :=
  let self := w.nconns
  (self,Service.registerWrite fd { w with
    conns := Function.update w.conns self { w.conns self with
      connected := Event.create
      closed := Event.create
      dataReceived := Event.create
      dataSent := Event.create
      tls := tls
      handling := false
      fd := fd
      connecting := CONNTICKS
      tlsConnectSt := .none
      tlsReadSt := .none
      tlsWriteSt := .none
      deleteScheduled := 0
      nrecs := 0
      baserecidx := 0 }
    nconns := w.nconns + 1
    service.readyRead := w.service.readyRead.register () (.readConnection self) fd
    service.readyWrite := w.service.readyWrite.register () (.writeConnection self) fd
    service.tick := w.service.tick.register () (.checkPendingConnection self) 0 })

def deleteLater (self : ConnId) (w : World) : World :=
  if (w.conns self).deleteScheduled = 0 then
    let w := w.log self .close
    { w with service.eventsDone := w.service.eventsDone.register () (.deleteConnection self) 0 }.setConn self
      fun c => { c with deleteScheduled := 1 }
  else w

def close (self : ConnId) (w : World) : Run := do
  let w ← raiseClosed self ((w.conns self).connecting = 0) w
  pure (deleteLater self w)

def dropRecord (c : Connection) : Connection :=
  { c with
    baserecidx := if c.baserecidx + 1 = NWRITERECS then 0 else c.baserecidx + 1
    nrecs := (c.nrecs + 255) % 256 }

/-- The loop of `Connection_destroy` over the pending records, with a bound on its passes. -/
def drain (self : ConnId) : ℕ → World → Run
  | 0, w => if (w.conns self).nrecs = 0 then .ok w else w.fail .outOfFuel
  | n + 1, w =>
    let c := w.conns self
    if c.nrecs = 0 then .ok w
    else do
      let w ← confirm self (c.writerecs c.baserecidx).id w
      drain self n (w.setConn self dropRecord)

def destroy (self : ConnId) (w : World) : Run :=
  if (w.conns self).deleteScheduled = 1 then .ok w
  else do
    let w := w.log self .destroy
    let fd := (w.conns self).fd
    let w ← drain self (w.conns self).nrecs (Service.unregisterWrite fd (Service.unregisterRead fd w))
    let w :=
      if (w.conns self).deleteScheduled ≠ 0 then
        { w with service.eventsDone := w.service.eventsDone.unregister () (.deleteConnection self) 0 }
      else w.log self .close
    pure { w with
      service.tick :=
        (w.service.tick.unregister () (.checkPendingTls self) 0).unregister () (.checkPendingConnection self) 0
      service.readyRead := w.service.readyRead.unregister () (.readConnection self) fd
      service.readyWrite := w.service.readyWrite.unregister () (.writeConnection self) fd }

def deleteConnection (self : ConnId) (w : World) : Run :=
  destroy self (w.setConn self fun c => { c with deleteScheduled := 2 })

def checkPendingConnection (self : ConnId) (w : World) : Run :=
  if (w.conns self).connecting ≠ 0 then
    let w := w.setConn self fun c => { c with connecting := c.connecting - 1 }
    if (w.conns self).connecting = 0 then close self (Service.unregisterWrite (w.conns self).fd w) else .ok w
  else .ok w

def checkPendingTls (self : ConnId) (w : World) : Run :=
  if (w.conns self).tlsConnectTicks ≠ 0 then
    let w := w.setConn self fun c => { c with tlsConnectTicks := c.tlsConnectTicks - 1 }
    if (w.conns self).tlsConnectTicks = 0 then close self w else .ok w
  else .ok w

def dohandshake (env : Env) (self : ConnId) (w : World) : Run :=
  let w := w.log self .sslConnect
  match env.sslConnect with
  | .done => do
    let w := w.setConn self fun c => { c with tlsConnectSt := .none }
    let w := { w with service.tick := w.service.tick.unregister () (.checkPendingTls self) 0 }
    let w ← raiseConnected self (w.setConn self fun c => { c with tlsConnectTicks := 0 })
    pure (wantreadwrite self w)
  | .want .none | .failed =>
    close self { w with service.tick := w.service.tick.unregister () (.checkPendingTls self) 0 }
  | .want st => .ok (wantreadwrite self (w.setConn self fun c => { c with tlsConnectSt := st }))

/-- What happens when a write has sent `n` bytes of the first record. A TLS connection
looks for its next interest after the event, any other one before it. -/
def sent (self : ConnId) (n : ℕ) (w : World) : Run :=
  let c := w.conns self
  let record := c.writerecs c.baserecidx
  if n < record.wrbuflen - record.wrbufpos then
    let w := w.setConn self fun c => { c with
      writerecs := Function.update c.writerecs c.baserecidx { record with wrbufpos := record.wrbufpos + n } }
    .ok (if c.tls then wantreadwrite self w else w)
  else
    let w := w.setConn self dropRecord
    if c.tls then do
      let w ← confirm self record.id w
      pure (wantreadwrite self w)
    else
      let w := wantreadwrite self w
      confirm self record.id w

def dowrite (env : Env) (self : ConnId) (w : World) : Run :=
  if (w.conns self).tls then
    let w := w.log self .sslWrite
    match env.write with
    | .sent n => sent self n (w.setConn self fun c => { c with tlsWriteSt := .none })
    | .want .none | .failed => close self w
    | .want st => .ok (wantreadwrite self (w.setConn self fun c => { c with tlsWriteSt := st }))
  else
    let w := w.log self .write
    match env.write with
    | .sent n => sent self n w
    | .want _ => .ok w
    | .failed => close self w

def doread (env : Env) (self : ConnId) (w : World) : Run :=
  if (w.conns self).tls then
    let w := w.log self .sslRead
    match env.read with
    | .data chunk => do
      let w ← raiseDataReceived env self chunk.bytes (w.setConn self fun c => { c with tlsReadSt := .none })
      pure (wantreadwrite self w)
    | .want .none | .failed => close self w
    | .want st => .ok (wantreadwrite self (w.setConn self fun c => { c with tlsReadSt := st }))
  else
    let w := w.log self .read
    match env.read with
    | .data chunk => do
      let w ← raiseDataReceived env self chunk.bytes w
      pure (wantreadwrite self w)
    | .want _ => .ok w
    | .failed => close self w

def writeConnection (env : Env) (self : ConnId) (w : World) : Run :=
  let c := w.conns self
  if c.connecting ≠ 0 then
    let w := { w with service.tick := w.service.tick.unregister () (.checkPendingConnection self) 0 }
    let w := w.log self .getsockopt
    if env.sockErr then close self w
    else
      let w := w.setConn self fun c => { c with connecting := 0 }
      if c.tls then
        let w := w.setConn self fun c => { c with tlsConnectTicks := CONNTICKS }
        dohandshake env self { w with service.tick := w.service.tick.register () (.checkPendingTls self) 0 }
      else raiseConnected self (wantreadwrite self w)
  else if c.tlsConnectSt = .wantWrite then dohandshake env self w
  else if c.tlsReadSt = .wantWrite then doread env self w
  else if c.tlsWriteSt = .wantWrite then dowrite env self w
  else if c.nrecs = 0 then .ok (wantreadwrite self w)
  else dowrite env self w

def readConnection (env : Env) (self : ConnId) (w : World) : Run :=
  let c := w.conns self
  if c.tlsConnectSt = .wantRead then dohandshake env self w
  else if c.tlsReadSt = .wantRead then doread env self w
  else if c.tlsWriteSt = .wantRead then dowrite env self w
  else if c.handling then .ok w
  else doread env self w

end LibIrcBot.Connection

namespace LibIrcBot.IrcServer
open CString

def closeConn (w : World) : Run :=
  match w.server.conn with
  | some conn => Connection.close conn w
  | none => w.fail .nullConn

def connect (env : Env) (w : World) : ℤ × World :=
  if w.server.conn.isSome then (0,w)
  else
    match env.socket with
    | none => (-1,w)
    | some fd =>
      let (conn,w) := Connection.create fd w.server.tls w
      (0,{ w with server.conn := some conn }.setConn conn fun c => { c with
        connected := c.connected.register () .connConnected 0
        closed := c.closed.register () .connClosed 0 })

def connWaitReconn (env : Env) (w : World) : World :=
  let w := { w with server.reconnticks := w.server.reconnticks - 1 }
  if w.server.reconnticks ≤ 0 then
    let (rc,w) := connect env w
    if rc < 0 then { w with server.reconnticks := RECONNTICKS }
    else { w with service.tick := w.service.tick.unregister () .connWaitReconn 0 }
  else w

def connWaitLogin (w : World) : Run :=
  let w := { w with server.loginticks := w.server.loginticks - 1 }
  if w.server.loginticks ≤ 0 then
    closeConn { w with service.tick := w.service.tick.unregister () .connWaitLogin 0 }
  else .ok w

def activeTick (w : World) : Run := do
  let w :=
    if w.server.sendcreditticks < FULLSENDCREDIT then
      { w with server.sendcreditticks := w.server.sendcreditticks + 1 }
    else w
  let w ← sendRaw none w
  let w := { w with server.idleticks := w.server.idleticks - 1 }
  if w.server.idleticks = 0 then sendRawCmd .MSG_PING (some w.server.nick) w
  else if w.server.idleticks ≤ -PINGTICKS then
    closeConn { w with service.tick := w.service.tick.unregister () .activeTick 0 }
  else pure w

def disconnect (w : World) : Run :=
  let w := { w with
    service.tick := (w.service.tick.unregister () .connWaitLogin 0).unregister () .connWaitReconn 0 }
  if w.server.connst > 0 then sendRawCmd .MSG_QUIT (some (lit ":bye.")) w
  else
    match w.server.conn with
    | some conn => Connection.close conn w
    | none => .ok w

/-- The deleter calls of `IBHashTable_destroy` on the channels. -/
def destroyChannels (w : World) : World :=
  w.server.channels.destroy.foldl
    (fun w call =>
      match call with
      | (.destroyIrcChannel,chan) => IrcChannel.destroy chan w
      | _ => w) w

/-- The part of `IrcServer_destroy` for a server with a connection. -/
def dropConn (conn : ConnId) (w : World) : Run := do
  let w ← disconnect (w.setConn conn fun c => { c with
    dataReceived := c.dataReceived.unregister () .connDataReceived 0
    dataSent := c.dataSent.unregister () .connDataSent 0
    connected := c.connected.unregister () .connConnected 0
    closed := c.closed.unregister () .connClosed 0 })
  let w ← destroyQueue w
  closeConn w

def destroy (w : World) : Run :=
  match w.server.conn with
  | none => .ok (destroyChannels w)
  | some conn => do
    let w ← dropConn conn w
    pure (destroyChannels w)

end LibIrcBot.IrcServer
