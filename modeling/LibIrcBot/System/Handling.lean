import LibIrcBot.System.Connection
import LibIrcBot.System.Readiness

/-! # A connection with any receivers

The functions of `connection.c` for a connection, plain or TLS, that anyone may use. What the
receivers of its events do is a list of calls, which goes with each event that a step raises. The
connection is one of several that share the descriptor sets. `Connection_destroy` ends it, and is
left out.
-/
namespace LibIrcBot

/-- A call that a receiver makes, or anyone else between two events. `args.handling` can be set
only while `dataReceived` is being raised, `receiving` says whether it is. -/
inductive ConnCall (receiving : Bool) where
  | write (buf : Buffer) (id : Bool)
  | activate
  | confirmDataReceived
  /-- `Connection_close`, with the calls of the receivers of `closed`. -/
  | close (closed : List (ConnCall receiving))
  | handle (h : receiving = true) (handling : Bool)

/-- What a call of `Connection_confirmDataReceived` found and left. -/
structure Confirmation where
  handling : Bool
  rc : ℤ
  /-- The descriptor is registered for reading when the call returns. -/
  registered : Bool

structure Handling where
  conn : Connection
  rdbuf : Bytes
  watch : Watch
  /-- Ghost: `args.handling` at each call of `read` or `SSL_read_ex`. -/
  reads : List Bool
  confirmations : List Confirmation
  /-- Ghost: the connection has registered its descriptor for reading before. -/
  armed : Bool

/-- What the operating system, OpenSSL and the receivers do during one event. -/
structure Answers where
  sockErr : Bool
  sslConnect : ConnectResult
  read : ReadResult
  write : WriteResult
  connected : List (ConnCall false)
  closed : List (ConnCall false)
  dataReceived : List (ConnCall true)
  dataSent : List (ConnCall false)

namespace Handling

/-- Descriptors are not negative. -/
def fd (self : Handling) : ℕ := self.conn.fd.toNat

def setConn (f : Connection → Connection) (self : Handling) : Handling := { self with conn := f self.conn }

def registerRead (self : Handling) : Handling :=
  { self with
    watch := self.watch.registerRead self.fd
    armed := true }

def unregisterRead (self : Handling) : Handling := { self with watch := self.watch.unregisterRead self.fd }
def registerWrite (self : Handling) : Handling := { self with watch := self.watch.registerWrite self.fd }
def unregisterWrite (self : Handling) : Handling := { self with watch := self.watch.unregisterWrite self.fd }

def wantreadwrite (self : Handling) : Handling :=
  let self := if self.conn.wantsWrite then self.registerWrite else self.unregisterWrite
  if self.conn.wantsRead then self.registerRead else self.unregisterRead

def write (buf : Buffer) (id : Bool) (self : Handling) : ℤ × Handling :=
  if self.conn.nrecs = NWRITERECS then (-1,self)
  else (0,wantreadwrite (self.setConn (Connection.addRecord buf id)))

def activate (self : Handling) : Handling := if self.conn.handling then self else self.wantreadwrite

def confirmDataReceived (self : Handling) : ℤ × Handling :=
  if self.conn.handling then (0,activate (self.setConn fun c => { c with handling := false })) else (-1,self)

def confirmed (self : Handling) : Handling :=
  let (rc,t) := self.confirmDataReceived
  { t with confirmations := t.confirmations ++ [⟨self.conn.handling,rc,decide (t.fd ∈ t.watch.fds .read)⟩] }

def deleteLater (self : Handling) : Handling :=
  if self.conn.deleteScheduled = 0 then self.setConn fun c => { c with deleteScheduled := 1 } else self

mutual

def call {receiving : Bool} : ConnCall receiving → Handling → Handling
  | .write buf id, self => (self.write buf id).2
  | .activate, self => self.activate
  | .confirmDataReceived, self => self.confirmed
  | .close closed, self => deleteLater (calls closed self)
  | .handle _ handling, self => self.setConn fun c => { c with handling := handling }

def calls {receiving : Bool} : List (ConnCall receiving) → Handling → Handling
  | [], self => self
  | c :: cs, self => calls cs (call c self)

end

def close (closed : List (ConnCall false)) (self : Handling) : Handling := call (.close closed) self

def checkPendingConnection (closed : List (ConnCall false)) (self : Handling) : Handling :=
  if self.conn.connecting ≠ 0 then
    let self := self.setConn fun c => { c with connecting := c.connecting - 1 }
    if self.conn.connecting = 0 then close closed self.unregisterWrite else self
  else self

def checkPendingTls (closed : List (ConnCall false)) (self : Handling) : Handling :=
  if self.conn.tlsConnectTicks ≠ 0 then
    let self := self.setConn fun c => { c with tlsConnectTicks := c.tlsConnectTicks - 1 }
    if self.conn.tlsConnectTicks = 0 then close closed self else self
  else self

def dohandshake (a : Answers) (self : Handling) : Handling :=
  match a.sslConnect with
  | .done =>
    wantreadwrite (calls a.connected (self.setConn fun c => { c with
      tlsConnectSt := .none
      tlsConnectTicks := 0 }))
  | .want .none | .failed => close a.closed self
  | .want st => wantreadwrite (self.setConn fun c => { c with tlsConnectSt := st })

/-- `Event_raise` on `dataSent`, unless the id of the record is null. -/
def raiseDataSent (a : Answers) (record : WriteRecord) (self : Handling) : Handling :=
  if record.id then calls a.dataSent self else self

/-- What happens when a write has sent `n` bytes of the first record. -/
def sent (a : Answers) (n : ℕ) (self : Handling) : Handling :=
  let c := self.conn
  let record := c.writerecs c.baserecidx
  if n < record.wrbuflen - record.wrbufpos then
    let self := self.setConn fun c => { c with
      writerecs := Function.update c.writerecs c.baserecidx { record with wrbufpos := record.wrbufpos + n } }
    if c.tls then self.wantreadwrite else self
  else
    let self := self.setConn Connection.dropRecord
    if c.tls then wantreadwrite (raiseDataSent a record self) else raiseDataSent a record self.wantreadwrite

def dowrite (a : Answers) (self : Handling) : Handling :=
  if self.conn.tls then
    match a.write with
    | .sent n => sent a n (self.setConn fun c => { c with tlsWriteSt := .none })
    | .want .none | .failed => close a.closed self
    | .want st => wantreadwrite (self.setConn fun c => { c with tlsWriteSt := st })
  else
    match a.write with
    | .sent n => sent a n self
    | .want _ => self
    | .failed => close a.closed self

def receive (a : Answers) (chunk : Chunk) (self : Handling) : Handling :=
  wantreadwrite (calls a.dataReceived { self with rdbuf := chunk.bytes })

def doread (a : Answers) (self : Handling) : Handling :=
  let self := { self with reads := self.reads ++ [self.conn.handling] }
  if self.conn.tls then
    match a.read with
    | .data chunk => receive a chunk (self.setConn fun c => { c with tlsReadSt := .none })
    | .want .none | .failed => close a.closed self
    | .want st => wantreadwrite (self.setConn fun c => { c with tlsReadSt := st })
  else
    match a.read with
    | .data chunk => receive a chunk self
    | .want _ => self
    | .failed => close a.closed self

def writeConnection (a : Answers) (self : Handling) : Handling :=
  let c := self.conn
  if c.connecting ≠ 0 then
    if a.sockErr then close a.closed self
    else
      let self := self.setConn fun c => { c with connecting := 0 }
      if c.tls then dohandshake a (self.setConn fun c => { c with tlsConnectTicks := CONNTICKS })
      else calls a.connected self.wantreadwrite
  else if c.tlsConnectSt = .wantWrite then dohandshake a self
  else if c.tlsReadSt = .wantWrite then doread a self
  else if c.tlsWriteSt = .wantWrite then dowrite a self
  else if c.nrecs = 0 then self.wantreadwrite
  else dowrite a self

def readConnection (a : Answers) (self : Handling) : Handling :=
  let c := self.conn
  if c.tlsConnectSt = .wantRead then dohandshake a self
  else if c.tlsReadSt = .wantRead then doread a self
  else if c.tlsWriteSt = .wantRead then dowrite a self
  else if c.handling then self
  else doread a self

inductive CreateMode where
  | CCM_NORMAL | CCM_WAIT | CCM_CONNECTING
deriving DecidableEq, Repr

def create (mode : CreateMode) (tls : Bool) (fd : ℕ) (memory : Connection) (rdbuf : Bytes) (watch : Watch) : Handling :=
  let self : Handling :=
    { conn := { memory with
        connected := Event.create
        closed := Event.create
        dataReceived := Event.create
        dataSent := Event.create
        tls := tls
        handling := false
        fd := fd
        connecting := 0
        tlsConnectSt := .none
        tlsReadSt := .none
        tlsWriteSt := .none
        deleteScheduled := 0
        nrecs := 0
        baserecidx := 0 }
      rdbuf := rdbuf
      watch := watch
      reads := []
      confirmations := []
      armed := false }
  match mode with
  | .CCM_CONNECTING => registerWrite (self.setConn fun c => { c with connecting := CONNTICKS })
  | .CCM_NORMAL => self.registerRead
  | .CCM_WAIT => self

inductive Label where
  | readConnection (a : Answers)
  | writeConnection (a : Answers)
  | checkPendingConnection (closed : List (ConnCall false))
  | checkPendingTls (closed : List (ConnCall false))
  | call (c : ConnCall false)
  /-- A registration of somebody else. -/
  | other (c : Watch.Call)

def Others (self : Handling) : Watch.Call → Bool
  | .registerRead id | .unregisterRead id | .registerWrite id | .unregisterWrite id => id ≠ self.fd

def step (self : Handling) : Label → Handling
  | .readConnection a => readConnection a self
  | .writeConnection a => writeConnection a self
  | .checkPendingConnection closed => checkPendingConnection closed self
  | .checkPendingTls closed => checkPendingTls closed self
  | .call c => call c self
  | .other c => if self.Others c then { self with watch := self.watch.step c } else self

def run (self : Handling) (ls : List Label) : Handling := ls.foldl step self

end Handling
end LibIrcBot
