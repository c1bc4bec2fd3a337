import LibIrcBot.System.Connection
import LibIrcBot.Foundations.Transitions

/-! # The write ring of a connection

`Connection_write`, `dowrite` and `Connection_destroy` for a connection without TLS, with any
handlers of `dataSent`, which may write again. What they have in common with the connection of
a server are the functions `addRecord` and `dropRecord`.
-/
namespace LibIrcBot

def WriteRecord.bytes (r : WriteRecord) : Bytes := r.wrbuf.text.take r.wrbuflen

/-- A connection with ghost logs. -/
structure WriteRing where
  conn : Connection
  /-- The records of the calls of `Connection_write` that returned 0. -/
  accepted : List WriteRecord
  /-- The bytes that `write` has accepted. -/
  wire : Bytes
  /-- The buffers of the records that `dataSent` was raised for. -/
  raised : List Buffer
  /-- `Connection_destroy` has run. -/
  destroyed : Bool

namespace WriteRing
variable (self : WriteRing)

def write (buf : Buffer) (id : Bool) : ℤ × WriteRing :=
  if self.conn.nrecs = NWRITERECS then (-1,self)
  else (0,{ self with
    conn := Connection.addRecord buf id self.conn
    accepted := self.accepted ++ [⟨buf,id,buf.text.length % 2 ^ 16,0⟩] })

def base : WriteRecord := self.conn.writerecs self.conn.baserecidx

/-- The calls of `Connection_write` by a handler of `dataSent`. -/
def writes (calls : List (Buffer × Bool)) : WriteRing := calls.foldl (fun s call => (s.write call.1 call.2).2) self

/-- `Event_raise` on `dataSent` for the record, unless its id is null. -/
def confirm (r : WriteRecord) : WriteRing := if r.id then { self with raised := self.raised ++ [r.wrbuf] } else self

/-- `dowrite` when `write` returns `n`; the handlers of `dataSent` make some calls. -/
def sent (n : ℕ) (calls : List (Buffer × Bool)) : WriteRing :=
  let r := self.base
  let self := { self with wire := self.wire ++ (r.bytes.drop r.wrbufpos).take n }
  if n < r.wrbuflen - r.wrbufpos then
    { self with conn := { self.conn with
      writerecs := Function.update self.conn.writerecs self.conn.baserecidx { r with wrbufpos := r.wrbufpos + n } } }
  else
    let self := confirm { self with conn := Connection.dropRecord self.conn } r
    if r.id then self.writes calls else self

def deleteLater : WriteRing :=
  if self.conn.deleteScheduled = 0 then { self with conn := { self.conn with deleteScheduled := 1 } } else self

def dowrite (result : WriteResult) (calls : List (Buffer × Bool)) : WriteRing :=
  match result with
  | .sent n => self.sent n calls
  | .want _ => self
  | .failed => self.deleteLater

def writeConnection (sockErr : Bool) (result : WriteResult) (calls : List (Buffer × Bool)) : WriteRing :=
  if self.conn.connecting ≠ 0 then
    if sockErr then self.deleteLater else { self with conn := { self.conn with connecting := 0 } }
  else if self.conn.nrecs = 0 then self
  else self.dowrite result calls

/-- The loop of `Connection_destroy`, with a bound on its passes. -/
def drain : ℕ → WriteRing → WriteRing
  | 0, self => self
  | n + 1, self =>
    if self.conn.nrecs = 0 then self
    else
      let self := self.confirm self.base
      drain n { self with conn := Connection.dropRecord self.conn }

def destroy : WriteRing :=
  if self.conn.deleteScheduled = 1 then self else { drain self.conn.nrecs self with destroyed := true }

def deleteConnection : WriteRing := destroy { self with conn := { self.conn with deleteScheduled := 2 } }

inductive Label where
  | write (buf : Buffer) (id : Bool)
  | writeConnection (sockErr : Bool) (result : WriteResult) (calls : List (Buffer × Bool))
  | close
  | destroy
  | eventsDone

/-- A step on a connection that is not freed. -/
def step (l : Label) (self : WriteRing) : WriteRing :=
  if self.destroyed then self
  else match l with
    | .write buf id => (self.write buf id).2
    | .writeConnection sockErr result calls => self.writeConnection sockErr result calls
    | .close => self.deleteLater
    | .destroy => self.destroy
    | .eventsDone => if self.conn.deleteScheduled = 1 then self.deleteConnection else self

def Offered : Label → WriteRing → Prop
  | .writeConnection _ (.sent n) _, s => n ≤ s.base.wrbuflen - s.base.wrbufpos
  | _, _ => True

/-- The connection was created without TLS. -/
structure Initial (s : WriteRing) : Prop where
  tls : s.conn.tls = false
  deleteScheduled : s.conn.deleteScheduled = 0
  nrecs : s.conn.nrecs = 0
  baserecidx : s.conn.baserecidx = 0
  accepted : s.accepted = []
  wire : s.wire = []
  raised : s.raised = []
  destroyed : s.destroyed = false

abbrev Reached : WriteRing → Prop :=
  Transitions.Reaches (fun l s => (.ok (step l s) : Except Empty WriteRing)) Offered Initial

def init : WriteRing where
  conn :=
    { connected := Event.create, closed := Event.create, dataReceived := Event.create, dataSent := Event.create
      tls := false, writerecs := fun _ => ⟨⟨0,[]⟩,false,0,0⟩, handling := false, fd := 0, connecting := 0
      tlsConnectSt := .none, tlsConnectTicks := 0, tlsReadSt := .none, tlsWriteSt := .none
      deleteScheduled := 0, nrecs := 0, baserecidx := 0 }
  accepted := []
  wire := []
  raised := []
  destroyed := false

theorem init_initial : init.Initial := ⟨rfl,rfl,rfl,rfl,rfl,rfl,rfl,rfl⟩

end WriteRing
end LibIrcBot
