import LibIrcBot.System.Service
import LibIrcBot.Foundations.Transitions

/-! # Creation and runs

A run starts with the objects that `Service_init` and `IrcServer_create` leave behind and
goes on with steps in any order and in any surroundings.
-/
namespace LibIrcBot
open CString Transitions

/-- A connection in memory of zeros. -/
def Connection.zero : Connection where
  connected := Event.create
  closed := Event.create
  dataReceived := Event.create
  dataSent := Event.create
  tls := false
  writerecs := fun _ => ⟨⟨0,[]⟩,false,0,0⟩
  handling := false
  fd := 0
  connecting := 0
  tlsConnectSt := .none
  tlsConnectTicks := 0
  tlsReadSt := .none
  tlsWriteSt := .none
  deleteScheduled := 0
  nrecs := 0
  baserecidx := 0

/-- A channel in memory of zeros. -/
def IrcChannel.zero : IrcChannel where
  name := []
  nicks := IBHashTable.create 8
  joined := Event.create
  parted := Event.create
  entered := Event.create
  left := Event.create
  failed := Event.create
  isJoined := false
  wantJoined := false
  joinsyncticks := 0
  rejointicks := 0

def Service.init : Service where
  tick := Event.create
  readyRead := Event.create
  readyWrite := Event.create
  eventsDone := Event.create
  readfds := fun _ => false
  writefds := fun _ => false
  shutdownRef := -1
  shutdownTicks := -1
  todo := []
  slot := 0
  selecting := false

def IrcServer.create (id nick : Bytes) (user realname : Option Bytes) (tls : Bool) : IrcServer where
  id := id
  tls := tls
  name := none
  nick := nick
  user := user
  realname := realname
  channels := IBHashTable.create 6
  conn := none
  sendQueue := none
  connected := Event.create
  disconnected := Event.create
  msgReceived := Event.create
  joined := Event.create
  parted := Event.create
  sendcmd := none
  sending := false
  connst := 0
  loginticks := 0
  reconnticks := 0
  idleticks := 0
  sendcreditticks := 0
  recvbuf := []

namespace World

/-- A program with one server, before `Service_run`, in memory of zeros. -/
def create (server : IrcServer) (handlers : List IrcBotEventHandler) : World where
  service := Service.init
  server := server
  bot := ⟨handlers,[]⟩
  conns := fun _ => Connection.zero
  nconns := 0
  chans := fun _ => IrcChannel.zero
  nchans := 0
  allocs := 0
  ghost := ⟨[],[],[],[],[],[],[],[],[]⟩

theorem create_initial (id nick : Bytes) (user realname : Option Bytes) (tls : Bool)
    (handlers : List IrcBotEventHandler) : (create (.create id nick user realname tls) handlers).Initial := by
  constructor <;> rfl

abbrev Reachable : World → Prop := Reaches step (fun _ _ => True) Initial

def run (labels : List Label) (w : World) : Run := labels.foldlM (fun w label => step label w) w

theorem run_reachable {labels : List Label} {w w' : World} (h : w.Reachable) (hr : run labels w = .ok w') :
    w'.Reachable := by
  induction labels generalizing w with
  | nil =>
    cases hr
    exact h
  | cons label labels ih =>
    rw [run,List.foldlM_cons] at hr
    cases hs : step label w with
    | ok t =>
      rw [hs] at hr
      exact ih (.next h trivial hs) hr
    | error e =>
      rw [hs] at hr
      cases hr

def after (labels : List Label) (w : World) : World :=
  match run labels w with
  | .ok w' => w'
  | .error e => e.2

theorem after_reachable {labels : List Label} {w : World} (h : w.Reachable) (hr : (run labels w).isOk) :
    (after labels w).Reachable := by
  unfold after
  cases hs : run labels w with
  | ok w' => exact run_reachable h hs
  | error e =>
    rw [hs] at hr
    cases hr

/-- Whether the labels form a run whose steps all meet a condition. -/
def meets (C : Label → World → Prop) [∀ l w, Decidable (C l w)] : List Label → World → Bool
  | [], _ => true
  | label :: labels, w => C label w &&
    match step label w with
    | .ok t => meets C labels t
    | .error _ => false

theorem reaches_after {C : Label → World → Prop} [∀ l w, Decidable (C l w)] {labels : List Label} {w : World}
    (h : Reaches step C Initial w) (hm : meets C labels w) : Reaches step C Initial (after labels w) := by
  induction labels generalizing w with
  | nil => exact h
  | cons label labels ih =>
    rw [meets,Bool.and_eq_true] at hm
    unfold after
    rw [run,List.foldlM_cons]
    cases hs : step label w with
    | ok t =>
      rw [hs] at hm
      exact ih (.next h (of_decide_eq_true hm.1) hs) hm.2
    | error e =>
      rw [hs] at hm
      cases hm.2

/-- One step from a state, as a run. -/
theorem step_after {label : Label} {w : World} (h : (step label w).isOk) : step label w = .ok (after [label] w) := by
  unfold after
  rw [run,List.foldlM_cons]
  cases hs : step label w with
  | ok t => rfl
  | error e =>
    rw [hs] at h
    cases h

def fault (r : Run) : Option Fault :=
  match r with
  | .ok _ => none
  | .error e => some e.1

theorem fault_eq {r : Run} {f : Fault} (h : fault r = some f) : ∃ e, r = .error e ∧ e.1 = f := by
  cases r with
  | ok w => cases h
  | error e => exact ⟨e,rfl,Option.some.inj h⟩

end World

def Env.failing : Env where
  sockErr := true
  sslConnect := .failed
  read := .failed
  write := .failed
  socket := none
  getpwuid := none
  getpwnam := fun _ => none
  stackbuf := []

/-- Surroundings in which data arrives, and nothing else succeeds. -/
def Env.delivering (chunk : Chunk) : Env := { failing with sockErr := false, read := .data chunk }

def Chunk.entered : Chunk := ⟨lit ":n JOIN #c\x0d\n:s 366 n #c\x0d\n",by decide,by decide⟩

/-- One iteration of the service loop in fixed surroundings, with as many visits of slots
in front of `pselect` and behind it as given. -/
def Label.iteration (ready : Service.Ready) (before behind : ℕ) (env : Env) : List Label :=
  .loop :: List.replicate before (.next env) ++ .select ready :: List.replicate behind (.next env)

def Label.connecting : List Label :=
  .startup { Env.failing with socket := some 3 } ::
    iteration (.io [3] []) 1 2 { Env.failing with sockErr := false }

/-- The connection on descriptor 3 delivers data, and then fails. -/
def Label.dropping (chunk : Chunk) : List Label :=
  iteration (.io [] [3]) 1 2 (.delivering chunk) ++ iteration (.io [] [3]) 1 2 .failing

/-- Some ticks after a closing the next connection, on descriptor 4, is established. -/
def Label.reconnecting : List Label :=
  (List.replicate 5 (iteration .tick 2 4 { Env.failing with socket := some 4 })).flatten ++
    iteration (.io [4] []) 2 3 { Env.failing with sockErr := false }

namespace World

/-- A server with nothing but a nick, after its first connection has been established. -/
def connected : World :=
  after Label.connecting (create (.create (lit "s") (lit "n") (some (lit "u")) (some (lit "r")) false) [])

theorem connected_reachable : connected.Reachable :=
  after_reachable (.start (create_initial _ _ _ _ _ _)) (by decide +kernel)

def loggedIn : World :=
  after (Label.iteration (.io [] [3]) 1 2 (Env.delivering ⟨lit ":s 004 n s x\x0d\n",by decide,by decide⟩)) connected

theorem loggedIn_reachable : loggedIn.Reachable := after_reachable connected_reachable (by decide +kernel)

end World
end LibIrcBot
