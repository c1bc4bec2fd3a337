import LibIrcBot.System.Iterations
import LibIrcBot.System.Runs

/-! # Several servers

The program runs any number of servers in one loop. Each has the state of one server, and
they share the descriptors, the reference count and the ticks of the service. While an
event is raised the servers are visited in any order, each in the order of its own slots:
`Event_register` moves the slots, so that the order of the callbacks of two servers is
left open, and one of them may be passed over.
-/
namespace LibIrcBot
open CString Effects Relation Outcome Transitions

structure Member where
  world : World
  /-- The connection of the server at the first termination request. -/
  first : Option ConnId

/-- How `Service_run` ends: an error, no lock on the shutdown, or the limit of the ticks. -/
inductive Ending where
  | failed | orderly | limit
deriving DecidableEq, Repr

/-- Where `Service_run` is: the callbacks `startup` and `shutdown` go through the servers,
and behind `pselect` there may be further events to be raised. -/
inductive Phase where
  | starting (k : ℕ)
  | head
  | sweeping
  | selecting
  | raising (rest : List ServiceEvent)
  | stopping (k : ℕ)
  | ended (ending : Ending)
deriving DecidableEq, Repr

structure Fleet where
  members : List Member
  readfds : ℤ → Bool
  writefds : ℤ → Bool
  shutdownRef : ℤ
  shutdownTicks : ℤ
  phase : Phase
  /-- Termination has been requested. -/
  asked : Bool

/-- What one server does in a step. A slot is passed over when it is moved to the front. -/
inductive Part where
  | step (l : Label)
  | shutdown
  | skip

def Part.run : Part → World → Run
  | .step l => World.step l
  | .shutdown => Service.shutdown
  | .skip => fun w => .ok { w with service.slot := w.service.slot + 1 }

def Member.raise (event : ServiceEvent) (m : Member) : Member :=
  { m with world := { m.world with service.todo := [event], service.slot := 0 } }

namespace Fleet

/-- The state of one server with what it shares with the others. -/
def view (F : Fleet) (w : World) : World := { w with
  service.readfds := F.readfds
  service.writefds := F.writefds
  service.shutdownRef := F.shutdownRef
  service.shutdownTicks := F.shutdownTicks }

def put (F : Fleet) (i : ℕ) (m : Member) : Fleet := { F with
  members := F.members.set i m
  readfds := m.world.service.readfds
  writefds := m.world.service.writefds
  shutdownRef := m.world.service.shutdownRef
  shutdownTicks := m.world.service.shutdownTicks }

def act (i : ℕ) (part : Part) (phase : Phase) (F : Fleet) : Except Fault Fleet :=
  match F.members[i]? with
  | none => .ok F
  | some m =>
    match part.run (F.view m.world) with
    | .ok w => .ok { F.put i { m with world := w } with phase := phase }
    | .error e => .error e.1

def raise (event : ServiceEvent) (phase : Phase) (F : Fleet) : Fleet := { F with
  members := F.members.map (Member.raise event)
  phase := phase }

def raiseNext : List ServiceEvent → Fleet → Fleet
  | [], F => { F with phase := .head }
  | event :: rest, F => F.raise event (.raising rest)

/-- The first termination request finds the connections that are there. -/
def ask (F : Fleet) : Fleet := { F with
  members := F.members.map fun m => if F.asked then m else { m with first := m.world.server.conn }
  asked := true
  shutdownRef := 0
  shutdownTicks := 5
  phase := .stopping 0 }

def select (ready : Service.Ready) (F : Fleet) : Fleet :=
  match ready with
  | .shutdown => F.ask
  | .tick =>
    if F.shutdownTicks > 0 then
      let ticks := F.shutdownTicks - 1
      let F := { F with shutdownTicks := ticks }
      if ticks = 0 then { F with shutdownRef := 0, phase := .ended .limit } else F.raiseNext [.tick]
    else F.raiseNext [.tick]
  | .io writes reads =>
    if writes.all F.writefds && reads.all F.readfds then
      F.raiseNext (writes.map .readyWrite ++ reads.map .readyRead)
    else F

/-- The steps of the program: `startup` connects the next server, and returns; a visit is one
slot of the event being raised, for one server; `stop` is the callback `shutdown` for the
next server. The application makes its calls before `IrcBot_run` and from its own callbacks. -/
inductive Label where
  | connect (env : Env)
  | started (rc : Bool)
  | loop
  | visit (i : ℕ) (env : Env)
  | skip (i : ℕ)
  | proceed
  | select (ready : Service.Ready)
  | fail
  | stop
  | call (i : ℕ) (l : LibIrcBot.Label)

def connect (env : Env) (F : Fleet) : Except Fault Fleet :=
  match F.phase with
  | .starting k =>
    match F.members[k]? with
    | none => .ok F
    | some m =>
      if (IrcServer.connect env (F.view m.world)).1 < 0 then .ok { F with phase := .ended .failed }
      else F.act k (.step (.startup env)) (.starting (k + 1))
  | _ => .ok F

def stop (F : Fleet) : Except Fault Fleet :=
  match F.phase with
  | .stopping k => if k < F.members.length then F.act k .shutdown (.stopping (k + 1)) else .ok { F with phase := .head }
  | _ => .ok F

def proceed (F : Fleet) : Fleet :=
  if F.members.all fun m => m.world.service.todo = [] then
    match F.phase with
    | .sweeping => { F with phase := .selecting }
    | .raising rest => F.raiseNext rest
    | _ => F
  else F

end Fleet

def Phase.raises : Phase → Bool
  | .sweeping | .raising _ => true
  | _ => false

/-- Callbacks may run: in front of the loop, or behind `pselect`. -/
def Phase.serves : Phase → Bool
  | .head | .raising _ => true
  | _ => false

def Label.ofApplication : Label → Bool
  | .startup _ | .loop | .select _ | .next _ => false
  | _ => true

namespace Fleet

/-- The application may make its calls: before the program runs, when all servers have been connected, and from
callbacks. -/
def admits (F : Fleet) : Bool := F.phase.serves || F.phase = .starting 0 || F.phase = .starting F.members.length

def step : Label → Fleet → Except Fault Fleet
  | .connect env, F => F.connect env
  | .started ok, F =>
    .ok (if F.phase = .starting F.members.length then { F with phase := if ok then .head else .ended .failed } else F)
  | .loop, F =>
    .ok (if F.phase = .head then
      if F.shutdownRef ≠ 0 then F.raise .eventsDone .sweeping else { F with phase := .ended .orderly }
    else F)
  | .visit i env, F => if F.phase.raises then F.act i (.step (.next env)) F.phase else .ok F
  | .skip i, F => if F.phase.raises && F.phase.serves then F.act i .skip F.phase else .ok F
  | .proceed, F => .ok F.proceed
  | .select ready, F => .ok (if F.phase = .selecting then F.select ready else F)
  | .fail, F => .ok (if F.phase = .selecting || F.phase.raises then { F with phase := .ended .failed } else F)
  | .stop, F => F.stop
  | .call i l, F => if l.ofApplication && F.admits then F.act i (.step l) F.phase else .ok F

/-- The state after `Service_init` and the creation of the servers. -/
structure Initial (F : Fleet) : Prop where
  members : ∀ m ∈ F.members, m.world.Initial
  readfds : F.readfds = fun _ => false
  writefds : F.writefds = fun _ => false
  shutdownRef : F.shutdownRef = -1
  shutdownTicks : F.shutdownTicks = -1
  phase : F.phase = .starting 0
  asked : F.asked = false

abbrev Reachable : Fleet → Prop := Reaches step (fun _ _ => True) Initial

end Fleet

def Fleet.Label.socket : Fleet.Label → Option ℤ
  | .connect env | .visit _ env => env.socket
  | _ => none

def Part.socket : Part → Option ℤ
  | .step (.startup env) | .step (.next env) => env.socket
  | _ => none

def Part.Serves : Part → Prop
  | .step .loop | .step (.select _) => False
  | _ => True

/-- The service has moved on, or termination is requested for the first time. -/
structure Member.Shifted (m m' : Member) : Prop where
  world : ∃ todo slot, m'.world = { m.world with service.todo := todo, service.slot := slot }

theorem Member.Shifted.refl (m : Member) : m.Shifted m := ⟨_,_,rfl⟩

/-- The servers stay as they are, up to the position of the loop. -/
structure Fleet.Shifted (F F' : Fleet) : Prop where
  members : ∃ g : Member → Member, (∀ m : Member, m.Shifted (g m)) ∧ F'.members = F.members.map g
  readfds : F'.readfds = F.readfds
  writefds : F'.writefds = F.writefds

structure Fleet.Acts (F F' : Fleet) (i : ℕ) (m : Member) (part : Part) (w : World) : Prop where
  member : F.members[i]? = some m
  run : part.run (F.view m.world) = .ok w
  result : ∃ phase, F' = { F.put i { m with world := w } with phase := phase }
  serves : part.Serves

namespace Fleet
variable {F F' : Fleet}

theorem Shifted.of_eq (hm : F'.members = F.members) (hr : F'.readfds = F.readfds) (hw : F'.writefds = F.writefds) :
    F.Shifted F' := ⟨⟨id,Member.Shifted.refl,hm.trans (List.map_id _).symm⟩,hr,hw⟩

theorem Shifted.refl (F : Fleet) : F.Shifted F := .of_eq rfl rfl rfl

theorem raise_shifted (event : ServiceEvent) (phase : Phase) (F : Fleet) : F.Shifted (F.raise event phase) :=
  ⟨⟨Member.raise event,fun _ => ⟨_,_,rfl⟩,rfl⟩,rfl,rfl⟩

theorem raiseNext_shifted (events : List ServiceEvent) (F : Fleet) : F.Shifted (F.raiseNext events) := by
  cases events with
  | nil => exact .of_eq rfl rfl rfl
  | cons event rest => exact raise_shifted event _ F

theorem ask_shifted (F : Fleet) : F.Shifted F.ask := by
  refine ⟨⟨_,fun m => ?_,rfl⟩,rfl,rfl⟩
  split
  · exact .refl m
  · exact ⟨_,_,rfl⟩

theorem select_shifted (ready : Service.Ready) (F : Fleet) : F.Shifted (F.select ready) := by
  cases ready with
  | shutdown => exact ask_shifted F
  | tick =>
    unfold select
    dsimp only
    split
    · split
      · exact .of_eq rfl rfl rfl
      · obtain ⟨hm,hr,hw⟩ := raiseNext_shifted [.tick] { F with shutdownTicks := F.shutdownTicks - 1 }
        exact ⟨hm,hr,hw⟩
    · exact raiseNext_shifted _ F
  | io writes reads =>
    unfold select
    dsimp only
    split
    · exact raiseNext_shifted _ F
    · exact .refl F

theorem proceed_shifted (F : Fleet) : F.Shifted F.proceed := by
  unfold proceed
  split
  · split
    · exact .of_eq rfl rfl rfl
    · exact raiseNext_shifted _ F
    · exact .refl F
  · exact .refl F

theorem act_cases {i : ℕ} {part : Part} {phase : Phase} (hp : part.Serves) (h : F.act i part phase = .ok F') :
    F' = F ∨ ∃ m w, F.Acts F' i m part w := by
  unfold act at h
  split at h
  · exact Or.inl (Except.ok.inj h).symm
  · next m hm =>
    split at h
    · next w hw => exact Or.inr ⟨m,w,hm,hw,⟨phase,(Except.ok.inj h).symm⟩,hp⟩
    · cases h

/-- What a label can lead to. -/
theorem step_cases {l : Label} (hs : step l F = .ok F') :
    F.Shifted F' ∨ ∃ i m part w, F.Acts F' i m part w ∧ part.socket = l.socket := by
  have hact : ∀ {i : ℕ} (part : Part) {phase : Phase}, part.Serves → part.socket = l.socket →
      F.act i part phase = .ok F' → F.Shifted F' ∨ ∃ i m part w, F.Acts F' i m part w ∧ part.socket = l.socket := by
    intro i part phase hp hsock h
    rcases act_cases hp h with rfl | ⟨m,w,ha⟩
    · exact Or.inl (.refl _)
    · exact Or.inr ⟨i,m,part,w,ha,hsock⟩
  cases l with
  | connect env =>
    change F.connect env = _ at hs
    unfold connect at hs
    split at hs
    · split at hs
      · exact Or.inl ((Except.ok.inj hs) ▸ .refl F)
      · split at hs
        · exact Or.inl ((Except.ok.inj hs) ▸ .of_eq rfl rfl rfl)
        · exact hact (.step (.startup env)) trivial rfl hs
    · exact Or.inl ((Except.ok.inj hs) ▸ .refl F)
  | started ok =>
    refine Or.inl ((Except.ok.inj hs) ▸ ?_)
    split
    · exact .of_eq rfl rfl rfl
    · exact .refl F
  | loop =>
    refine Or.inl ((Except.ok.inj hs) ▸ ?_)
    split
    · split
      · exact raise_shifted _ _ F
      · exact .of_eq rfl rfl rfl
    · exact .refl F
  | visit i env =>
    change (if F.phase.raises then F.act i (.step (.next env)) F.phase else .ok F) = _ at hs
    split at hs
    · exact hact (.step (.next env)) trivial rfl hs
    · exact Or.inl ((Except.ok.inj hs) ▸ .refl F)
  | skip i =>
    change (if F.phase.raises && F.phase.serves then F.act i .skip F.phase else .ok F) = _ at hs
    split at hs
    · exact hact .skip trivial rfl hs
    · exact Or.inl ((Except.ok.inj hs) ▸ .refl F)
  | proceed => exact Or.inl ((Except.ok.inj hs) ▸ proceed_shifted F)
  | select ready =>
    refine Or.inl ((Except.ok.inj hs) ▸ ?_)
    split
    · exact select_shifted ready F
    · exact .refl F
  | fail =>
    refine Or.inl ((Except.ok.inj hs) ▸ ?_)
    split
    · exact .of_eq rfl rfl rfl
    · exact .refl F
  | stop =>
    change F.stop = _ at hs
    unfold stop at hs
    split at hs
    · split at hs
      · exact hact .shutdown trivial rfl hs
      · exact Or.inl ((Except.ok.inj hs) ▸ .of_eq rfl rfl rfl)
    · exact Or.inl ((Except.ok.inj hs) ▸ .refl F)
  | call i l =>
    change (if l.ofApplication && F.admits then F.act i (.step l) F.phase else .ok F) = _ at hs
    split at hs
    · next hl =>
      simp only [Bool.and_eq_true] at hl
      refine hact (.step l) ?_ ?_ hs <;> cases l <;> first | trivial | rfl | cases hl.1
    · exact Or.inl ((Except.ok.inj hs) ▸ .refl F)

end Fleet

namespace Part
variable {part : Part} {w w' : World}

/-- What a server does on its own is a sequence of actions. -/
theorem actions (h : Inv w) (hs : part.run w = .ok w') : ReflTransGen Action w w' := by
  cases part with
  | step l =>
    have ht := World.step_takes h l
    rw [show World.step l w = .ok w' from hs] at ht
    exact ht
  | shutdown =>
    have ht := Service.shutdown_acts h
    rw [show Service.shutdown w = .ok w' from hs] at ht
    exact ht
  | skip =>
    cases hs
    exact .single (Service.service_acts w _ _ _ _ _)

theorem tracked (h : Inv w) (ht : Tracked w) (hs : part.run w = .ok w') : Tracked w' := by
  cases part with
  | step l => exact ht.step h hs
  | shutdown =>
    have hm : Moves False False w (Service.shutdown w) := shutdown_moves h
    rw [show Service.shutdown w = .ok w' from hs] at hm
    exact tracked_of_moves hm ht
  | skip =>
    cases hs
    exact { ht with }

end Part

/-- The servers of a program keep the invariant of one server. -/
structure Fleet.Sound (F : Fleet) : Prop where
  inv : ∀ m ∈ F.members, Inv m.world
  tracked : ∀ m ∈ F.members, Tracked m.world

namespace Fleet
variable {F F' : Fleet}

theorem Sound.initial (h : F.Initial) : F.Sound :=
  ⟨fun m hm => .initial (h.members m hm),fun m hm => .initial (h.members m hm)⟩

theorem view_inv {w : World} (h : Inv w) : Inv (F.view w) := { h with }

theorem view_tracked {w : World} (h : Tracked w) : Tracked (F.view w) := { h with }

theorem Shifted.forall {P : World → Prop} (hs : F.Shifted F')
    (hP : ∀ (w : World) (todo : List ServiceEvent) (slot : ℕ), P w →
      P { w with service.todo := todo, service.slot := slot })
    (h : ∀ m ∈ F.members, P m.world) : ∀ m ∈ F'.members, P m.world := by
  obtain ⟨⟨g,hg,hm⟩,-,-⟩ := hs
  rw [hm]
  intro m' hm'
  obtain ⟨m,hmem,rfl⟩ := List.mem_map.mp hm'
  obtain ⟨todo,slot,hw⟩ := (hg m).world
  rw [hw]
  exact hP m.world todo slot (h m hmem)

section Acts
variable {i : ℕ} {m : Member} {part : Part} {w : World}

theorem Acts.members (ha : F.Acts F' i m part w) : F'.members = F.members.set i { m with world := w } := by
  obtain ⟨phase,rfl⟩ := ha.result
  rfl

theorem Acts.forall {P : World → Prop} (ha : F.Acts F' i m part w) (hw : P w) (h : ∀ m ∈ F.members, P m.world) :
    ∀ m ∈ F'.members, P m.world := by
  rw [ha.members]
  intro m' hm'
  rcases List.mem_or_eq_of_mem_set hm' with hm' | rfl
  · exact h m' hm'
  · exact hw

theorem Sound.acts (h : F.Sound) (ha : F.Acts F' i m part w) : F'.Sound := by
  have hmem := List.mem_of_getElem? ha.member
  have hinv : Inv (F.view m.world) := view_inv (h.inv m hmem)
  exact ⟨ha.forall (hinv.actions (Part.actions hinv ha.run)) h.inv,
    ha.forall (Part.tracked hinv (view_tracked (h.tracked m hmem)) ha.run) h.tracked⟩

end Acts

theorem Sound.step {l : Label} (h : F.Sound) (hs : Fleet.step l F = .ok F') : F'.Sound := by
  rcases step_cases hs with hs | ⟨i,m,part,w,ha,-⟩
  · exact ⟨hs.forall (fun _ _ _ h => { h with }) h.inv,hs.forall (fun _ _ _ h => { h with }) h.tracked⟩
  · exact h.acts ha

/-- What holds initially and is preserved by actions in linked states holds of every server. -/
theorem induct {C : Fleet.Label → Fleet → Prop} {I : World → Prop} (hi : ∀ w : World, w.Initial → I w)
    (ha : ∀ w w' : World, Inv w → I w → Action w w' → I w') (h : Reaches Fleet.step C Initial F) :
    ∀ m ∈ F.members, I m.world := by
  have hrun : ∀ {w w' : World}, Inv w → I w → ReflTransGen Action w w' → I w' := fun hinv hw hall =>
    (Effects.invariant (I := fun w => Inv w ∧ I w) (fun _ _ ht hs => ⟨ht.1.action hs,ha _ _ ht.1 ht.2 hs⟩) ⟨hinv,hw⟩ hall).2
  have hboth := h.invariant (I := fun F => F.Sound ∧ ∀ m ∈ F.members, I m.world) ?_ ?_
  · exact hboth.2
  · exact fun F hF => ⟨.initial hF,fun m hm => hi _ (hF.members m hm)⟩
  · rintro l F F' ⟨hs,hI⟩ - hstep
    refine ⟨hs.step hstep,?_⟩
    rcases step_cases hstep with hsh | ⟨i,m,part,w,hact,-⟩
    · have hall : ∀ m ∈ F.members, Inv m.world ∧ I m.world := fun m hm => ⟨hs.inv m hm,hI m hm⟩
      refine fun m hm => (hsh.forall (P := fun w => Inv w ∧ I w) (fun w todo slot hw => ?_) hall m hm).2
      have hone := Service.service_acts w w.service.shutdownRef w.service.shutdownTicks todo slot w.service.selecting
      exact ⟨hw.1.action hone,ha _ _ hw.1 hw.2 hone⟩
    · have hmem := List.mem_of_getElem? hact.member
      have hview : Action m.world (F.view m.world) := .service m.world _ _ _ _ _ _ _ _
      have hinv := (hs.inv m hmem).action hview
      exact hact.forall (hrun hinv (ha _ _ (hs.inv m hmem) (hI m hmem) hview) (Part.actions hinv hact.run)) hI

def create (servers : List IrcServer) : Fleet where
  members := servers.map fun server => ⟨World.create server [],none⟩
  readfds := fun _ => false
  writefds := fun _ => false
  shutdownRef := -1
  shutdownTicks := -1
  phase := .starting 0
  asked := false

theorem create_initial {servers : List IrcServer} (h : ∀ server ∈ servers, (World.create server []).Initial) :
    (create servers).Initial := by
  refine ⟨fun m hm => ?_,rfl,rfl,rfl,rfl,rfl,rfl⟩
  obtain ⟨server,hs,rfl⟩ := List.mem_map.mp hm
  exact h server hs

def plain : IrcServer := .create (lit "s") (lit "n") (some (lit "u")) (some (lit "r")) false

theorem plain_initial (n : ℕ) : (create (List.replicate n plain)).Initial :=
  create_initial fun _ hs => List.eq_of_mem_replicate hs ▸ World.create_initial _ _ _ _ _ _

/-- Each of the first `n` servers in turn visits its next slots. -/
def Label.visits (n slots : ℕ) (env : Env) : List Fleet.Label :=
  (List.range n).flatMap fun i => List.replicate slots (.visit i env)

def Label.sweep (n : ℕ) : List Fleet.Label := .loop :: visits n 2 Env.failing ++ [.proceed]

def Label.iteration (n : ℕ) (ready : Service.Ready) (env : Env) : List Fleet.Label :=
  sweep n ++ .select ready :: visits n 5 env ++ [.proceed]

end Fleet
end LibIrcBot
