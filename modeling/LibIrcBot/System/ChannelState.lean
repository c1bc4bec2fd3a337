import LibIrcBot.System.ChannelTable

/-! # The automaton of a channel

What a channel wants and waits for, with the registrations of its callbacks, changes by a
few operations. Each call into a channel performs one of them on that channel and leaves
all other channels as they are.
-/
namespace LibIrcBot
open CString Effects Relation Outcome

/-- What a channel wants, whether it is joined, its two counters, how often each of its callbacks
is registered on the events of the server and of the service, and how often the bot's callbacks
are registered on its own. -/
structure ChanState where
  wantJoined : Bool
  isJoined : Bool
  joinsyncticks : ℤ
  rejointicks : ℤ
  joinOnConnect : ℕ
  disconnected : ℕ
  waitjoin : ℕ
  waitrejoin : ℕ
  entered : ℕ
  left : ℕ

namespace ChanState
variable (s : ChanState) (logged : Bool)

def join : ChanState :=
  if s.wantJoined then s
  else if logged then
    { s with
      wantJoined := true
      joinsyncticks := JOINSYNCTICKS
      waitjoin := s.waitjoin + 1
      disconnected := s.disconnected + 1 }
  else { s with wantJoined := true, joinOnConnect := s.joinOnConnect + 1 }

def unregister : ChanState :=
  { s with
    joinOnConnect := s.joinOnConnect - 1
    disconnected := s.disconnected - 1
    waitjoin := s.waitjoin - 1
    waitrejoin := s.waitrejoin - 1 }

def part : ChanState := { s.unregister with wantJoined := false, isJoined := false }

def connect : ChanState := join { s with joinOnConnect := s.joinOnConnect - 1, wantJoined := false } logged

def disconnect : ChanState :=
  { s.unregister with
    joinOnConnect := s.joinOnConnect - 1 + if s.wantJoined then 1 else 0
    isJoined := false }

def tickJoin : ChanState :=
  if s.joinsyncticks = 1 then
    { s with
      joinsyncticks := 0
      waitjoin := s.waitjoin - 1
      rejointicks := REJOINTICKS
      waitrejoin := s.waitrejoin + 1 }
  else { s with joinsyncticks := s.joinsyncticks - 1 }

def tickRejoin : ChanState :=
  if s.rejointicks = 1 then
    join { s with rejointicks := 0, waitrejoin := s.waitrejoin - 1, wantJoined := false } logged
  else { s with rejointicks := s.rejointicks - 1 }

def kick : ChanState :=
  if s.wantJoined then
    { s with isJoined := false, rejointicks := REJOINTICKS, waitrejoin := s.waitrejoin + 1 }
  else { s with isJoined := false }

def enter (n : ℕ) : ChanState :=
  { s with
    isJoined := true
    waitjoin := s.waitjoin - 1
    waitrejoin := s.waitrejoin - 1
    entered := s.entered + n
    left := s.left + n }

end ChanState

def World.state (w : World) (self : ChanId) : ChanState where
  wantJoined := (w.chans self).wantJoined
  isJoined := (w.chans self).isJoined
  joinsyncticks := (w.chans self).joinsyncticks
  rejointicks := (w.chans self).rejointicks
  joinOnConnect := w.server.connected.count () (.joinOnConnect self) 0
  disconnected := w.server.disconnected.count () (.disconnected self) 0
  waitjoin := w.service.tick.count () (.waitjoin self) 0
  waitrejoin := w.service.tick.count () (.waitrejoin self) 0
  entered := (w.chans self).entered.count () .userJoined 0
  left := (w.chans self).left.count () .userParted 0

/-- The table of channels, and what the server and the bot know of a channel by its name
and its events. -/
structure Roster where
  channels : IBHashTable ChanId Deleter
  nchans : ℕ
  msgReceived : Listeners MsgHandler
  removed : List ChanId
  destroyed : List ChanId
  name : ChanId → Bytes
  joined : ChanId → Listeners JoinedHandler
  parted : ChanId → Listeners PartedHandler
  failed : ChanId → Listeners FailedHandler

def World.roster (w : World) : Roster where
  channels := w.server.channels
  nchans := w.nchans
  msgReceived := w.server.msgReceived
  removed := w.ghost.removed
  destroyed := w.ghost.destroyed
  name := fun c => (w.chans c).name
  joined := fun c => (w.chans c).joined
  parted := fun c => (w.chans c).parted
  failed := fun c => (w.chans c).failed

variable {w w' w'' : World} {self : ChanId} {f g : ChanState → ChanState} {cs ds : List Bytes}

theorem roster_setChan (w : World) (self : ChanId) {k : IrcChannel → IrcChannel}
    (hk : ∀ c, (k c).name = c.name ∧ (k c).joined = c.joined ∧ (k c).parted = c.parted ∧ (k c).failed = c.failed) :
    (w.setChan self k).roster = w.roster := by
  have hall : ∀ c, ((w.setChan self k).chans c).name = (w.chans c).name ∧
      ((w.setChan self k).chans c).joined = (w.chans c).joined ∧
      ((w.setChan self k).chans c).parted = (w.chans c).parted ∧
      ((w.setChan self k).chans c).failed = (w.chans c).failed := by
    intro c
    rw [setChan_chans]
    split
    · exact hk _
    · simp
  rw [World.roster,World.roster,Roster.mk.injEq]
  refine ⟨rfl,rfl,rfl,rfl,rfl,?_,?_,?_,?_⟩ <;> funext c
  · exact (hall c).1
  · exact (hall c).2.1
  · exact (hall c).2.2.1
  · exact (hall c).2.2.2

theorem state_setChan_ne {c : ChanId} (h : c ≠ self) (w : World) (k : IrcChannel → IrcChannel) :
    (w.setChan self k).state c = w.state c := by
  simp [World.state,World.setChan,h]

theorem setChan_self (w : World) (self : ChanId) (k : IrcChannel → IrcChannel) :
    (w.setChan self k).chans self = k (w.chans self) := Function.update_self _ _ _

def World.Starts (chan : ChanId) (w w' : World) : Prop :=
  ∃ jobs, w'.bot.jobs = w.bot.jobs ++ jobs ∧ ∀ job ∈ jobs, job.2.origin = some (w.chans chan).name

theorem World.Starts.of_eq (h : w'.bot.jobs = w.bot.jobs) : w.Starts self w' := ⟨[],by simp [h],by simp⟩

/-- An operation on one channel, which sends the commands `cs`; the table of channels stays. -/
structure Affects (chan : ChanId) (f : ChanState → ChanState) (cs : List Bytes) (w w' : World) : Prop where
  own : w'.state chan = f (w.state chan)
  others : ∀ c, c ≠ chan → w'.state c = w.state c
  chans : ∀ c, c ≠ chan → w'.chans c = w.chans c
  roster : w'.roster = w.roster
  jobs : w.Starts chan w'
  commands : w'.ghost.commands = w.ghost.commands ++ cs

namespace Affects

theorem refl (w : World) : Affects self id [] w w := ⟨rfl,fun _ _ => rfl,fun _ _ => rfl,rfl,.of_eq rfl,(List.append_nil _).symm⟩

theorem name (h : Affects self f cs w w') (c : ChanId) : (w'.chans c).name = (w.chans c).name :=
  congrFun (congrArg Roster.name h.roster) c

theorem comp (h : Affects self f cs w w') (h' : Affects self g ds w' w'') : Affects self (g ∘ f) (cs ++ ds) w w'' where
  own := by rw [h'.own,h.own]; rfl
  others := fun c hc => (h'.others c hc).trans (h.others c hc)
  chans := fun c hc => (h'.chans c hc).trans (h.chans c hc)
  roster := h'.roster.trans h.roster
  jobs := by
    obtain ⟨new,he,ho⟩ := h.jobs
    obtain ⟨new',he',ho'⟩ := h'.jobs
    refine ⟨new ++ new',by simp [he',he],fun job hmem => ?_⟩
    rcases List.mem_append.mp hmem with hmem | hmem
    · exact ho job hmem
    · rw [ho' job hmem,h.name]
  commands := by rw [h'.commands,h.commands,List.append_assoc]

/-- Two operations of which only the first sends commands. -/
theorem trans (h : Affects self f cs w w') (h' : Affects self g [] w' w'') : Affects self (g ∘ f) cs w w'' :=
  List.append_nil cs ▸ h.comp h'

theorem congr (h : Affects self f cs w w') (hfg : f (w.state self) = g (w.state self)) : Affects self g cs w w' :=
  { h with own := h.own.trans hfg }

end Affects

abbrev Performs (chan : ChanId) (f : ChanState → ChanState) (cs : List Bytes) (w : World) (r : Run) : Prop :=
  Meets (Affects chan f cs w) (fun _ => True) r

theorem Performs.before {r : Run} (h : Affects self f cs w w') (hr : Performs self g [] w' r) :
    Performs self (g ∘ f) cs w r := Meets.mono hr (fun _ ht => h.trans ht) fun _ he => he

theorem Performs.after {r : Run} (h : Affects self f [] w w') (hr : Performs self g cs w' r) :
    Performs self (g ∘ f) cs w r := Meets.mono hr (fun _ ht => h.comp ht) fun _ he => he

theorem Performs.congr {r : Run} (h : Performs self f cs w r) (hfg : f (w.state self) = g (w.state self)) :
    Performs self g cs w r := Meets.mono h (fun _ ht => ht.congr hfg) fun _ he => he

/-! ## Sending and raising -/

theorem World.Outputs.affects (h : w.Outputs w') (hc : w'.ghost.commands = w.ghost.commands ++ cs) :
    Affects self id cs w w' := by
  obtain ⟨_,_,_,_,_,_,_,_,_,_,_,_,rfl⟩ := h
  exact ⟨rfl,fun _ _ => rfl,fun _ _ => rfl,rfl,.of_eq rfl,hc⟩

abbrev World.logged (w : World) : Bool := 0 < w.server.connst

def IrcServer.sends (cmd args : Bytes) (logged : Bool) : List Bytes := if logged then [rawCmd cmd args] else []

theorem sendCmd_performs (self : ChanId) (cmd : IrcCommand) {str : Bytes} (hcmd : cmd.str = some str) (args : Bytes)
    (w : World) (hcs : IrcServer.sends str args w.logged = cs) :
    Meets (fun r => Affects self id cs w r.2 ∧ (r.1 < 0 ↔ w.server.connst ≤ 0)) (fun _ => True)
      (IrcServer.sendCmd cmd args w) := by
  subst hcs
  by_cases hst : w.server.connst ≤ 0
  · have hno : IrcServer.sends str args w.logged = [] := by simp [IrcServer.sends,hst]
    rw [sendCmd_loggedOut cmd args hst,hno]
    exact ⟨.refl w,by simp [hst]⟩
  · have hone : IrcServer.sends str args w.logged = [IrcServer.rawCmd str args] := by
      simp [IrcServer.sends,not_le.mp hst]
    have hsome : cmd.str.isSome := by simp [hcmd]
    have hspec := IrcServer.sendRawCmd_spec hsome args w
    have hlog := IrcServer.sendRaw_commands (IrcServer.rawCmd str args) w
    rw [IrcServer.sendRawCmd_eq hcmd] at hspec
    rw [sendCmd_loggedIn cmd args (by omega),hone,IrcServer.sendRawCmd_eq hcmd]
    cases hs : IrcServer.sendRaw (some (IrcServer.rawCmd str args)) w with
    | error e => trivial
    | ok t =>
      rw [hs] at hspec hlog
      exact ⟨World.Outputs.affects hspec hlog,by simp [hst]⟩

/-- A raise of which every callback performs no operation. -/
theorem raise_performs {η : Type} {event : World → Listeners η} {call : η → World → Run} {i : ℤ}
    (hcall : ∀ h t, Performs self id [] t (call h t)) (w : World) : Performs self id [] w (w.raise event call i) :=
  raise_invariant (fun h t ht => Performs.after ht (hcall h t)) (.refl w)

/-! ## The functions of a channel -/

/-- A change of the fields that the table of channels does not depend on. -/
theorem setChan_affects (w : World) (self : ChanId) (k : IrcChannel → IrcChannel)
    (hk : ∀ c, (k c).name = c.name ∧ (k c).joined = c.joined ∧ (k c).parted = c.parted ∧ (k c).failed = c.failed) :
    Affects self (fun s => { s with
      wantJoined := (k (w.chans self)).wantJoined
      isJoined := (k (w.chans self)).isJoined
      joinsyncticks := (k (w.chans self)).joinsyncticks
      rejointicks := (k (w.chans self)).rejointicks
      entered := (k (w.chans self)).entered.count () .userJoined 0
      left := (k (w.chans self)).left.count () .userParted 0 }) [] w (w.setChan self k) := by
  refine ⟨?_,fun c hc => state_setChan_ne hc w k,fun c hc => Function.update_of_ne hc _ _,roster_setChan w self hk,
    .of_eq rfl,(List.append_nil _).symm⟩
  simp [World.state,World.setChan]

namespace IrcChannel
open IrcServer (sends)

theorem unregisterTimers_affects (self : ChanId) (w : World) :
    Affects self ChanState.unregister [] w (unregisterTimers self w) := by
  refine ⟨?_,fun c hc => ?_,fun _ _ => rfl,rfl,.of_eq rfl,(List.append_nil _).symm⟩
  · simp [World.state,unregisterTimers,ChanState.unregister,Event.count_unregister]
  · simp [World.state,unregisterTimers,Event.count_unregister,Ne.symm hc]

theorem registerConnected_affects (self : ChanId) (w : World) :
    Affects self (fun s => { s with joinOnConnect := s.joinOnConnect + 1 }) [] w
      { w with server.connected := w.server.connected.register () (.joinOnConnect self) 0 } := by
  refine ⟨?_,fun c hc => ?_,fun _ _ => rfl,rfl,.of_eq rfl,(List.append_nil _).symm⟩
  · simp [World.state,Event.count_register]
  · simp [World.state,Event.count_register,Ne.symm hc]

/-- Starting the timer for the next join. -/
theorem restart_affects (self : ChanId) (w : World) :
    Affects self (fun s => { s with rejointicks := REJOINTICKS, waitrejoin := s.waitrejoin + 1 }) [] w
      { w.setChan self fun c => { c with rejointicks := REJOINTICKS } with
        service.tick := w.service.tick.register () (.waitrejoin self) 0 } := by
  have hset := roster_setChan w self (k := fun c => { c with rejointicks := REJOINTICKS }) fun _ => ⟨rfl,rfl,rfl,rfl⟩
  refine ⟨?_,fun c hc => ?_,fun c hc => Function.update_of_ne hc _ _,hset,.of_eq rfl,(List.append_nil _).symm⟩
  · simp [World.state,World.setChan,Event.count_register]
  · simp [World.state,World.setChan,Event.count_register,hc,Ne.symm hc]

/-- Starting the timer for the answer to a join. -/
theorem await_affects (self : ChanId) (w : World) :
    Affects self (fun s => { s with
      joinsyncticks := JOINSYNCTICKS
      waitjoin := s.waitjoin + 1
      disconnected := s.disconnected + 1 }) [] w
      { w.setChan self fun c => { c with joinsyncticks := JOINSYNCTICKS } with
        service.tick := w.service.tick.register () (.waitjoin self) 0
        server.disconnected := w.server.disconnected.register () (.disconnected self) 0 } := by
  have hset := roster_setChan w self (k := fun c => { c with joinsyncticks := JOINSYNCTICKS })
    fun _ => ⟨rfl,rfl,rfl,rfl⟩
  refine ⟨?_,fun c hc => ?_,fun c hc => Function.update_of_ne hc _ _,hset,.of_eq rfl,(List.append_nil _).symm⟩
  · simp [World.state,World.setChan,Event.count_register]
  · simp [World.state,World.setChan,Event.count_register,hc,Ne.symm hc]

theorem wantJoined_affects (self : ChanId) (want : Bool) (w : World) :
    Affects self (fun s => { s with wantJoined := want }) [] w (w.setChan self fun c => { c with wantJoined := want }) :=
  (setChan_affects w self (fun c => { c with wantJoined := want }) fun _ => ⟨rfl,rfl,rfl,rfl⟩).congr rfl

theorem isJoined_affects (self : ChanId) (joined : Bool) (w : World) :
    Affects self (fun s => { s with isJoined := joined }) [] w (w.setChan self fun c => { c with isJoined := joined }) :=
  (setChan_affects w self (fun c => { c with isJoined := joined }) fun _ => ⟨rfl,rfl,rfl,rfl⟩).congr rfl

theorem raiseParted_performs (self : ChanId) (w : World) : Performs self id [] w (raiseParted self w) :=
  raise_performs (fun _ t => raise_performs (fun h _ => h.elim) t) w

theorem dispatch_affects (hdl : Option IrcBotEventHandler) {e : IrcBotEvent} (he : e.origin = some (w.chans self).name) :
    Affects self id [] w (IrcBot.dispatch hdl e w) := by
  cases hdl with
  | none => exact .refl w
  | some hdl => exact ⟨rfl,fun _ _ => rfl,fun _ _ => rfl,rfl,⟨[(hdl,e)],rfl,by simp [he]⟩,(List.append_nil _).symm⟩

def greetings (self : ChanId) (w : World) : ℕ :=
  (w.chans self).joined.count () .chanJoined 0 * w.server.joined.count () .chanJoined 0

theorem chanJoined_affects (self : ChanId) (w : World) :
    Affects self (fun s => { s with entered := s.entered + 1, left := s.left + 1 }) [] w (IrcBot.chanJoined self w) := by
  have hreg := setChan_affects w self (fun c => { c with
    entered := c.entered.register () .userJoined 0
    left := c.left.register () .userParted 0 }) fun _ => ⟨rfl,rfl,rfl,rfl⟩
  refine (hreg.trans (dispatch_affects _ rfl)).congr ?_
  simp [World.state,Event.count_register]

theorem chanJoined_iterate (self : ChanId) (n : ℕ) (w : World) :
    Affects self (fun s => { s with entered := s.entered + n, left := s.left + n }) [] w
      ((IrcBot.chanJoined self)^[n] w) ∧ ((IrcBot.chanJoined self)^[n] w).server = w.server := by
  induction n generalizing w with
  | zero => exact ⟨.refl w,rfl⟩
  | succ n ih =>
    obtain ⟨ha,hs⟩ := ih (IrcBot.chanJoined self w)
    rw [Function.iterate_succ_apply]
    refine ⟨((chanJoined_affects self w).trans ha).congr ?_,hs.trans ?_⟩
    · simp [Nat.add_assoc,Nat.add_comm 1 n]
    · obtain ⟨_,he⟩ := IrcBot.chanJoined_shape self w
      rw [he]
      rfl

theorem raiseJoined_performs (self : ChanId) (w : World) :
    Performs self (fun s => { s with entered := s.entered + greetings self w, left := s.left + greetings self w }) [] w
      (raiseJoined self w) := by
  have hserver : ∀ t : World, (IrcBot.chanJoined self t).server = t.server := fun t => (chanJoined_iterate self 1 t).2
  have hinner : ∀ t : World, IrcServer.chanJoined self t =
      .ok ((IrcBot.chanJoined self)^[t.server.joined.count () .chanJoined 0] t) :=
    fun t => raise_iterate (fun _ => rfl) (fun _ => rfl) fun u => by rw [hserver]
  have hevent : ∀ t : World, (((IrcBot.chanJoined self)^[t.server.joined.count () .chanJoined 0] t).chans self).joined =
      (t.chans self).joined := fun t =>
    congrFun (congrArg Roster.joined (chanJoined_iterate self (t.server.joined.count () .chanJoined 0) t).1.roster) self
  have houter : ∀ (m : ℕ) (t : World), (fun u : World => (IrcBot.chanJoined self)^[u.server.joined.count () .chanJoined 0] u)^[m] t =
      (IrcBot.chanJoined self)^[m * t.server.joined.count () .chanJoined 0] t := by
    intro m
    induction m with
    | zero => simp
    | succ m ih =>
      intro t
      rw [Function.iterate_succ_apply,ih,(chanJoined_iterate self _ t).2,← Function.iterate_add_apply,Nat.succ_mul]
  have hraise : raiseJoined self w = .ok ((IrcBot.chanJoined self)^[greetings self w] w) := by
    rw [greetings,← houter]
    exact raise_iterate (fun _ => rfl) hinner hevent
  rw [hraise]
  exact (chanJoined_iterate self _ w).1

theorem raiseEntered_performs (self : ChanId) (nick : Bytes) (w : World) :
    Performs self id [] w (raiseEntered self nick w) := by
  refine raise_performs (fun _ t => ?_) w
  exact dispatch_affects _ rfl

theorem raiseLeft_performs (self : ChanId) (nick : Bytes) (w : World) :
    Performs self id [] w (raiseLeft self nick w) := by
  refine raise_performs (fun _ t => ?_) w
  exact dispatch_affects _ rfl

theorem join_performs (self : ChanId) (w : World) : Performs self (·.join w.logged)
    (if (w.chans self).wantJoined then [] else sends (lit "JOIN") (w.chans self).name w.logged) w (join self w) := by
  unfold join
  by_cases hwant : (w.chans self).wantJoined
  · rw [if_pos hwant,if_pos hwant]
    have hw : (w.state self).wantJoined = true := hwant
    exact Affects.congr (.refl w) (by simp [ChanState.join,hw])
  · rw [if_neg hwant,if_neg hwant]
    have hw : (w.state self).wantJoined = false := eq_false_of_ne_true hwant
    have hset := wantJoined_affects self true w
    have hsends : sends (lit "JOIN") ((w.setChan self fun c => { c with wantJoined := true }).chans self).name
        (w.setChan self fun c => { c with wantJoined := true }).logged =
          sends (lit "JOIN") (w.chans self).name w.logged := by rw [setChan_self]; rfl
    by_cases hst : w.server.connst ≤ 0
    · refine Performs.congr (Performs.after (g := fun s => { s with joinOnConnect := s.joinOnConnect + 1 }) hset
        (Meets.bind (sendCmd_performs self .MSG_JOIN rfl _ _ hsends) ?_)) (by simp [ChanState.join,hw,hst])
      rintro ⟨rc,t⟩ ⟨ht,hrc⟩
      dsimp only
      rw [if_pos (hrc.mpr hst)]
      exact Affects.trans ht (registerConnected_affects self t)
    · refine Performs.congr (Performs.after (g := fun s => { s with
        joinsyncticks := JOINSYNCTICKS
        waitjoin := s.waitjoin + 1
        disconnected := s.disconnected + 1 }) hset
        (Meets.bind (sendCmd_performs self .MSG_JOIN rfl _ _ hsends) ?_))
        (by simp [ChanState.join,hw,not_le.mp hst])
      rintro ⟨rc,t⟩ ⟨ht,hrc⟩
      dsimp only
      rw [if_neg fun hneg => hst (hrc.mp hneg)]
      exact Affects.trans ht (await_affects self t)

/-- A join that gets through. -/
theorem rejoin_performs (self : ChanId) (w : World) {name : Bytes} (hn : (w.chans self).name = name) :
    Performs self (fun s => ChanState.join { s with wantJoined := false } w.logged)
      (sends (lit "JOIN") name w.logged) w (join self (w.setChan self fun c => { c with wantJoined := false })) := by
  have hjoin := join_performs self (w.setChan self fun c => { c with wantJoined := false })
  rw [setChan_self,if_neg (by simp)] at hjoin
  exact hn ▸ Performs.after (wantJoined_affects self false w) hjoin

theorem part_performs (self : ChanId) (w : World) : Performs self ChanState.part
    (if (w.chans self).isJoined then sends (lit "PART") (w.chans self).name w.logged else []) w (part self w) := by
  unfold part
  refine Performs.congr (Performs.after ((wantJoined_affects self false w).trans
    (unregisterTimers_affects self _)) (g := fun s => { s with isJoined := false }) ?_) rfl
  have hchan : (unregisterTimers self (w.setChan self fun c => { c with wantJoined := false })).chans self =
      { w.chans self with wantJoined := false } := by simp [unregisterTimers,World.setChan]
  dsimp only
  rw [hchan]
  dsimp only
  by_cases hj : (w.chans self).isJoined
  · rw [if_pos hj,if_pos hj]
    refine Meets.bind (sendCmd_performs self .MSG_PART rfl _ _ rfl) ?_
    rintro ⟨rc,t⟩ ⟨ht,_⟩
    exact Performs.before (ht.trans (isJoined_affects self false t)) (raiseParted_performs self _)
  · rw [if_neg hj,if_neg hj]
    exact Affects.congr (.refl _) (by simpa [World.state,hchan] using hj)

theorem joinOnConnect_performs (self : ChanId) (w : World) :
    Performs self (·.connect w.logged) (sends (lit "JOIN") (w.chans self).name w.logged) w (joinOnConnect self w) := by
  have hunreg : Affects self (fun s => { s with joinOnConnect := s.joinOnConnect - 1 }) [] w
      { w with server.connected := w.server.connected.unregister () (.joinOnConnect self) 0 } := by
    refine ⟨?_,fun c hc => ?_,fun _ _ => rfl,rfl,.of_eq rfl,(List.append_nil _).symm⟩
    · simp [World.state,Event.count_unregister]
    · simp [World.state,Event.count_unregister,Ne.symm hc]
  exact Performs.after hunreg (rejoin_performs self _ rfl)

theorem disconnected_performs (self : ChanId) (w : World) :
    Performs self ChanState.disconnect [] w (disconnected self w) := by
  have hlast : ∀ t : World, Performs self (fun s => { s with isJoined := false }) [] t (if (t.chans self).isJoined then
      raiseParted self (t.setChan self fun c => { c with isJoined := false }) else .ok t) := by
    intro t
    split
    · exact Performs.after (isJoined_affects self false t) (raiseParted_performs self _)
    · next hj => exact Affects.congr (.refl _) (by simpa [World.state] using hj)
  have htimers := unregisterTimers_affects self w
  unfold disconnected
  dsimp only
  split
  · next hwant =>
    have hw : (w.state self).wantJoined = true := hwant
    refine Performs.congr (Performs.after (htimers.trans (registerConnected_affects self _)) (hlast _)) ?_
    simp [ChanState.disconnect,ChanState.unregister,hw]
  · next hwant =>
    have hw : (w.state self).wantJoined = false := eq_false_of_ne_true hwant
    refine Performs.congr (Performs.after htimers (hlast _)) ?_
    simp [ChanState.disconnect,ChanState.unregister,hw]

/-! ### Timers -/

theorem waitjoin_performs (self : ChanId) (w : World) : Performs self ChanState.tickJoin
    (if (w.chans self).joinsyncticks = 1 then sends (lit "PART") (w.chans self).name w.logged else []) w
    (waitjoin self w) := by
  have hcount : Affects self (fun s => { s with joinsyncticks := s.joinsyncticks - 1 }) [] w
      (w.setChan self fun c => { c with joinsyncticks := c.joinsyncticks - 1 }) :=
    (setChan_affects w self (fun c => { c with joinsyncticks := c.joinsyncticks - 1 })
      fun _ => ⟨rfl,rfl,rfl,rfl⟩).congr rfl
  unfold waitjoin
  dsimp only
  rw [setChan_self]
  by_cases hone : (w.chans self).joinsyncticks = 1
  · have hs : (w.state self).joinsyncticks = 1 := hone
    rw [if_pos (sub_eq_zero_of_eq hone),if_pos hone]
    refine Performs.congr (Performs.after (g := fun s => { s with
      waitjoin := s.waitjoin - 1
      rejointicks := REJOINTICKS
      waitrejoin := s.waitrejoin + 1 }) hcount (Meets.bind (sendCmd_performs self .MSG_PART rfl _ _ rfl) ?_))
      (by simp [ChanState.tickJoin,hs])
    rintro ⟨rc,t⟩ ⟨ht,_⟩
    have hunreg : Affects self (fun s => { s with waitjoin := s.waitjoin - 1 }) [] t
        { t with service.tick := t.service.tick.unregister () (.waitjoin self) 0 } := by
      refine ⟨?_,fun c hc => ?_,fun _ _ => rfl,rfl,.of_eq rfl,(List.append_nil _).symm⟩
      · simp [World.state,Event.count_unregister]
      · simp [World.state,Event.count_unregister,Ne.symm hc]
    exact Affects.trans ht (hunreg.trans (restart_affects self _))
  · have hs : (w.state self).joinsyncticks ≠ 1 := hone
    rw [if_neg fun hz => hone (eq_of_sub_eq_zero hz),if_neg hone]
    exact hcount.congr (by simp [ChanState.tickJoin,hs])

theorem waitrejoin_performs (self : ChanId) (w : World) :
    Performs self (·.tickRejoin w.logged)
      (if (w.chans self).rejointicks = 1 then sends (lit "JOIN") (w.chans self).name w.logged else []) w
      (waitrejoin self w) := by
  have hcount : Affects self (fun s => { s with rejointicks := s.rejointicks - 1 }) [] w
      (w.setChan self fun c => { c with rejointicks := c.rejointicks - 1 }) :=
    (setChan_affects w self (fun c => { c with rejointicks := c.rejointicks - 1 })
      fun _ => ⟨rfl,rfl,rfl,rfl⟩).congr rfl
  unfold waitrejoin
  dsimp only
  rw [setChan_self]
  by_cases hone : (w.chans self).rejointicks = 1
  · have hs : (w.state self).rejointicks = 1 := hone
    rw [if_pos (sub_eq_zero_of_eq hone),if_pos hone]
    have hunreg : ∀ t : World, Affects self (fun s => { s with waitrejoin := s.waitrejoin - 1 }) [] t
        { t with service.tick := t.service.tick.unregister () (.waitrejoin self) 0 } := by
      intro t
      refine ⟨?_,fun c hc => ?_,fun _ _ => rfl,rfl,.of_eq rfl,(List.append_nil _).symm⟩
      · simp [World.state,Event.count_unregister]
      · simp [World.state,Event.count_unregister,Ne.symm hc]
    have hname : ((w.setChan self fun c => { c with rejointicks := c.rejointicks - 1 }).chans self).name =
        (w.chans self).name := by rw [setChan_self]
    have hjoin := rejoin_performs self { w.setChan self fun c => { c with rejointicks := c.rejointicks - 1 } with
      service.tick := w.service.tick.unregister () (.waitrejoin self) 0 } hname
    refine Performs.congr (Performs.after (hcount.trans (hunreg _)) hjoin) ?_
    simp [ChanState.tickRejoin,hs]
    rfl
  · have hs : (w.state self).rejointicks ≠ 1 := hone
    rw [if_neg fun hz => hone (eq_of_sub_eq_zero hz),if_neg hone]
    exact hcount.congr (by simp [ChanState.tickRejoin,hs])

/-! ### Messages -/

def Kicks (self : ChanId) (m : IrcMessage) (w : World) : Prop :=
  m.command = .MSG_KICK ∧ m.params[0]? = some (w.chans self).name ∧ m.params[1]? = some w.server.nick

def EndsNames (self : ChanId) (m : IrcMessage) (w : World) : Prop :=
  m.command = .RPL_ENDOFNAMES ∧ m.params[1]? = some (w.chans self).name

def Fails (self : ChanId) (m : IrcMessage) (w : World) : Prop :=
  m.command = .ERR_NOSUCHCHANNEL ∧ m.params[0]? = some (w.chans self).name

instance (self : ChanId) (m : IrcMessage) (w : World) : Decidable (Kicks self m w) :=
  inferInstanceAs (Decidable (_ ∧ _))

instance (self : ChanId) (m : IrcMessage) (w : World) : Decidable (EndsNames self m w) :=
  inferInstanceAs (Decidable (_ ∧ _))

instance (self : ChanId) (m : IrcMessage) (w : World) : Decidable (Fails self m w) :=
  inferInstanceAs (Decidable (_ ∧ _))

section Messages
variable {m : IrcMessage} (env : Env)

theorem setNick_affects (self : ChanId) (nick : Bytes) (w : World) : Affects self id [] w (setNick self nick w) :=
  (setChan_affects w self (fun c => { c with nicks := (c.nicks.set nick c.name none).2 })
    fun _ => ⟨rfl,rfl,rfl,rfl⟩).congr rfl

theorem deleteNick_affects (self : ChanId) (nick : Bytes) (w : World) :
    Affects self id [] w (deleteNick self nick w).2 :=
  (setChan_affects w self (fun c => { c with nicks := (c.nicks.delete nick).2.2 })
    fun _ => ⟨rfl,rfl,rfl,rfl⟩).congr rfl

theorem deref_performs {s : Option Bytes} {k : Bytes → Run} (hk : ∀ x, s = some x → Performs self f [] w (k x)) :
    Performs self f [] w (w.deref s >>= k) := by
  cases s with
  | none => trivial
  | some x => exact hk x rfl

theorem scanNick_performs {k : Bytes → Run} (hk : ∀ nick, Performs self f [] w (k nick)) :
    Performs self f [] w (scanNick env m w >>= k) := by
  rcases scanNick_cases env m w with ⟨_,h⟩ | ⟨nick,h⟩
  · rw [h]
    trivial
  · rw [h]
    exact hk nick

theorem deleteNick_performs (self : ChanId) (nick : Bytes) (w : World) : Performs self id [] w
    (if (deleteNick self nick w).1 then raiseLeft self nick (deleteNick self nick w).2
      else .ok (deleteNick self nick w).2) := by
  split
  · exact Performs.after (deleteNick_affects self nick w) (raiseLeft_performs self nick _)
  · exact deleteNick_affects self nick w

theorem handleJoin_performs (self : ChanId) (m : IrcMessage) (w : World) :
    Performs self id [] w (handleJoin self env m w) := by
  unfold handleJoin
  split
  · refine deref_performs fun name _ => ?_
    split
    · refine scanNick_performs env fun nick => ?_
      split
      · exact Performs.after (setNick_affects self nick w) (raiseEntered_performs self nick _)
      · exact .refl w
    · exact .refl w
  · exact .refl w

theorem handleQuit_performs (self : ChanId) (m : IrcMessage) (w : World) :
    Performs self id [] w (handleQuit self env m w) :=
  scanNick_performs env fun nick => deleteNick_performs self nick w

theorem handlePart_performs (self : ChanId) (m : IrcMessage) (w : World) :
    Performs self id [] w (handlePart self env m w) := by
  unfold handlePart
  split
  · refine deref_performs fun name _ => ?_
    split
    · exact handleQuit_performs env self m w
    · exact .refl w
  · exact .refl w

theorem handleNick_performs (self : ChanId) (m : IrcMessage) (w : World) :
    Performs self id [] w (handleNick self env m w) := by
  unfold handleNick
  split
  · refine scanNick_performs env fun nick => ?_
    dsimp only
    split
    · have hd := deleteNick_affects self nick w
      cases m.params[0]? with
      | none => trivial
      | some new => exact hd.trans (setNick_affects self new _)
    · exact deleteNick_affects self nick w
  · exact .refl w

theorem listNicks_affects (self : ChanId) (ws : List Bytes) (w : World) : Affects self id [] w (ws.foldl
    (fun w word =>
      match listedNick w.server.nick word with
      | some nick => setNick self nick w
      | none => w) w) := by
  induction ws generalizing w with
  | nil => exact .refl w
  | cons word ws ih =>
    rw [List.foldl_cons]
    split
    · exact (setNick_affects self _ w).trans (ih _)
    · exact ih w

theorem handleNamreply_performs (self : ChanId) (m : IrcMessage) (w : World) :
    Performs self id [] w (handleNamreply self m w) := by
  unfold handleNamreply
  split
  · refine deref_performs fun name _ => ?_
    split
    · refine deref_performs fun nicklist _ => ?_
      exact listNicks_affects self _ w
    · exact .refl w
  · exact .refl w

theorem handleKick_performs (hc : m.command = .MSG_KICK) (hf : f = if Kicks self m w then ChanState.kick else id) :
    Performs self f [] w (handleKick self m w) := by
  unfold handleKick
  split
  · next hlen =>
    refine deref_performs fun name h0 => ?_
    split
    · next hname =>
      refine deref_performs fun nick h1 => ?_
      split
      · next hnick =>
        rw [hf,if_pos ⟨hc,h0.trans (congrArg some hname),h1.trans (congrArg some hnick)⟩]
        have hset := isJoined_affects self false w
        dsimp only
        split
        · next hwant =>
          have hw : (w.state self).wantJoined = true := by rwa [setChan_self] at hwant
          refine Performs.congr (Performs.after (hset.trans (restart_affects self _)) (raiseParted_performs self _)) ?_
          simp [ChanState.kick,hw]
        · next hwant =>
          have hw : (w.state self).wantJoined = false := by
            rw [setChan_self] at hwant
            exact eq_false_of_ne_true hwant
          refine Performs.congr (Performs.after hset (raiseParted_performs self _)) ?_
          simp [ChanState.kick,hw]
      · next hnick =>
        rw [hf,if_neg fun hk => hnick (Option.some.inj (h1.symm.trans hk.2.2))]
        exact deleteNick_performs self nick w
    · next hname =>
      rw [hf,if_neg fun hk => hname (Option.some.inj (h0.symm.trans hk.2.1))]
      exact .refl w
  · next hlen =>
    rw [hf,if_neg]
    · exact .refl w
    · intro hk
      exact hlen (List.getElem?_eq_some_iff.mp hk.2.2).1

theorem handleEndofnames_performs (hc : m.command = .RPL_ENDOFNAMES)
    (hf : f = if EndsNames self m w then (·.enter (greetings self w)) else id) :
    Performs self f [] w (handleEndofnames self m w) := by
  unfold handleEndofnames
  split
  · next hlen =>
    refine deref_performs fun name h1 => ?_
    split
    · next hname =>
      rw [hf,if_pos ⟨hc,h1.trans (congrArg some hname)⟩]
      have hset := isJoined_affects self true w
      refine Performs.congr (Performs.after (hset.trans (g := fun s => { s with
        waitjoin := s.waitjoin - 1
        waitrejoin := s.waitrejoin - 1 }) ?_) (raiseJoined_performs self _))
        (by simp [ChanState.enter,greetings,World.setChan])
      refine ⟨?_,fun c hc => ?_,fun _ _ => rfl,rfl,.of_eq rfl,(List.append_nil _).symm⟩
      · simp [World.state,Event.count_unregister]
      · simp [World.state,Event.count_unregister,Ne.symm hc]
    · next hname =>
      rw [hf,if_neg fun hk => hname (Option.some.inj (h1.symm.trans hk.2))]
      exact .refl w
  · next hlen =>
    rw [hf,if_neg]
    · exact .refl w
    · intro hk
      exact hlen (List.getElem?_eq_some_iff.mp hk.2).1

def received (self : ChanId) (m : IrcMessage) (w : World) : ChanState → ChanState :=
  if Kicks self m w then ChanState.kick
  else if EndsNames self m w then (·.enter (greetings self w))
  else id

theorem handleMsg_performs (hf : ¬ Fails self m w) : Performs self (received self m w) [] w (handleMsg self env m w) := by
  have hother : m.command ≠ .MSG_KICK → m.command ≠ .RPL_ENDOFNAMES → received self m w = id := by
    intro hk he
    rw [received,if_neg fun h => hk h.1,if_neg fun h => he h.1]
  unfold handleMsg
  split
  · next hc => exact hother (by simp [hc]) (by simp [hc]) ▸ handleJoin_performs env self m w
  · next hc => exact hother (by simp [hc]) (by simp [hc]) ▸ handlePart_performs env self m w
  · next hc => exact hother (by simp [hc]) (by simp [hc]) ▸ handleQuit_performs env self m w
  · next hc => exact hother (by simp [hc]) (by simp [hc]) ▸ handleNick_performs env self m w
  · next hc =>
    have he : ¬ EndsNames self m w := fun h => absurd (hc.symm.trans h.1) (by simp)
    exact handleKick_performs hc (by rw [received,if_neg he])
  · next hc => exact hother (by simp [hc]) (by simp [hc]) ▸ handleNamreply_performs self m w
  · next hc =>
    have hk : ¬ Kicks self m w := fun h => absurd (hc.symm.trans h.1) (by simp)
    exact handleEndofnames_performs hc (by rw [received,if_neg hk])
  · next hc =>
    rw [hother (by simp [hc]) (by simp [hc])]
    unfold handleNosuchchannel
    split
    · refine deref_performs fun name h0 => ?_
      rw [if_neg fun hname => hf ⟨hc,h0.trans (congrArg some hname)⟩]
      exact .refl w
    · exact .refl w
  · next hk _ he _ => exact hother hk he ▸ .refl w

end Messages
end IrcChannel
end LibIrcBot
