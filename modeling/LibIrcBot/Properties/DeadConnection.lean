import LibIrcBot.Properties.Registrations

/-! # Channels of a dead connection

When a connection is closed the callback `disconnected` of each channel clears its flag. No
channel in the table is joined from then on to the next login, unless one was joined without
the callback, or a list of names ends in between.
-/
namespace LibIrcBot
open CString Effects Relation Outcome

/-- A channel that is joined when a connection is closed listens to its end, and no list of
names ends between the end of a connection and the next login. -/
def Clearing : Happening → World → Prop
  | .close, w => ∀ c, w.Has c → (w.state c).isJoined = true → 0 < (w.state c).disconnected
  | .call (.handleMsg self m), w => IrcChannel.EndsNames self m w → w.ghost.closings ≠ [] → w.logged = true
  | _, _ => True

variable {w w' : World} {l : Call} {self : ChanId}

/-- No channel in the table is joined after the end of a connection. -/
def World.Cleared (w : World) : Prop :=
  w.ghost.closings ≠ [] → w.logged = false → ∀ c, w.Has c → (w.state c).isJoined = false

/-- What a raise has still to do: each channel that is joined is yet to be visited. -/
def World.Pending (w : World) (k : ℕ) (t : World) : Prop :=
  t.roster = w.roster ∧ ∀ c, w.Has c → (t.state c).isJoined = true →
    0 < t.server.disconnected.countFrom k () (.disconnected c) 0

theorem pending_skip {t : World} {k : ℕ} {slot : EvHandler Unit LogoutHandler} (h : w.Pending k t)
    (hslot : t.server.disconnected.handlers[k]? = some slot) (hno : slot.handler = none ∨ slot.id ≠ 0) :
    w.Pending (k + 1) t := by
  refine ⟨h.1,fun c hs hj => ?_⟩
  have hpos := h.2 c hs hj
  have hmatch : Event.Matches () (.disconnected c) 0 slot = false := by
    rcases hno with hno | hno <;> simp [Event.Matches,hno]
  rw [Event.countFrom_succ hslot,hmatch] at hpos
  exact hpos

theorem pending_call {t : World} {k : ℕ} {slot : EvHandler Unit LogoutHandler} {handler : LogoutHandler}
    (h : w.Pending k t) (hslot : t.server.disconnected.handlers[k]? = some slot) (hh : slot.handler = some handler) :
    Meets (w.Pending (k + 1)) (fun _ => True) ((fun h w =>
      match h with
      | .disconnected chan => IrcChannel.disconnected chan w
      | .shutdownok => .ok (IrcBot.shutdownok w) : LogoutHandler → World → Run) handler t) := by
  have hpos : ∀ c, w.Has c → (t.state c).isJoined = true → handler ≠ .disconnected c →
      0 < t.server.disconnected.countFrom (k + 1) () (.disconnected c) 0 := by
    intro c hs hj hne
    have hpos := h.2 c hs hj
    have hmatch : Event.Matches () (.disconnected c) 0 slot = false := by simp [Event.Matches,hh,hne]
    rw [Event.countFrom_succ hslot,hmatch] at hpos
    exact hpos
  cases handler with
  | disconnected d =>
    dsimp only
    cases hd : IrcChannel.disconnected d t with
    | error e => trivial
    | ok u =>
      have ha := performs_ok (IrcChannel.disconnected_performs d t) hd
      refine ⟨ha.roster.trans h.1,fun c hs hj => ?_⟩
      by_cases hc : c = d
      · rw [hc,ha.own] at hj
        cases hj
      · have hne : LogoutHandler.disconnected d ≠ .disconnected c := by simpa using Ne.symm hc
        rw [ha.others c hc] at hj
        rw [(IrcChannel.disconnected_event hd).1,Event.countFrom_unregister_ne _ hne]
        exact hpos c hs hj hne
  | shutdownok =>
    have ha := shutdownok_affects 0 t
    have hevent : (IrcBot.shutdownok t).server.disconnected = t.server.disconnected.unregister () .shutdownok 0 := by
      unfold IrcBot.shutdownok Service.shutdownUnlock
      split <;> rfl
    refine ⟨ha.roster.trans h.1,fun c hs hj => ?_⟩
    rw [ha.state] at hj
    rw [hevent,Event.countFrom_unregister_ne _ (by simp)]
    exact hpos c hs hj (by simp)

/-- A raise that finds every joined channel registered clears them all. -/
theorem raiseDisconnected_clears {t : World}
    (h : ∀ c, w.Has c → (w.state c).isJoined = true → 0 < (w.state c).disconnected)
    (ht : IrcServer.raiseDisconnected w = .ok t) : ∀ c, t.Has c → (t.state c).isJoined = false := by
  have hrun : Meets (fun t => ∃ k, w.Pending k t ∧ t.server.disconnected.handlers[k]? = none) (fun _ => True)
      (IrcServer.raiseDisconnected w) :=
    Event.raiseFrom_spec (J := w.Pending) (fun _ _ _ => pending_skip)
      (fun _ _ _ _ hj hslot hh _ => pending_call hj hslot hh) (fun _ => trivial) ⟨rfl,h⟩
  rw [ht] at hrun
  obtain ⟨k,⟨hr,hk⟩,hend⟩ := hrun
  intro c hs
  by_contra hj
  have hpos := hk c ((has_of_roster hr c).mp hs) (eq_true_of_ne_false hj)
  rw [Event.countFrom_end hend] at hpos
  exact Nat.lt_irrefl 0 hpos

theorem ChanState.join_isJoined (s : ChanState) (logged : Bool) : (s.join logged).isJoined = s.isJoined := by
  unfold ChanState.join
  split
  · rfl
  · cases logged <;> rfl

/-- Only the end of a list of names makes a channel joined. -/
theorem Call.op_isJoined {s : ChanState} (h : (l.op w s).isJoined = true) :
    s.isJoined = true ∨ ∃ self m, l = .handleMsg self m ∧ IrcChannel.EndsNames self m w := by
  cases l with
  | join self => exact Or.inl ((s.join_isJoined _).symm.trans h)
  | part self => cases h
  | joinOnConnect self =>
    have hs := ChanState.join_isJoined { s with joinOnConnect := s.joinOnConnect - 1, wantJoined := false } w.logged
    exact Or.inl (hs.symm.trans h)
  | waitjoin self =>
    refine Or.inl ?_
    rw [Call.op,ChanState.tickJoin] at h
    split at h <;> exact h
  | waitrejoin self =>
    refine Or.inl ?_
    change (s.tickRejoin w.logged).isJoined = true at h
    unfold ChanState.tickRejoin at h
    split at h
    · rw [ChanState.join_isJoined] at h
      exact h
    · exact h
  | handleMsg self m =>
    rw [Call.op,IrcChannel.received] at h
    split at h
    · rw [ChanState.kick] at h
      split at h <;> cases h
    · split at h
      · next he => exact Or.inr ⟨self,m,rfl,he⟩
      · exact Or.inl h
  | jobs => exact Or.inl h

namespace World.Cleared

theorem call (hc : Charted w) (h : w.Cleared) (hd : Does l w w') (hC : Clearing (.call l) w) : w'.Cleared := by
  have hres := hd.result hc.toChannelInv hc.toAttended
  have hsame := same_of_effects hd.effects
  intro hcl hlog c hs
  rw [hsame.closings] at hcl
  rw [World.logged,hsame.connst] at hlog
  have hs : w.Has c := by
    by_cases hrem : l.Removing
    · obtain ⟨self,_,hhas,_,hgone⟩ := hres.removes hrem
      exact ((hgone.has_iff hc.toChannelInv hhas c).mp hs).1
    · exact (has_of_roster (hres.keeps hrem) c).mp hs
  by_cases hl : l.chan = some c
  · rw [hres.own c hl]
    by_contra hj
    rcases Call.op_isJoined (eq_true_of_ne_false hj) with hj | ⟨self,m,rfl,he⟩
    · rw [h hcl hlog c hs] at hj
      cases hj
    · have htrue := hC he hcl
      rw [World.logged,hlog] at htrue
      cases htrue
  · rw [(hres.others c hl).1]
    exact h hcl hlog c hs

theorem happens (hc : Charted w) (h : w.Cleared) {l : Happening} (hC : Clearing l w) (hh : Happens l w w') :
    w'.Cleared := by
  cases hh with
  | call hd => exact h.call hc hd hC
  | login name hw => exact fun _ hlog => by simp at hlog
  | close est hconn ht =>
    intro _ _ c hs
    rw [awaitReconn_state]
    exact raiseDisconnected_clears (w := IrcServer.hangUp est w) hC ht c hs
  | create name hget =>
    have hcreate := addChannel_creates hget
    intro hcl hlog c hs
    by_cases hn : c = w.nchans
    · rw [hn,hcreate.own]
    · rw [(hcreate.others c hn).1]
      exact h (hcreate.closings ▸ hcl) (hcreate.logged ▸ hlog) c ((hcreate.has_iff hget hn).mp hs)
  | listen =>
    intro hcl hlog c hs
    rw [listen_state]
    exact h hcl hlog c hs
  | other he =>
    intro hcl hlog c hs
    rw [he.state]
    exact h (he.closings ▸ hcl) (he.logged ▸ hlog) c ((has_of_roster he.roster c).mp hs)

end World.Cleared

/-- In every run whose steps are all clearing, no channel in the table is joined between the end
of a connection and the next login. -/
theorem dead_connection_cleared (h : w.Reached Clearing) (hcl : w.ghost.closings ≠ []) (hst : w.server.connst ≤ 0)
    {name : Bytes} {chan : ChanId} (hget : w.server.channels.get name = some chan) :
    (w.chans chan).isJoined = false := by
  obtain ⟨hc,hi⟩ := World.Reached.induct (fun t ht => fun hn => absurd (by rw [ht.ghost]) hn)
    (fun _ _ _ hct hi hC hl => World.Cleared.happens hct hi hC hl) h
  refine hi hcl (by simpa using hst) chan ?_
  rw [World.Has,(hc.name_of_get hget).2,hget]

/-- Without a channel every step is clearing. -/
theorem clearing_empty (l : Happening) (t u : World) (hc : Charted t) (hn : t.nchans = 0) (h : Happens l t u) :
    Clearing l t := by
  have hno : ∀ c, ¬ t.Has c := fun c hs => absurd (hc.lt_of_has hs) (by simp [hn])
  cases h with
  | call hd =>
    cases hd with
    | handleMsg c env m hr _ =>
      intro he
      exact absurd (hc.has_of_listens (he.1 ▸ by decide) hr) (hno c)
    | _ => trivial
  | close est hconn ht => exact fun c hs => absurd hs (hno c)
  | _ => trivial

def World.entered : World := result (IrcChannel.handleMsg 0 Env.failing
  ⟨some (lit "s"),lit "366",some (lit "n #c"),[lit "n",lit "#c"],.RPL_ENDOFNAMES⟩ joined)

def World.left : World :=
  IrcServer.awaitReconn (result (IrcServer.raiseDisconnected (IrcServer.hangUp true entered)))

theorem left_clearing : World.left.Reached Clearing := by
  have hstep : World.step (.join (lit "#c")) World.loggedIn = .ok World.joined := World.step_after (by decide +kernel)
  have hjoined : World.joined.Reached Clearing :=
    World.Reached.join (World.loggedIn_reachable.reached_empty (by decide +kernel) clearing_empty) (by decide +kernel)
      hstep trivial trivial
  have hlistens : IrcChannel.Listens 0
      ⟨some (lit "s"),lit "366",some (lit "n #c"),[lit "n",lit "#c"],.RPL_ENDOFNAMES⟩ World.joined := by
    unfold IrcChannel.Listens
    decide +kernel
  have hentered : World.entered.Reached Clearing := by
    refine hjoined.next ?_ (.call (.handleMsg 0 _ _ hlistens (World.result_eq (by decide +kernel))))
    exact fun _ _ => by decide +kernel
  have hlogout : ∀ c, World.entered.Has c → 0 < (World.entered.state c).disconnected := by
    intro c hs
    have hlt := (World.Reached.induct (I := fun _ => True) (fun _ _ => trivial) (fun _ _ _ _ _ _ _ => trivial)
      hentered).1.lt_of_has hs
    have hn : World.entered.nchans = 1 := by decide +kernel
    obtain rfl : c = 0 := Nat.lt_one_iff.mp (hn ▸ hlt)
    decide +kernel
  exact hentered.next (l := .close) (fun c hs _ => hlogout c hs) (.close true (by decide +kernel) (World.result_eq (by decide +kernel)))

theorem dead_connection_cleared_left : (World.entered.chans 0).isJoined = true ∧
    (World.left.chans 0).isJoined = false :=
  ⟨by decide +kernel,dead_connection_cleared left_clearing (by decide +kernel) (by decide +kernel)
    (show World.left.server.channels.get (lit "#c") = some 0 by decide +kernel)⟩

/-- The server puts the bot on a channel that it did not ask for, and then the connection is lost. -/
def World.forced : World :=
  after (Label.dropping Chunk.entered) loggedIn

theorem forced_joined : World.forced.Reachable ∧ World.forced.ghost.closings ≠ [] ∧ World.forced.server.connst = 0 ∧
    World.forced.server.channels.get (lit "#c") = some 0 ∧ (World.forced.chans 0).isJoined = true :=
  ⟨World.after_reachable World.loggedIn_reachable (by decide +kernel),by decide +kernel,by decide +kernel,
    by decide +kernel,by decide +kernel⟩

end LibIrcBot
