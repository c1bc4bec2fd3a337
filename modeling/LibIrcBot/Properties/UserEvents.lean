import LibIrcBot.Properties.WantedChannels

/-! # Events of users

The bot registers its callbacks for the users of a channel anew whenever it is told that the
channel is joined, and it is told so at every end of a list of names. A user that comes or goes
is handed to a handler as often as that has happened.
-/
namespace LibIrcBot
open CString Effects Relation Outcome Transitions

variable {w w' u : World} {chan : ChanId} {ls : List Happening}

/-! ## How often the callbacks are registered -/

def Happening.Ends (chan : ChanId) (name : Bytes) : Happening → Bool
  | .call (.handleMsg self m) => self = chan && m.command = .RPL_ENDOFNAMES && m.params[1]? = some name
  | _ => false

namespace ChanState

def listeners (s : ChanState) : ℕ × ℕ := (s.entered,s.left)

theorem join_listeners (s : ChanState) (logged : Bool) : (s.join logged).listeners = s.listeners := by
  unfold ChanState.join
  split
  · rfl
  · split <;> rfl

theorem tickJoin_listeners (s : ChanState) : s.tickJoin.listeners = s.listeners := by
  unfold ChanState.tickJoin
  split <;> rfl

theorem tickRejoin_listeners (s : ChanState) (logged : Bool) : (s.tickRejoin logged).listeners = s.listeners := by
  unfold ChanState.tickRejoin
  split
  · exact join_listeners _ logged
  · rfl

theorem kick_listeners (s : ChanState) : s.kick.listeners = s.listeners := by
  unfold ChanState.kick
  split <;> rfl

end ChanState

theorem Happening.ends_iff {m : IrcMessage} :
    Ends chan (w.chans chan).name (.call (.handleMsg chan m)) = true ↔ IrcChannel.EndsNames chan m w := by
  simp [Ends,IrcChannel.EndsNames]

/-- What a call to a channel adds to its listeners. -/
theorem Call.op_listeners {l : Call} {n : ℕ} (hl : l.chan = some chan)
    (hn : Happening.Ends chan (w.chans chan).name (.call l) → IrcChannel.greetings chan w = n) (s : ChanState) : (l.op w s).listeners =
      if Happening.Ends chan (w.chans chan).name (.call l) then (s.entered + n,s.left + n) else s.listeners := by
  cases l with
  | join self => exact ChanState.join_listeners s _
  | part self => rfl
  | joinOnConnect self => exact ChanState.join_listeners _ _
  | waitjoin self => exact ChanState.tickJoin_listeners s
  | waitrejoin self => exact ChanState.tickRejoin_listeners s _
  | handleMsg self m =>
    obtain rfl : self = chan := Option.some.inj hl
    by_cases he : IrcChannel.EndsNames self m w
    · have hk : ¬ IrcChannel.Kicks self m w := fun h => absurd (he.1.symm.trans h.1) (by simp)
      have hends := Happening.ends_iff.mpr he
      rw [if_pos hends,Call.op,IrcChannel.received,if_neg hk,if_pos he,hn hends]
      rfl
    · rw [if_neg (fun h => he (Happening.ends_iff.mp h)),Call.op,IrcChannel.received,if_neg he]
      split
      · exact ChanState.kick_listeners s
      · rfl
  | jobs => cases hl

theorem Happening.ends_ne {l : Call} (h : l.chan ≠ some chan) (name : Bytes) : Ends chan name (.call l) = false := by
  cases l with
  | handleMsg self m =>
    have hne : self ≠ chan := fun he => h (congrArg some he)
    simp [Ends,hne]
  | _ => rfl

/-- The server listens to every channel in the table once, so that it passes each end of names on
as often as the bot has been started. -/
theorem Charted.greetings (h : Charted w) (hs : w.Has chan) :
    IrcChannel.greetings chan w = w.server.joined.count () .chanJoined 0 := by
  rw [IrcChannel.greetings,(h.joined chan hs).count,Nat.one_mul]

theorem ite_prod_mk (p : Prop) [Decidable p] (a b c d : ℕ) :
    (if p then (a,b) else (c,d)) = (if p then a else c,if p then b else d) := by
  split <;> rfl

/-- A channel whose list of names ends is in the table. -/
theorem Charted.has_of_ends (h : Charted w) {l : Call} (hd : Does l w w') {name : Bytes}
    (he : Happening.Ends chan name (.call l) = true) : w.Has chan := by
  cases hd with
  | handleMsg self env m hr _ =>
    simp only [Happening.Ends,Bool.and_eq_true,decide_eq_true_eq] at he
    obtain rfl : self = chan := he.1.1
    exact h.has_of_listens (he.1.2 ▸ (by decide)) hr
  | _ => cases he

/-- What is known of the listeners behind a path that starts with `u` and on which the bot is not
started: those of `u` and those added at the ends of names. -/
structure Counted (u : World) (ls : List Happening) (w : World) : Prop where
  charted : Charted w
  started : w.server.joined = u.server.joined
  grows : u.nchans ≤ w.nchans
  fresh : ∀ c name, w.nchans ≤ c → ls.countP (Happening.Ends c name) = 0
  listeners : ∀ c, c < w.nchans → ∀ n, n = ls.countP (Happening.Ends c (w.chans c).name) *
    u.server.joined.count () .chanJoined 0 → (w.state c).listeners =
      if c < u.nchans then ((u.state c).entered + n,(u.state c).left + n) else (n,n)

namespace Counted

theorem start (h : Charted u) : Counted u [] u := by
  refine ⟨h,rfl,le_refl _,by simp,fun c hc n hn => ?_⟩
  have hzero : n = 0 := by simpa using hn
  rw [if_pos hc,hzero]
  rfl

/-- A step at which nothing is registered for the users of a channel. -/
theorem quiet {l : Happening} (h : Counted u ls w) (hc : Charted w') (hl : ∀ c name, l.Ends c name = false)
    (hj : w'.server.joined = w.server.joined) (hn : w'.nchans = w.nchans)
    (hname : ∀ c, (w'.chans c).name = (w.chans c).name)
    (hs : ∀ c, (w'.state c).listeners = (w.state c).listeners) : Counted u (ls ++ [l]) w' := by
  have hcount : ∀ c name, (ls ++ [l]).countP (Happening.Ends c name) = ls.countP (Happening.Ends c name) := by
    simp [hl]
  refine ⟨hc,hj.trans h.started,hn ▸ h.grows,fun c name hle => ?_,fun c hc n hcn => ?_⟩
  · rw [hcount]
    exact h.fresh c name (hn ▸ hle)
  · rw [hcount,hname] at hcn
    rw [hs c]
    exact h.listeners c (hn ▸ hc) n hcn

/-- A call. -/
theorem call {l : Call} (h : Counted u ls w) (hd : Does l w w') : Counted u (ls ++ [.call l]) w' := by
  have hc := h.charted
  have hres := hd.result hc.toChannelInv hc.toAttended
  have hsame := same_of_effects hd.effects
  have hname : ∀ c, (w'.chans c).name = (w.chans c).name := by
    intro c
    by_cases hrem : l.Removing
    · obtain ⟨self,_,_,_,hgone⟩ := hres.removes hrem
      exact hgone.name c
    · exact congrFun (congrArg Roster.name (hres.keeps hrem)) c
  refine ⟨hc.call hd,hsame.joined.trans h.started,hsame.nchans ▸ h.grows,fun c name hle => ?_,fun c hlt n hn => ?_⟩
  · rw [hsame.nchans] at hle
    have hno : Happening.Ends c name (.call l) = false := by
      by_contra hends
      exact Nat.not_lt.mpr hle (hc.lt_of_has (hc.has_of_ends hd (by simpa using hends)))
    simp [h.fresh c name hle,hno]
  · have hold := h.listeners c (hsame.nchans ▸ hlt) _ rfl
    rw [hname,List.countP_append,List.countP_singleton] at hn
    by_cases hl : l.chan = some c
    · rw [hres.own c hl,l.op_listeners hl fun hends => h.started ▸ hc.greetings (hc.has_of_ends hd hends)]
      split at hn
      · next hends =>
        obtain ⟨he,hl⟩ := Prod.mk.inj (hold.trans (ite_prod_mk _ _ _ _ _))
        rw [if_pos hends,he,hl,hn,Nat.add_mul,Nat.one_mul]
        split <;> simp [Nat.add_assoc]
      · next hends =>
        rw [if_neg hends,hold,hn]
        simp
    · have hends := Happening.ends_ne hl (w.chans c).name
      rw [(hres.others c hl).1,hold,hn,hends]
      simp

theorem close (h : Counted u ls w) {t : World} {est : Bool} (hc : w.server.conn.isSome)
    (ht : IrcServer.raiseDisconnected (IrcServer.hangUp est w) = .ok t) :
    Counted u (ls ++ [.close]) (IrcServer.awaitReconn t) := by
  have hsame := same_of_effects (hangUp_effects ht)
  have hrun := raiseDisconnected_invariant (w := IrcServer.hangUp est w)
    (J := fun v => v.roster = w.roster ∧ ∀ c, (v.state c).listeners = (w.state c).listeners) ?_ ?_ ⟨rfl,fun _ => rfl⟩
  · rw [ht] at hrun
    refine h.quiet (h.charted.happens (.close est hc ht)) (by simp [Happening.Ends]) hsame.joined hsame.nchans
      (fun c => congrFun (congrArg Roster.name hrun.1) c) fun c => ?_
    rw [awaitReconn_state]
    exact hrun.2 c
  · rintro v x c ⟨hr,hs⟩ _ hv
    refine ⟨hv.roster.trans hr,fun d => ?_⟩
    by_cases hdc : d = c
    · rw [hdc,hv.own]
      exact hs c
    · rw [hv.others d hdc,hs d]
  · rintro v x ⟨hr,hs⟩ hv
    exact ⟨hv.roster.trans hr,fun d => by rw [hv.state,hs d]⟩

theorem create (h : Counted u ls w) {name : Bytes} (hget : w.server.channels.get name = none) :
    Counted u (ls ++ [.create name]) (IrcServer.addChannel name w).2 := by
  have hcreate := addChannel_creates hget
  have hcount : ∀ c key, (ls ++ [Happening.create name]).countP (Happening.Ends c key) = ls.countP (Happening.Ends c key) := by
    simp [Happening.Ends]
  refine ⟨h.charted.create hget,hcreate.listeners.trans h.started,hcreate.nchans ▸ Nat.le_succ_of_le h.grows,
    fun c key hle => ?_,fun c hlt n hn => ?_⟩
  · rw [hcreate.nchans] at hle
    rw [hcount]
    exact h.fresh c key (Nat.le_of_succ_le hle)
  · rw [hcreate.nchans] at hlt
    rw [hcount] at hn
    by_cases hc : c = w.nchans
    · have hzero : n = 0 := by rw [hn,hc,h.fresh _ _ (le_refl _),Nat.zero_mul]
      rw [if_neg (Nat.not_lt.mpr (hc ▸ h.grows)),hzero,hc,hcreate.own]
      rfl
    · rw [(hcreate.others c hc).2] at hn
      rw [(hcreate.others c hc).1]
      exact h.listeners c (Nat.lt_of_le_of_ne (Nat.le_of_lt_succ hlt) hc) n hn

theorem step {l : Happening} (h : Counted u ls w) (hl : l ≠ .listen) (hh : Happens l w w') : Counted u (ls ++ [l]) w' := by
  cases hh with
  | call hd => exact h.call hd
  | login name hw =>
    exact h.quiet (h.charted.happens (.login name hw)) (by simp [Happening.Ends]) rfl rfl (fun _ => rfl)
      fun c => by rw [login_state]
  | close est hc ht => exact h.close hc ht
  | create name hget => exact h.create hget
  | listen => exact absurd rfl hl
  | other he =>
    exact h.quiet (h.charted.happens (.other he)) (by simp [Happening.Ends]) he.joined
      (congrArg Roster.nchans he.roster) (fun c => by rw [he.chans]) fun c => by rw [he.state]

theorem path (h : Charted u) (hp : Path Happens ls u w) (hl : .listen ∉ ls) : Counted u ls w := by
  induction hp with
  | nil => exact .start h
  | @snoc ls s t v l hls hstep ih =>
    rw [List.mem_append,List.mem_singleton,not_or] at hl
    exact (ih h hl.1).step (Ne.symm hl.2) hstep

end Counted

/-- A run in which the bot is started once: what happens before, and what happens afterwards. -/
structure Started (pre post : List Happening) (w : World) : Prop where
  before : .listen ∉ pre
  behind : .listen ∉ post
  run : ∃ w₀ : World, w₀.Initial ∧ Path Happens (pre ++ .listen :: post) w₀ w

/-- The bot listens to the users of a channel as often as a list of its names has ended. -/
theorem Started.listeners {pre post : List Happening} (h : Started pre post w) : Charted w ∧
    ∀ c, c < w.nchans → (w.state c).listeners = (post.countP (Happening.Ends c (w.chans c).name),
      post.countP (Happening.Ends c (w.chans c).name)) := by
  obtain ⟨w₀,h₀,hp⟩ := h.run
  obtain ⟨t,v,ht,hl,hv⟩ := hp.cons_inv
  have hpre := Counted.path (.initial h₀) ht h.before
  have hpost := Counted.path (hpre.charted.happens hl) hv h.behind
  refine ⟨hpost.charted,fun c hc => ?_⟩
  have hnone : t.server.joined.count () .chanJoined 0 = 0 := by
    rw [hpre.started,h₀.joined]
    rfl
  generalize hlabel : Happening.listen = l at hl
  cases hl with
  | listen =>
    have hone : (t.server.joined.register () .chanJoined 0).count () .chanJoined 0 = 1 := by
      simp [Event.count_register,hnone]
    have hzero : c < t.nchans → (t.state c).listeners = (0,0) := by
      intro hlt
      have h0 := hpre.listeners c hlt 0 (by rw [h₀.joined]; rfl)
      rwa [if_neg (by simp [h₀.nchans])] at h0
    have hsum := hpost.listeners c hc _ rfl
    rw [hsum,listen_state,hone,Nat.mul_one]
    split
    · next hlt =>
      obtain ⟨he,hl⟩ := Prod.mk.inj (hzero hlt)
      rw [he,hl,Nat.zero_add]
    · rfl
  | _ => cases hlabel

/-- The registrations of the bot on the server. -/
theorem registrations_of_path (h : Path Happens ls w w') :
    w'.server.joined.registrations = w.server.joined.registrations + ls.count .listen := by
  induction h with
  | nil => rfl
  | @snoc ls s t v l hls hl ih =>
    rw [List.count_append,← Nat.add_assoc,← ih]
    cases hl with
    | call hd => simp [(same_of_effects hd.effects).joined]
    | login name hw => simp
    | close est hc ht =>
      have hj : (IrcServer.awaitReconn _).server.joined = t.server.joined := (same_of_effects (hangUp_effects ht)).joined
      simp [hj]
    | create name hget => simp [(addChannel_creates hget).listeners]
    | listen => simp [Event.register]
    | other he => simp [he.joined]

/-- Every run in which the bot has registered once is one in which it is started once. -/
theorem World.Reachable.started (h : w.Reachable) (hone : w.server.joined.registrations = 1) :
    ∃ pre post, Started pre post w := by
  obtain ⟨w₀,h₀,hw⟩ := h.reached
  obtain ⟨ls,_,hls⟩ := Path.ofSteps (P := fun _ => True) (R := Happens) hw
  have hcount : ls.count .listen = 1 := by
    have hr := registrations_of_path hls
    rw [hone,h₀.joined] at hr
    simpa [Event.create] using hr.symm
  obtain ⟨pre,post,rfl⟩ := List.append_of_mem (List.count_pos_iff.mp (hcount ▸ Nat.one_pos))
  simp only [List.count_append,List.count_cons_self] at hcount
  exact ⟨pre,post,List.count_eq_zero.mp (by omega),List.count_eq_zero.mp (by omega),w₀,h₀,hls⟩

/-! ## The jobs of an event -/

/-- The jobs that were started for the events of a type in a channel. -/
def World.jobsFor (type : IrcBotEventType) (name : Bytes) (w : World) : List (IrcBotEventHandler × IrcBotEvent) :=
  w.bot.jobs.filter fun job => job.2.type = type && job.2.origin = some name

/-- A message by which another user comes to a channel, or one known there goes, with the type of
the event that this is and the nick of the user. -/
inductive UserEvent (chan : ChanId) (w : World) : IrcMessage → IrcBotEventType → Bytes → Prop where
  | join {m : IrcMessage} {nick : Bytes} (hc : m.command = .MSG_JOIN) (hn : m.params[0]? = some (w.chans chan).name)
      (hp : m.msgPrefix.bind sscanfNick = some nick) (hne : nick ≠ w.server.nick) : UserEvent chan w m .IBET_JOINED nick
  | part {m : IrcMessage} {nick : Bytes} (hc : m.command = .MSG_PART) (hn : m.params[0]? = some (w.chans chan).name)
      (hp : m.msgPrefix.bind sscanfNick = some nick) (hk : ((w.chans chan).nicks.get nick).isSome) :
      UserEvent chan w m .IBET_PARTED nick
  | quit {m : IrcMessage} {nick : Bytes} (hc : m.command = .MSG_QUIT) (hp : m.msgPrefix.bind sscanfNick = some nick)
      (hk : ((w.chans chan).nicks.get nick).isSome) : UserEvent chan w m .IBET_PARTED nick
  | kick {m : IrcMessage} {nick : Bytes} (hc : m.command = .MSG_KICK) (hn : m.params[0]? = some (w.chans chan).name)
      (hp : m.params[1]? = some nick) (hne : nick ≠ w.server.nick) (hk : ((w.chans chan).nicks.get nick).isSome) :
      UserEvent chan w m .IBET_PARTED nick

variable {m : IrcMessage} {type : IrcBotEventType} {nick name : Bytes} {hdl : IrcBotEventHandler} {n : ℕ}

theorem UserEvent.congr (h : UserEvent chan w m type nick) (hc : w'.chans chan = w.chans chan)
    (hn : w'.server.nick = w.server.nick) : UserEvent chan w' m type nick := by
  cases h with
  | join hcmd hname hp hne => exact .join hcmd (hc ▸ hname) hp (hn ▸ hne)
  | part hcmd hname hp hk => exact .part hcmd (hc ▸ hname) hp (hc ▸ hk)
  | quit hcmd hp hk => exact .quit hcmd hp (hc ▸ hk)
  | kick hcmd hname hp hne hk => exact .kick hcmd (hc ▸ hname) hp (hn ▸ hne) (hc ▸ hk)

/-- The event that a handler for the users of a channel is given. -/
def userBotEvent (type : IrcBotEventType) (name nick : Bytes) : IrcBotEvent :=
  IrcBot.createBotEvent type (some name) none none (some nick)

def World.userHandler (type : IrcBotEventType) (name nick : Bytes) (w : World) : Option IrcBotEventHandler :=
  IrcBot.findHandler type (some w.server.id) (some name) (some nick) w

theorem userChanged_iterate (hn : (w.chans chan).name = name) (hh : w.userHandler type name nick = some hdl) (n : ℕ) :
    (IrcBot.userChanged type chan nick)^[n] w =
      { w with bot.jobs := w.bot.jobs ++ List.replicate n (hdl,userBotEvent type name nick) } := by
  induction n generalizing w with
  | zero => simp
  | succ n ih =>
    have hone : IrcBot.userChanged type chan nick w =
        { w with bot.jobs := w.bot.jobs ++ [(hdl,userBotEvent type name nick)] } := by
      rw [World.userHandler] at hh
      rw [IrcBot.userChanged,hn,hh]
      rfl
    rw [Function.iterate_succ_apply,ih (hone ▸ hn) (hone ▸ hh),hone]
    simp [List.replicate_succ]

theorem userChanged_chans (type : IrcBotEventType) (chan : ChanId) (nick : Bytes) (w : World) :
    (IrcBot.userChanged type chan nick w).chans = w.chans := by
  obtain ⟨_,he⟩ := IrcBot.dispatch_shape (IrcBot.findHandler type (some w.server.id) (some (w.chans chan).name)
    (some nick) w) (userBotEvent type (w.chans chan).name nick) w
  exact (congrArg World.chans he :)

theorem raiseEntered_eq (chan : ChanId) (nick : Bytes) (w : World) : IrcChannel.raiseEntered chan nick w =
    .ok ((IrcBot.userJoined chan nick)^[(w.chans chan).entered.count () .userJoined 0] w) :=
  raise_iterate (fun _ => rfl) (fun _ => rfl) fun t => by rw [IrcBot.userJoined,userChanged_chans]

theorem raiseLeft_eq (chan : ChanId) (nick : Bytes) (w : World) : IrcChannel.raiseLeft chan nick w =
    .ok ((IrcBot.userParted chan nick)^[(w.chans chan).left.count () .userParted 0] w) :=
  raise_iterate (fun _ => rfl) (fun _ => rfl) fun t => by rw [IrcBot.userParted,userChanged_chans]

theorem raiseEntered_jobs (hn : (w.chans chan).name = name) (hh : w.userHandler .IBET_JOINED name nick = some hdl)
    (h : IrcChannel.raiseEntered chan nick w = .ok w') : w'.bot.jobs = w.bot.jobs ++
      List.replicate (w.state chan).entered (hdl,userBotEvent .IBET_JOINED name nick) := by
  rw [raiseEntered_eq,IrcBot.userJoined,userChanged_iterate hn hh] at h
  exact (Except.ok.inj h) ▸ rfl

theorem raiseLeft_jobs (hn : (w.chans chan).name = name) (hh : w.userHandler .IBET_PARTED name nick = some hdl)
    (h : IrcChannel.raiseLeft chan nick w = .ok w') : w'.bot.jobs = w.bot.jobs ++
      List.replicate (w.state chan).left (hdl,userBotEvent .IBET_PARTED name nick) := by
  rw [raiseLeft_eq,IrcBot.userParted,userChanged_iterate hn hh] at h
  exact (Except.ok.inj h) ▸ rfl

theorem scanNick_eq {env : Env} (hp : m.msgPrefix.bind sscanfNick = some nick) :
    IrcChannel.scanNick env m w = .ok nick := by
  obtain ⟨msgPrefix,he,hs⟩ := Option.bind_eq_some_iff.mp hp
  simp [IrcChannel.scanNick,he,World.deref,hs,bind,Except.bind,pure,Except.pure]

/-- No channel misses a part of the message. -/
theorem handleMsg_ok {t : World} (hu : UserEvent chan w m type nick) (ho : t.server.nick = w.server.nick)
    (env : Env) (c : ChanId) : ∃ v, IrcChannel.handleMsg c env m t = .ok v := by
  have hleft : ∃ v, (if (IrcChannel.deleteNick c nick t).1 then
      IrcChannel.raiseLeft c nick (IrcChannel.deleteNick c nick t).2
      else .ok (IrcChannel.deleteNick c nick t).2) = .ok v := by
    split
    · exact ⟨_,raiseLeft_eq c nick _⟩
    · exact ⟨_,rfl⟩
  cases hu with
  | join hc hname hp hne =>
    obtain ⟨hlen,_⟩ := List.getElem?_eq_some_iff.mp hname
    simp only [IrcChannel.handleMsg,hc,IrcChannel.handleJoin,if_pos (Nat.ne_of_gt hlen),hname,World.deref,
      scanNick_eq hp,bind,Except.bind,ho,if_pos hne]
    split
    · exact ⟨_,raiseEntered_eq c nick _⟩
    · exact ⟨_,rfl⟩
  | part hc hname hp hk =>
    obtain ⟨hlen,_⟩ := List.getElem?_eq_some_iff.mp hname
    simp only [IrcChannel.handleMsg,hc,IrcChannel.handlePart,if_pos (Nat.ne_of_gt hlen),hname,World.deref,
      IrcChannel.handleQuit,scanNick_eq hp,bind,Except.bind]
    split
    · exact hleft
    · exact ⟨_,rfl⟩
  | quit hc hp hk =>
    simp only [IrcChannel.handleMsg,hc,IrcChannel.handleQuit,scanNick_eq hp,bind,Except.bind]
    exact hleft
  | kick hc hname hp hne hk =>
    obtain ⟨hlen,_⟩ := List.getElem?_eq_some_iff.mp hp
    simp only [IrcChannel.handleMsg,hc,IrcChannel.handleKick,if_pos hlen,hname,World.deref,hp,bind,Except.bind,
      ho,if_neg hne]
    split
    · exact hleft
    · exact ⟨_,rfl⟩

/-- A user that is known goes. -/
theorem deleteNick_jobs (hs : (w.chans chan).name = name) (hk : ((w.chans chan).nicks.get nick).isSome)
    (hh : w.userHandler .IBET_PARTED name nick = some hdl) (hn : (w.state chan).left = n)
    (h : (if (IrcChannel.deleteNick chan nick w).1 then
      IrcChannel.raiseLeft chan nick (IrcChannel.deleteNick chan nick w).2
      else pure (IrcChannel.deleteNick chan nick w).2) = .ok w') :
    w'.bot.jobs = w.bot.jobs ++ List.replicate n (hdl,userBotEvent .IBET_PARTED name nick) := by
  have hfound : (IrcChannel.deleteNick chan nick w).1 = true := (IBHashTable.delete_found _ _).trans hk
  rw [if_pos hfound] at h
  have hsame : ((IrcChannel.deleteNick chan nick w).2.chans chan).name = name := by
    simp [IrcChannel.deleteNick,World.setChan,hs]
  have hj := raiseLeft_jobs hsame hh h
  rwa [(IrcChannel.deleteNick_affects chan nick w).own,id,hn] at hj

/-- The channel itself starts a job for each registration of the bot. -/
theorem handleMsg_jobs {env : Env} (hu : UserEvent chan w m type nick) (hs : (w.chans chan).name = name)
    (hh : w.userHandler type name nick = some hdl) (hn : (w.state chan).listeners = (n,n))
    (h : IrcChannel.handleMsg chan env m w = .ok w') :
    w'.bot.jobs = w.bot.jobs ++ List.replicate n (hdl,userBotEvent type name nick) := by
  obtain ⟨hentered,hleft⟩ := Prod.mk.inj hn
  cases hu with
  | join hc hname hp hne =>
    obtain ⟨hlen,_⟩ := List.getElem?_eq_some_iff.mp hname
    simp only [IrcChannel.handleMsg,hc,IrcChannel.handleJoin,if_pos (Nat.ne_of_gt hlen),hname,World.deref,
      scanNick_eq hp,bind,Except.bind,↓reduceIte,if_pos hne] at h
    have hsame : ((IrcChannel.setNick chan nick w).chans chan).name = name := by
      simp [IrcChannel.setNick,World.setChan,hs]
    have hj := raiseEntered_jobs hsame hh h
    rwa [(IrcChannel.setNick_affects chan nick w).own,id,hentered] at hj
  | part hc hname hp hk =>
    obtain ⟨hlen,_⟩ := List.getElem?_eq_some_iff.mp hname
    simp only [IrcChannel.handleMsg,hc,IrcChannel.handlePart,if_pos (Nat.ne_of_gt hlen),hname,World.deref,
      IrcChannel.handleQuit,scanNick_eq hp,bind,Except.bind,↓reduceIte] at h
    exact deleteNick_jobs hs hk hh hleft h
  | quit hc hp hk =>
    simp only [IrcChannel.handleMsg,hc,IrcChannel.handleQuit,scanNick_eq hp,bind,Except.bind] at h
    exact deleteNick_jobs hs hk hh hleft h
  | kick hc hname hp hne hk =>
    obtain ⟨hlen,_⟩ := List.getElem?_eq_some_iff.mp hp
    simp only [IrcChannel.handleMsg,hc,IrcChannel.handleKick,if_pos hlen,hname,World.deref,hp,bind,Except.bind,
      ↓reduceIte,if_neg hne] at h
    exact deleteNick_jobs hs hk hh hleft h

/-- Jobs for the events of other channels and of other types do not count. -/
theorem jobsFor_append {jobs : List (IrcBotEventHandler × IrcBotEvent)} (h : w'.bot.jobs = w.bot.jobs ++ jobs)
    (hj : ∀ job ∈ jobs, job.2.type ≠ type ∨ job.2.origin ≠ some name) : w'.jobsFor type name = w.jobsFor type name := by
  have hnone : jobs.filter (fun job => job.2.type = type && job.2.origin = some name) = [] := by
    refine List.filter_eq_nil_iff.mpr fun job hmem => ?_
    have hne := hj job hmem
    simp only [Bool.and_eq_true,decide_eq_true_eq,not_and]
    exact fun ht ho => hne.elim (fun h => h ht) (fun h => h ho)
  rw [World.jobsFor,h,List.filter_append,hnone,List.append_nil]
  rfl

theorem jobsFor_replicate (h : w'.bot.jobs = w.bot.jobs ++ List.replicate n (hdl,userBotEvent type name nick)) :
    w'.jobsFor type name = w.jobsFor type name ++ List.replicate n (hdl,userBotEvent type name nick) := by
  rw [World.jobsFor,h,List.filter_append,List.filter_replicate_of_pos (by simp [userBotEvent,IrcBot.createBotEvent])]
  rfl

/-- A message to the bot starts jobs of other types. -/
theorem msgReceived_jobs (htype : type = .IBET_JOINED ∨ type = .IBET_PARTED) (name : Bytes) (m : IrcMessage) (w : World) :
    (IrcBot.msgReceived m w).jobsFor type name = w.jobsFor type name := by
  have hnew : ∀ (hdl : Option IrcBotEventHandler) (e : IrcBotEvent), e.type ≠ type →
      (IrcBot.dispatch hdl e w).jobsFor type name = w.jobsFor type name := by
    intro hdl e he
    cases hdl with
    | none => rfl
    | some hdl =>
      refine jobsFor_append (rfl : _ = w.bot.jobs ++ [(hdl,e)]) fun job hmem => Or.inl ?_
      rwa [List.mem_singleton.mp hmem]
  have hmsg : ∀ {e : IrcBotEventType}, e ≠ .IBET_JOINED → e ≠ .IBET_PARTED → e ≠ type := by
    rintro e hj hp rfl
    exact htype.elim hj hp
  unfold IrcBot.msgReceived
  split
  · dsimp only
    split
    · next hdl e hc =>
      refine hnew (some hdl) e ?_
      split at hc
      · split at hc
        · obtain ⟨_,_,hpair⟩ := Option.map_eq_some_iff.mp hc
          rw [← (Prod.mk.inj hpair).2]
          exact hmsg (by simp [IrcBot.createBotEvent]) (by simp [IrcBot.createBotEvent])
        · cases hc
      · cases hc
    · exact hnew _ _ (hmsg (by simp [IrcBot.createBotEvent]) (by simp [IrcBot.createBotEvent]))
  · rfl

theorem UserEvent.type_eq (h : UserEvent chan w m type nick) : type = .IBET_JOINED ∨ type = .IBET_PARTED := by
  cases h <;> simp

theorem UserEvent.listened (h : UserEvent chan w m type nick) :
    m.command ∈ IrcChannel.msgCommands ∧ m.command ≠ .ERR_NOSUCHCHANNEL := by
  cases h with
  | join hc | part hc | quit hc | kick hc => exact hc ▸ (by decide)

theorem handler_of_effects (h : ReflTransGen Effect w w') (type : IrcBotEventType) (name nick : Bytes) :
    w'.userHandler type name nick = w.userHandler type name nick := by
  refine Effects.invariant (I := fun t => t.userHandler type name nick = w.userHandler type name nick) ?_ rfl h
  intro t u ht he
  rw [← ht]
  cases he with
  | send _ cmd args hcmd _ hs =>
    obtain ⟨_,_,_,_,_,_,_,_,_,_,_,_,rfl⟩ := sendRawCmd_outputs hcmd hs
    rfl
  | remove self _ =>
    obtain ⟨_,_,he⟩ := remove_shape (t.chans self).name self t
    rw [he]
    rfl
  | _ => rfl

/-- What is known when the raise of a message comes to a slot: the channel is still to be called,
and then everything is as before, or it has been called. -/
structure Raising (chan : ChanId) (m : IrcMessage) (type : IrcBotEventType) (name : Bytes)
    (jobs : List (IrcBotEventHandler × IrcBotEvent)) (w : World) (k : ℕ) (t : World) : Prop where
  effects : ReflTransGen Effect w t
  roster : t.roster = w.roster
  progress : (w.server.msgReceived.countFrom k () (.handleMsg chan) m.command.code = 1 ∧ t.chans chan = w.chans chan ∧
      t.state chan = w.state chan ∧ t.jobsFor type name = w.jobsFor type name) ∨
    (w.server.msgReceived.countFrom k () (.handleMsg chan) m.command.code = 0 ∧
      t.jobsFor type name = w.jobsFor type name ++ jobs)

namespace Raising
variable {jobs : List (IrcBotEventHandler × IrcBotEvent)} {k : ℕ} {t v : World} {slot : EvHandler Unit MsgHandler}

theorem msgReceived (h : Raising chan m type name jobs w k t) : t.server.msgReceived = w.server.msgReceived :=
  congrArg Roster.msgReceived h.roster

/-- A pass that does not call the channel. -/
theorem pass (h : Raising chan m type name jobs w k t) (hslot : t.server.msgReceived.handlers[k]? = some slot)
    (hm : Event.Matches () (.handleMsg chan) m.command.code slot = false) (he : ReflTransGen Effect t v)
    (hr : v.roster = t.roster) (hc : v.chans chan = t.chans chan) (hs : v.state chan = t.state chan)
    (hj : v.jobsFor type name = t.jobsFor type name) : Raising chan m type name jobs w (k + 1) v := by
  rw [h.msgReceived] at hslot
  have hcount := Event.countFrom_succ hslot () (.handleMsg chan) m.command.code
  rw [if_neg (by simp [hm]),Nat.add_zero] at hcount
  refine ⟨h.effects.trans he,hr.trans h.roster,?_⟩
  rw [← hcount,hc,hs,hj]
  exact h.progress

/-- A pass that calls the channel. -/
theorem own {env : Env} (h : Raising chan m type name (List.replicate n (hdl,userBotEvent type name nick)) w k t)
    (hslot : t.server.msgReceived.handlers[k]? = some slot)
    (hm : Event.Matches () (.handleMsg chan) m.command.code slot = true) (hu : UserEvent chan w m type nick)
    (hname : (w.chans chan).name = name) (hh : w.userHandler type name nick = some hdl)
    (hn : (w.state chan).listeners = (n,n)) (he : ReflTransGen Effect t v) (hr : v.roster = t.roster)
    (hv : IrcChannel.handleMsg chan env m t = .ok v) :
    Raising chan m type name (List.replicate n (hdl,userBotEvent type name nick)) w (k + 1) v := by
  rw [h.msgReceived] at hslot
  have hcount := Event.countFrom_succ hslot () (.handleMsg chan) m.command.code
  rw [if_pos hm] at hcount
  refine ⟨h.effects.trans he,hr.trans h.roster,Or.inr ?_⟩
  rcases h.progress with ⟨hone,hc,hs,hj⟩ | ⟨hzero,_⟩
  · have hut := hu.congr hc (same_of_effects h.effects).nick
    have hjobs := handleMsg_jobs hut ((congrArg IrcChannel.name hc).trans hname)
      ((handler_of_effects h.effects type name nick).trans hh) (by rw [hs,hn]) hv
    refine ⟨by omega,?_⟩
    rw [jobsFor_replicate hjobs,hj]
  · omega

end Raising

/-- A message for a user event starts a job for each registration of the bot on the channel. -/
theorem raiseMsgReceived_jobs {env : Env} (hi : ChannelInv w) (hs : w.Has chan) (hu : UserEvent chan w m type nick)
    (hname : (w.chans chan).name = name) (hh : w.userHandler type name nick = some hdl)
    (hn : (w.state chan).listeners = (n,n)) : ∃ w', IrcServer.raiseMsgReceived env m w = .ok w' ∧
      w'.jobsFor type name = w.jobsFor type name ++ List.replicate n (hdl,userBotEvent type name nick) := by
  obtain ⟨hcmd,hok⟩ := hu.listened
  have hstart : Raising chan m type name (List.replicate n (hdl,userBotEvent type name nick)) w 0 w := by
    refine ⟨.refl,rfl,Or.inl ⟨?_,rfl,rfl,rfl⟩⟩
    exact (hi.listening chan m.command hcmd).trans (if_pos hs)
  obtain ⟨w',l,hr,hl,hend⟩ : ∃ t l, IrcServer.raiseMsgReceived env m w = .ok t ∧
      Raising chan m type name (List.replicate n (hdl,userBotEvent type name nick)) w l t ∧
        t.server.msgReceived.handlers[l]? = none := by
    refine Event.raiseFrom_runs (J := Raising chan m type name (List.replicate n (hdl,userBotEvent type name nick)) w)
      ?_ ?_ (fun _ _ ht => (congrArg Event.size ht.msgReceived).le) (Nat.le_refl _) hstart
    · intro k t slot ht hslot hdead
      refine ht.pass hslot ?_ .refl rfl rfl rfl rfl
      rcases hdead with hdead | hdead <;> simp [Event.Matches,hdead]
    · intro k t slot handler ht hslot hhandler hid
      cases handler with
      | handleMsg c =>
        have hlistens : IrcChannel.Listens c m t :=
          Event.count_pos_iff.mpr ⟨slot,List.mem_of_getElem? hslot,rfl,hhandler,hid⟩
        have htr := IrcChannel.handleMsg_traces env hlistens
        have hperf : Performs c (IrcChannel.received c m t) [] t (IrcChannel.handleMsg c env m t) :=
          IrcChannel.handleMsg_performs env fun hf => hok hf.1
        obtain ⟨v,hv⟩ := handleMsg_ok hu (same_of_effects ht.effects).nick env c
        rw [hv] at htr hperf
        refine ⟨v,hv,?_⟩
        by_cases hc : c = chan
        · subst hc
          exact ht.own hslot (by simp [Event.Matches,hhandler,hid]) hu hname hh hn htr hperf.roster hv
        · refine ht.pass hslot (by simp [Event.Matches,hhandler,hc]) htr hperf.roster (hperf.chans _ (Ne.symm hc))
            (hperf.others _ (Ne.symm hc)) ?_
          obtain ⟨jobs,hjobs,horigin⟩ := hperf.jobs
          refine jobsFor_append hjobs fun job hmem => Or.inr ?_
          -- Two channels of the table have different names.
          rw [horigin job hmem]
          intro he
          have hhas := (hi.effects ht.effects).has_of_listens hcmd hlistens
          have hown := (has_of_roster ht.roster chan).mpr hs
          have hsame : (t.chans chan).name = name := (congrFun (congrArg Roster.name ht.roster) chan).trans hname
          rw [World.Has,Option.some.inj he,← hsame,hown] at hhas
          exact hc (Option.some.inj hhas).symm
      | msgReceived =>
        obtain ⟨jobs,hshape⟩ := IrcBot.msgReceived_shape m t
        have heff := effects_of_mild (IrcBot.msgReceived_mild m t)
        have hjobs := msgReceived_jobs hu.type_eq name m t
        rw [hshape] at heff hjobs
        refine ⟨_,congrArg Except.ok hshape,?_⟩
        exact ht.pass hslot (by simp [Event.Matches,hhandler]) heff rfl rfl rfl hjobs
  refine ⟨w',hr,?_⟩
  rcases hl.progress with ⟨hone,_⟩ | ⟨_,hjobs⟩
  · rw [← hl.msgReceived,Event.countFrom_end hend] at hone
    cases hone
  · exact hjobs

/-- The server itself does nothing with the message of a user event. -/
theorem handleCommand_user (hs : w.Has chan) (hu : UserEvent chan w m type nick) :
    IrcServer.handleCommand m w = .ok w := by
  cases hu with
  | join hc hname hp hne =>
    obtain ⟨hlen,_⟩ := List.getElem?_eq_some_iff.mp hname
    obtain ⟨msgPrefix,he,_⟩ := Option.bind_eq_some_iff.mp hp
    have hget : w.server.channels.get (w.chans chan).name = some chan := hs
    simp only [IrcServer.handleCommand,hc,IrcServer.handleJoin,if_pos (Nat.ne_of_gt hlen),IrcServer.ownPrefix,he,
      hname,World.deref,bind,Except.bind,pure,Except.pure,hget]
    split <;> rfl
  | part hc | quit hc | kick hc => simp [IrcServer.handleCommand,hc]

/-- A user event starts a job for each list of names of the channel that has ended. -/
theorem handleMessage_jobs {pre post : List Happening} {env : Env} (h : Started pre post w) (hs : w.Has chan)
    (hu : UserEvent chan w m type nick) (hh : w.userHandler type (w.chans chan).name nick = some hdl) :
    ∃ w', IrcServer.handleMessage env m w = .ok w' ∧
      w'.jobsFor type (w.chans chan).name = w.jobsFor type (w.chans chan).name ++
        List.replicate (post.countP (Happening.Ends chan (w.chans chan).name))
          (hdl,userBotEvent type (w.chans chan).name nick) := by
  obtain ⟨hc,hl⟩ := h.listeners
  have hchan := hl chan (hc.lt_of_has hs)
  have hlog : ChannelInv { w with ghost.handled := w.ghost.handled ++ [m] } :=
    ⟨{ hc.toLinked with },{ hc.toOwned with },hc.listening⟩
  have hcommand := handleCommand_user (w := { w with ghost.handled := w.ghost.handled ++ [m] }) hs (hu.congr rfl rfl)
  rw [IrcServer.handleMessage,hcommand]
  exact raiseMsgReceived_jobs (w := { w with ghost.handled := w.ghost.handled ++ [m] }) hlog hs (hu.congr rfl rfl) rfl hh
    hchan

/-- In every run in which the bot is started once: the message by which another user comes to a
channel of the server, or one that the channel knows goes, starts exactly one job of the handler
for the event exactly if one list of names of the channel has ended since the start. -/
theorem user_event_once {pre post : List Happening} (env : Env) (h : Started pre post w) (hs : w.Has chan)
    (hu : UserEvent chan w m type nick) (hh : w.userHandler type (w.chans chan).name nick = some hdl) :
    ∃ w', IrcServer.handleMessage env m w = .ok w' ∧
      (w'.jobsFor type (w.chans chan).name =
          w.jobsFor type (w.chans chan).name ++ [(hdl,userBotEvent type (w.chans chan).name nick)] ↔
        post.countP (Happening.Ends chan (w.chans chan).name) = 1) := by
  obtain ⟨w',hm,hjobs⟩ := handleMessage_jobs h hs hu hh
  refine ⟨w',hm,?_⟩
  rw [hjobs,List.append_cancel_left_eq]
  constructor
  · intro he
    simpa using congrArg List.length he
  · intro he
    rw [he]
    rfl

/-- A bot with a handler for any user that joins logs in and joins a channel; then data arrives. -/
def World.greeted (chunk : Chunk) : World :=
  after (Label.connecting ++ Label.iteration (.io [] [3]) 1 2
      (.delivering ⟨lit ":s 004 n s g\x0d\n",by decide,by decide⟩) ++
    .join (lit "#c") :: Label.iteration (.io [] [3]) 1 2 (.delivering chunk))
    (create (.create (lit "s") (lit "n") (some (lit "u")) (some (lit "r")) false) [⟨0,none,none,none,.IBET_JOINED⟩])

def Chunk.names : Chunk := ⟨lit ":s 366 n #c e\x0d\n",by decide,by decide⟩

def Chunk.namesTwice : Chunk := ⟨lit ":s 366 n #c e\x0d\n:s 366 n #c e\x0d\n",by decide,by decide⟩

def IrcMessage.visit : IrcMessage := ⟨some (lit "a!b@c"),lit "JOIN",some (lit "#c"),[lit "#c"],.MSG_JOIN⟩

/-- A bot that has been told once that the channel is joined handles a user once. -/
theorem user_event_once_greeted : ∃ pre post, Started pre post (World.greeted Chunk.names) ∧
    post.countP (Happening.Ends 0 (lit "#c")) = 1 ∧
    (World.result (IrcServer.handleMessage Env.failing .visit (World.greeted Chunk.names))).jobsFor
        .IBET_JOINED (lit "#c") =
      (World.greeted Chunk.names).jobsFor .IBET_JOINED (lit "#c") ++
        [(⟨0,none,none,none,.IBET_JOINED⟩,userBotEvent .IBET_JOINED (lit "#c") (lit "a"))] := by
  have hr : (World.greeted Chunk.names).Reachable :=
    World.after_reachable (.start (World.create_initial _ _ _ _ _ _)) (by decide +kernel)
  obtain ⟨pre,post,h⟩ := hr.started (by decide +kernel)
  have hname : ((World.greeted Chunk.names).chans 0).name = lit "#c" := by decide +kernel
  have hone : post.countP (Happening.Ends 0 (lit "#c")) = 1 := by
    have hl := h.listeners.2 0 (by decide +kernel)
    rw [hname] at hl
    exact (congrArg Prod.fst hl).symm.trans (by decide +kernel)
  refine ⟨pre,post,h,hone,?_⟩
  have hs : (World.greeted Chunk.names).Has 0 := by
    unfold World.Has
    decide +kernel
  have hu : UserEvent 0 (World.greeted Chunk.names) .visit .IBET_JOINED (lit "a") :=
    .join rfl (by decide +kernel) (by decide +kernel) (by decide +kernel)
  have hh : (World.greeted Chunk.names).userHandler .IBET_JOINED ((World.greeted Chunk.names).chans 0).name (lit "a") =
      some ⟨0,none,none,none,.IBET_JOINED⟩ := by decide +kernel
  obtain ⟨w',hm,hiff⟩ := user_event_once Env.failing h hs hu hh
  have hresult : World.result (IrcServer.handleMessage Env.failing .visit (World.greeted Chunk.names)) = w' :=
    congrArg World.result hm
  rw [hname] at hiff
  rw [hresult]
  exact hiff.mpr hone

/-- After two ends of the list of names the handler is executed twice for one user that joins. -/
theorem greeted_twice : (World.greeted Chunk.namesTwice).Reachable ∧
    (World.greeted Chunk.namesTwice).server.channels.get (lit "#c") = some 0 ∧
    ((World.greeted Chunk.namesTwice).chans 0).isJoined = true ∧
    UserEvent 0 (World.greeted Chunk.namesTwice) .visit .IBET_JOINED (lit "a") ∧
    (World.greeted Chunk.namesTwice).bot.jobs = [] ∧
    (World.result (IrcServer.handleMessage Env.failing .visit (World.greeted Chunk.namesTwice))).bot.jobs =
      List.replicate 2 (⟨0,none,none,none,.IBET_JOINED⟩,userBotEvent .IBET_JOINED (lit "#c") (lit "a")) :=
  ⟨World.after_reachable (.start (World.create_initial _ _ _ _ _ _)) (by decide +kernel),by decide +kernel,
    by decide +kernel,.join rfl (by decide +kernel) (by decide +kernel) (by decide +kernel),by decide +kernel,
    by decide +kernel⟩

end LibIrcBot
