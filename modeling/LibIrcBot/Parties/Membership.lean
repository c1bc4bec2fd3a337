import LibIrcBot.Parties.Runs

/-! # Membership

What the bot will know of the channel when it has handled all that is on its way covers what the
server has of it. A part of a channel in the table frees it twice, so that a run goes on only without.
-/
namespace LibIrcBot
open CString Transitions

variable {channel own : Bytes} {P P' : Parties} {l : Parties.Label} {notices : List Notice}

/-- The notice belongs to a join of the bot, and changes whether it has the channel or is joined. -/
def Notice.Arrival : Notice → Prop
  | .joined _ | .endOfNames => True
  | _ => False

instance : ∀ n : Notice, Decidable n.Arrival
  | .joined _ | .endOfNames => inferInstanceAs (Decidable True)
  | .names _ | .parted _ _ | .kicked _ _ | .user _ => inferInstanceAs (Decidable False)

theorem Notice.Removes.not_arrival {n : Notice} (h : n.Removes) : ¬ n.Arrival := by
  cases n with
  | parted host reason => exact id
  | kicked op reason => exact id
  | _ => exact h.elim

def Notice.flag : Notice → Bool → Bool
  | .endOfNames, _ => true
  | .kicked _ _, _ => false
  | _, flag => flag

def flagAll (notices : List Notice) (flag : Bool) : Bool := notices.foldl (fun flag notice => notice.flag flag) flag

/-- A bot that has the channel keeps it, and the flag depends on no nicks. -/
theorem tellAll_some (own : Bytes) (notices : List Notice) (v : View) :
    ∃ u, tellAll own notices (some v) = some u ∧ u.joined = flagAll notices v.joined := by
  induction notices generalizing v with
  | nil => exact ⟨v,rfl,rfl⟩
  | cons n notices ih =>
    have htell : ∃ u, n.tell own (some v) = some u ∧ u.joined = n.flag v.joined := by
      cases n <;> exact ⟨_,rfl,rfl⟩
    obtain ⟨u,hu,hj⟩ := htell
    rw [tellAll,List.foldl_cons,hu,flagAll,List.foldl_cons,← hj]
    exact ih u

/-- A bot that does not have the channel learns of it only by the echo of a join. -/
theorem tellAll_none (h : ∀ n ∈ notices, ¬ n.Arrival) : tellAll own notices none = none := by
  induction notices with
  | nil => rfl
  | cons n notices ih =>
    have htell : n.tell own none = none := by
      cases n with
      | joined host => exact absurd trivial (h _ List.mem_cons_self)
      | _ => rfl
    rw [tellAll,List.foldl_cons,htell]
    exact ih fun m hm => h m (List.mem_cons_of_mem _ hm)

/-- Without an arrival nothing makes the channel joined. -/
theorem flagAll_of_no_arrival (h : ∀ n ∈ notices, ¬ n.Arrival) {flag : Bool} (hj : flagAll notices flag = true) :
    flag = true := by
  induction notices generalizing flag with
  | nil => exact hj
  | cons n notices ih =>
    have hflag := ih (fun m hm => h m (List.mem_cons_of_mem _ hm)) hj
    cases n with
    | endOfNames => exact absurd trivial (h _ List.mem_cons_self)
    | kicked op reason => cases hflag
    | _ => exact hflag

theorem tellAll_names (own : Bytes) (lines : List NameLine) (v : View) : tellAll own (lines.map Notice.names) (some v) =
    some { v with nicks := v.nicks ∪ (lines.flatten.map listed).toFinset.erase own } := by
  induction lines generalizing v with
  | nil => simp [tellAll]
  | cons line lines ih =>
    have hnicks : v.nicks ∪ line.others own ∪ (lines.flatten.map listed).toFinset.erase own =
        v.nicks ∪ (((line :: lines).flatten.map listed).toFinset.erase own) := by
      rw [List.flatten_cons,List.map_append,List.toFinset_append,Finset.erase_union_distrib,Finset.union_assoc]
      rfl
    rw [List.map_cons,tellAll,List.foldl_cons,← hnicks]
    exact ih { v with nicks := v.nicks ∪ line.others own }

/-- After all that the server sends on a join the channel is joined, with the nicks that were listed. -/
theorem tellAll_roll (own host : Bytes) (lines : List NameLine) (a : Option View) :
    tellAll own (Notice.joined host :: lines.map Notice.names ++ [Notice.endOfNames]) a =
      some ⟨(a.getD ⟨∅,false⟩).nicks ∪ (lines.flatten.map listed).toFinset.erase own,true⟩ := by
  have hnames := tellAll_names own lines (a.getD ⟨∅,false⟩)
  rw [tellAll_append]
  change Notice.tell own .endOfNames (tellAll own (lines.map Notice.names) (some (a.getD ⟨∅,false⟩))) = _
  rw [hnames]
  rfl

namespace Parties

/-- What the bot will know when it has handled all that is on its way. -/
def told (channel : Bytes) (P : Parties) : Option View := tellAll P.bot.server.nick P.answers (P.bot.view channel)

/-- What the two parties have in common, with a relation between the users on the channel and the nicks that
the bot knows. -/
structure Tracks (channel : Bytes) (K : Finset Bytes → Finset Bytes → Prop) (P : Parties) : Prop where
  asked : P.asked = true → P.entry channel ≠ none
  left : P.asked = false → P.entry channel = none ∧ joinCmd channel ∉ P.sent ∧ ∀ n ∈ P.answers, ¬ n.Arrival
  present : ∀ c, c < P.bot.nchans → P.bot.Has c
  offline : P.bot.logged = false → P.member = false ∧ joinCmd channel ∉ P.sent ∧ P.answers = []
  known : P.member = true → ∃ v ∈ P.told channel, v.joined = true ∧ K P.users v.nicks

/-- The relation holds when the bot has read the list of names, and is kept when the users change. -/
structure Kept (channel : Bytes) (K : Finset Bytes → Finset Bytes → Prop) (l : Label) (P : Parties) : Prop where
  enter : ∀ host lines, l = .process host lines → P.sent.head? = some (joinCmd channel) → P.member = false →
    (lines.flatten.map Prod.snd).toFinset = insert P.bot.server.nick P.users →
    K P.users (((P.told channel).getD ⟨∅,false⟩).nicks ∪ (lines.flatten.map listed).toFinset.erase P.bot.server.nick)
  change : ∀ (change : UserChange) nicks, change.Possible P.bot.server.nick P.users → K P.users nicks →
    K (change.apply P.users) (change.tell nicks)

theorem told_append (P : Parties) (ns : List Notice) :
    tellAll P.bot.server.nick (P.answers ++ ns) (P.bot.view channel) = tellAll P.bot.server.nick ns (P.told channel) :=
  tellAll_append P.bot.server.nick P.answers ns (P.bot.view channel)

theorem Sound.not_has (hP : P.Sound channel) (hget : P.entry channel = none) (c : ChanId) : ¬ P.bot.Has c := fun hhas =>
  Option.some_ne_none c (((hP.serves.has_iff c).mp hhas).symm.trans hget)

theorem Sound.create (hP : P.Sound channel) (hget : P.entry channel = none) :
    Sound channel { P with bot := (IrcServer.addChannel channel P.bot).2, asked := true } := by
  have hh := addChannel_hears hP.serves hget
  refine ⟨hh.serves,?_,?_,?_⟩
  · exact hh.commands ▸ hP.processed
  · exact hh.nick ▸ hP.answers
  · exact hh.nick ▸ hP.users

theorem entry_eq_none (h : P.entry channel = none) : P.bot.view channel = none := view_of_none h

namespace Tracks
variable {K : Finset Bytes → Finset Bytes → Prop}

theorem initial (h : P.Initial) : P.Tracks channel K := by
  have hs : P.Sound channel := .initial h
  have hget : P.entry channel = none := by
    cases hg : P.entry channel with
    | none => rfl
    | some c => exact absurd (hs.serves.lt_of_get hg) (by rw [h.nchans]; exact Nat.not_lt_zero c)
  have hsent : P.sent = [] := by rw [sent,h.processed,List.drop_length]
  refine ⟨fun ha => ?_,fun _ => ⟨hget,?_,?_⟩,fun c hlt => ?_,fun _ => ⟨h.member,?_,h.answers⟩,fun hm => ?_⟩
  · rw [h.asked] at ha
    cases ha
  · rw [hsent]
    exact List.not_mem_nil
  · rw [h.answers]
    exact List.forall_mem_nil _
  · exact absurd hlt (by rw [h.nchans]; exact Nat.not_lt_zero c)
  · rw [hsent]
    exact List.not_mem_nil
  · rw [h.member] at hm
    cases hm

/-- Without the channel in the table the bot will not learn of it. -/
theorem told_none (h : P.Tracks channel K) (hget : P.entry channel = none) : P.told channel = none := by
  have ha : P.asked = false := by
    by_contra ha
    exact h.asked (eq_true_of_ne_false ha) hget
  rw [told,entry_eq_none hget]
  exact tellAll_none (h.left ha).2.2

theorem sends (hP : P.Sound channel) (h : P.Tracks channel K) {cs : List Bytes} {w : World}
    (hs : Sends channel cs P.bot w) : Tracks channel K { P with bot := w } := by
  have hsent : sent { P with bot := w } = P.sent ++ cs := sent_append hP.processed hs.commands
  have htold : told channel { P with bot := w } = P.told channel := by rw [told,told,hs.view,hs.nick]
  have hchannels : w.server.channels = P.bot.server.channels := congrArg Roster.channels hs.roster
  have hentry : entry channel { P with bot := w } = P.entry channel := congrArg (·.get channel) hchannels
  have hn : w.nchans = P.bot.nchans := congrArg Roster.nchans hs.roster
  refine ⟨fun ha => hentry ▸ h.asked ha,fun ha => ?_,fun c hlt => ?_,fun hlog => ?_,fun hm => ?_⟩
  · obtain ⟨hget,hno,hans⟩ := h.left ha
    refine ⟨hentry ▸ hget,?_,hans⟩
    rw [hsent,List.mem_append]
    rintro (hmem | hmem)
    · exact hno hmem
    · -- whoever sends it is in the table
      obtain ⟨_,c,hlt,_⟩ := hs.joins hmem
      exact hP.not_has hget c (h.present c hlt)
  · exact (has_of_roster hs.roster c).mpr (h.present c (hn ▸ hlt))
  · have hoff : P.bot.logged = false := by
      by_contra hon
      have hlog' := hs.logged (eq_true_of_ne_false hon)
      exact absurd (hlog'.symm.trans hlog) nofun
    obtain ⟨hm,hno,hans⟩ := h.offline hoff
    refine ⟨hm,?_,hans⟩
    rw [hsent,List.mem_append]
    rintro (hmem | hmem)
    · exact hno hmem
    · exact absurd ((hs.joins hmem).1.symm.trans hlog) nofun
  · rw [htold]
    exact h.known hm

theorem create (hP : P.Sound channel) (h : P.Tracks channel K) (hget : P.entry channel = none) :
    Tracks channel K { P with bot := (IrcServer.addChannel channel P.bot).2, asked := true } := by
  have hh := addChannel_hears hP.serves hget
  have hhas := (hh.serves.has_iff P.bot.nchans).mp (addChannel_creates hget).has
  have hsent : sent { P with bot := (IrcServer.addChannel channel P.bot).2, asked := true } = P.sent := by
    rw [sent,sent,hh.commands]
  refine ⟨fun _ => ?_,fun ha => ?_,hh.present h.present,fun hlog => ?_,fun hm => ?_⟩
  · exact fun hnone => Option.some_ne_none _ (hhas.symm.trans hnone)
  · cases ha
  · rw [hsent]
    exact h.offline (hh.logged ▸ hlog)
  · obtain ⟨v,hv,_⟩ := h.known hm
    rw [h.told_none hget] at hv
    cases hv

theorem joins (hP : P.Sound channel) (h : P.Tracks channel K) {w : World} (hj : Joins channel P.bot w) :
    Tracks channel K { P with bot := w, asked := true } := by
  cases hj with
  | old hget hs =>
    have hchannels : w.server.channels = P.bot.server.channels := congrArg Roster.channels hs.roster
    refine { h.sends hP hs with asked := fun _ => ?_, left := nofun }
    exact fun hnone => hget ((congrArg (·.get channel) hchannels).symm.trans hnone)
  | new hget hs _ => exact (h.create hP hget).sends (hP.create hget) hs

theorem hear (h : P.Tracks channel K) {n : Notice} {ns : List Notice} {w : World}
    (hn : P.answers = n :: ns) (hh : Hears channel (n.tell P.bot.server.nick) P.bot w) :
    Tracks channel K { P with bot := w, answers := ns } := by
  have hsent : sent { P with bot := w, answers := ns } = P.sent := by rw [sent,sent,hh.commands]
  have htold : told channel { P with bot := w, answers := ns } = P.told channel := by
    rw [told,told,hh.view,hh.nick,hn]
    rfl
  refine ⟨fun ha => ?_,fun ha => ?_,hh.present h.present,fun hlog => ?_,fun hm => ?_⟩
  · obtain ⟨c,hget⟩ := Option.ne_none_iff_exists'.mp (h.asked ha)
    exact fun hnone => Option.some_ne_none c ((hh.keeps c hget).symm.trans hnone)
  · obtain ⟨hget,hno,hans⟩ := h.left ha
    rw [hn] at hans
    refine ⟨?_,hsent ▸ hno,fun m hm => hans m (List.mem_cons_of_mem _ hm)⟩
    have hview : w.view channel = none := by
      rw [hh.view,entry_eq_none hget]
      have hone : tellAll P.bot.server.nick [n] none = none := tellAll_none fun m hm =>
        List.mem_singleton.mp hm ▸ hans n List.mem_cons_self
      exact hone
    exact Option.map_eq_none_iff.mp hview
  · have hempty := (h.offline (hh.logged ▸ hlog)).2.2
    rw [hn] at hempty
    cases hempty
  · rw [htold]
    exact h.known hm

/-- The commands that are left when the server has processed one. -/
theorem skip (h : P.Tracks channel K) {c : Bytes} {cs : List Bytes} (hc : P.sent = c :: cs) :
    Tracks channel K { P with processed := P.processed + 1 } := by
  have hsent : sent { P with processed := P.processed + 1 } = cs := sent_succ hc
  have hless : ∀ x, x ∉ P.sent → x ∉ cs := fun x hx hmem => hx (hc ▸ List.mem_cons_of_mem c hmem)
  refine ⟨h.asked,fun ha => ?_,h.present,fun hlog => ?_,h.known⟩
  · obtain ⟨hget,hno,hans⟩ := h.left ha
    exact ⟨hget,hsent ▸ hless _ hno,hans⟩
  · obtain ⟨hm,hno,hempty⟩ := h.offline hlog
    exact ⟨hm,hsent ▸ hless _ hno,hempty⟩

/-- On its way the bot has at least what the notices of a join say. -/
theorem enter (h : P.Tracks channel K) {host : Bytes} {lines : List NameLine} {cs : List Bytes}
    (hc : P.sent = joinCmd channel :: cs) (hK : K P.users
      (((P.told channel).getD ⟨∅,false⟩).nicks ∪ (lines.flatten.map listed).toFinset.erase P.bot.server.nick)) :
    Tracks channel K { P with
      processed := P.processed + 1
      member := true
      answers := P.answers ++ (Notice.joined host :: lines.map Notice.names ++ [Notice.endOfNames]) } := by
  have hjoin : joinCmd channel ∈ P.sent := hc ▸ List.mem_cons_self
  refine ⟨h.asked,fun ha => absurd hjoin (h.left ha).2.1,h.present,fun hlog => absurd hjoin (h.offline hlog).2.1,
    fun _ => ?_⟩
  exact ⟨_,(told_append P _).trans (tellAll_roll P.bot.server.nick host lines (P.told channel)),rfl,hK⟩

/-- The server takes the bot off the channel. -/
theorem leave (h : P.Tracks channel K) {n : Notice} {k : ℕ} (hn : n.Removes) (hm : P.member = true)
    (hk : k = P.processed ∨ k = P.processed + 1 ∧ ∃ cs, P.sent = partCmd channel :: cs) :
    Tracks channel K { P with processed := k, member := false, answers := P.answers ++ [n] } := by
  have hsub : ∀ x, x ∉ P.sent → x ∉ P.bot.ghost.commands.drop k := by
    intro x hx hmem
    rcases hk with rfl | ⟨rfl,cs,hc⟩
    · exact hx hmem
    · rw [sent_succ hc] at hmem
      exact hx (hc ▸ List.mem_cons_of_mem _ hmem)
  refine ⟨h.asked,fun ha => ?_,h.present,fun hlog => ?_,nofun⟩
  · obtain ⟨hget,hno,hans⟩ := h.left ha
    refine ⟨hget,hsub _ hno,fun m hmem => ?_⟩
    rcases List.mem_append.mp hmem with hmem | hmem
    · exact hans m hmem
    · rw [List.mem_singleton.mp hmem]
      exact hn.not_arrival
  · rw [(h.offline hlog).1] at hm
    cases hm

theorem change (h : P.Tracks channel K) {change : UserChange}
    (hK : ∀ nicks, K P.users nicks → K (change.apply P.users) (change.tell nicks)) : Tracks channel K { P with
    users := change.apply P.users
    answers := P.answers ++ if P.member then [.user change] else [] } := by
  refine ⟨h.asked,fun ha => ?_,h.present,fun hlog => ?_,fun hm => ?_⟩
  · obtain ⟨hget,hno,hans⟩ := h.left ha
    refine ⟨hget,hno,fun m hmem => ?_⟩
    rcases List.mem_append.mp hmem with hmem | hmem
    · exact hans m hmem
    · split at hmem
      · rw [List.mem_singleton.mp hmem]
        exact id
      · cases hmem
  · obtain ⟨hm,hno,hempty⟩ := h.offline hlog
    refine ⟨hm,hno,?_⟩
    rw [hempty,if_neg (by simp [hm])]
    rfl
  · obtain ⟨v,hv,hj,hkv⟩ := h.known hm
    refine ⟨{ v with nicks := change.tell v.nicks },?_,hj,hK v.nicks hkv⟩
    rw [told,if_pos hm]
    exact (told_append P _).trans (congrArg (tellAll P.bot.server.nick [.user change]) hv)

theorem lose (h : P.Tracks channel K) {w : World} (he : Ends channel P.bot w) : Tracks channel K { P with
    bot := w
    processed := w.ghost.commands.length
    answers := []
    member := false } := by
  have hsent : sent { P with bot := w, processed := w.ghost.commands.length, answers := [], member := false } = [] :=
    List.drop_length
  have hchannels : w.server.channels = P.bot.server.channels := congrArg Roster.channels he.roster
  have hentry : w.server.channels.get channel = P.entry channel := congrArg (·.get channel) hchannels
  refine ⟨fun ha hnone => h.asked ha (hentry.symm.trans hnone),fun ha => ⟨hentry.trans (h.left ha).1,?_,nofun⟩,
    fun c hlt => ?_,fun _ => ⟨rfl,?_,rfl⟩,nofun⟩
  · rw [hsent]
    exact List.not_mem_nil
  · refine (has_of_roster he.roster c).mpr (h.present c ?_)
    rw [← show w.nchans = P.bot.nchans from congrArg Roster.nchans he.roster]
    exact hlt
  · rw [hsent]
    exact List.not_mem_nil

theorem turn (hP : P.Sound channel) (h : P.Tracks channel K) (hK : Kept channel K l P)
    (ht : Turn channel l P P') : P'.Tracks channel K := by
  cases ht with
  | idle => exact h
  | sends _ hs => exact h.sends hP hs
  | join hj => exact h.joins hP hj
  | absent hget =>
    have ha : P.asked = false := by
      by_contra ha
      exact h.asked (eq_true_of_ne_false ha) hget
    exact { h with asked := nofun, left := fun _ => h.left ha }
  | hear hn hh => exact h.hear hn hh
  | skip hc _ => exact h.skip hc
  | enter hc hm hl => exact h.enter hc (hK.enter _ _ rfl (by rw [hc]; rfl) hm hl)
  | leave _ hn hm hk => exact h.leave hn hm hk
  | change hc => exact h.change fun nicks => hK.change _ nicks hc
  | lose he => exact h.lose he

/-- When it has handled all that was sent to it the bot knows that it is on the channel. -/
theorem settled (h : P.Tracks channel K) (hans : P.answers = []) (hm : P.member = true) :
    ∃ v ∈ P.bot.view channel, v.joined = true ∧ K P.users v.nicks := by
  have hv := h.known hm
  rw [told,hans] at hv
  exact hv

/-- When it has handled all that was sent to it, a bot without a join has no channel and is on none. -/
theorem parted (h : P.Tracks channel K) (ha : P.asked = false) (hans : P.answers = []) :
    P.entry channel = none ∧ P.member = false := by
  refine ⟨(h.left ha).1,?_⟩
  by_contra hm
  obtain ⟨v,hv,_⟩ := h.settled hans (eq_true_of_ne_false hm)
  rw [entry_eq_none (h.left ha).1] at hv
  cases hv

end Tracks

/-- The relation that always holds. -/
theorem kept_always (l : Label) (P : Parties) : Kept channel (fun _ _ => True) l P :=
  ⟨fun _ _ _ _ _ _ => trivial,fun _ _ _ _ => trivial⟩

theorem tracked (h : Reaches (step channel) (fun _ _ => True) Initial P) :
    P.Sound channel ∧ P.Tracks channel fun _ _ => True :=
  induct (fun _ hP => .initial hP) (fun l P _ hP hI _ ht => hI.turn hP (kept_always l P) ht) h

theorem process_bot (host : Bytes) (lines : List NameLine) (P : Parties) : (P.process channel host lines).bot = P.bot := by
  unfold process takeOff
  split
  · rfl
  · dsimp only
    split_ifs <;> rfl

theorem takeOff_bot (n : Notice) (P : Parties) : (P.takeOff n).bot = P.bot := by
  unfold takeOff
  split <;> rfl

theorem change_bot (change : UserChange) (P : Parties) : (P.change change).bot = P.bot := by
  unfold Parties.change
  split
  · dsimp only
    split <;> rfl
  · rfl

/-- A step that destroys a channel twice is a fault. -/
theorem step_destroyed (hP : P.Sound channel) (hone : P.bot.ghost.destroyed.Nodup) (hs : step channel l P = .ok P') :
    P'.bot.ghost.destroyed.Nodup := by
  have hact : ∀ {Q : Parties} {r : Run}, Q.act r = .ok P' → P'.bot.ghost.destroyed.Nodup := by
    intro Q r hr
    obtain ⟨w,_,hw,rfl⟩ := act_ok hr
    exact hw
  cases l with
  | join => exact hact hs
  | part => exact hact hs
  | waitjoin self | waitrejoin self | login env name =>
    rw [step] at hs
    split at hs
    · exact hact hs
    · cases hs
      exact hone
  | deliver env =>
    rw [step] at hs
    split at hs
    · cases hs
      exact hone
    · exact hact hs
  | process host lines =>
    cases hs
    rw [process_bot]
    exact hone
  | kick op reason | remove host reason =>
    cases hs
    rw [takeOff_bot]
    exact hone
  | change change =>
    cases hs
    rw [change_bot]
    exact hone
  | lose established =>
    rw [step,Parties.lose] at hs
    split at hs
    · cases hs
      exact hone
    · next conn hc =>
      split at hs
      · next w hw =>
        cases hs
        have hroster := (connClosed_ends hP.serves hc hw).roster
        change w.ghost.destroyed.Nodup
        rw [show w.ghost.destroyed = P.bot.ghost.destroyed from congrArg Roster.destroyed hroster]
        exact hone
      · cases hs

theorem initial_destroyed (h : P.Initial) : P.bot.ghost.destroyed = [] := by
  have hsound : P.Sound [] := .initial h
  have hc : Charted P.bot := hsound.serves.charted
  have hnone : P.bot.ghost.removed = [] := by
    refine List.eq_nil_iff_forall_not_mem.mpr fun c hmem => ?_
    have hlt := (hc.gone c hmem).1
    rw [h.nchans] at hlt
    exact Nat.not_lt_zero c hlt
  exact (hc.kept hnone).1

/-- A run goes on as long as no channel is destroyed twice. -/
theorem destroyed_once {C : Label → Parties → Prop} (h : Reaches (step channel) C Initial P) :
    P.bot.ghost.destroyed.Nodup := by
  refine (h.invariant (I := fun P => P.Sound channel ∧ P.bot.ghost.destroyed.Nodup) (fun P hP => ?_) ?_).2
  · exact ⟨.initial hP,by rw [initial_destroyed hP]; exact List.nodup_nil⟩
  · rintro l P P' ⟨hP,hone⟩ _ hs
    exact ⟨hP.turn (step_turn hP hs),step_destroyed hP hone hs⟩

theorem Turn.asked (h : Turn channel l P P') (hl : l ≠ .join) (ha : P.asked = false) : P'.asked = false := by
  cases h with
  | join hj => exact absurd rfl hl
  | absent hget => rfl
  | _ => exact ha

/-- The part is not lost: it is carried out, and unless the application joins again, the bot is not on the channel and
has no entry for it whenever it has handled all that was sent to it. -/
def PartKept (channel : Bytes) (P : Parties) : Prop :=
  ∃ P', step channel .part P = .ok P' ∧ ∀ Q, Reaches (step channel) (fun l _ => l ≠ .join) (· = P') Q →
    Q.answers = [] → Q.member = false ∧ Q.entry channel = none

/-- A part is kept exactly if it does not find its channel: one that does destroys the channel twice. -/
theorem part_kept_iff (h : Reaches (step channel) (fun _ _ => True) Initial P) :
    PartKept channel P ↔ P.entry channel = none := by
  obtain ⟨hP,hT⟩ := tracked h
  constructor
  · rintro ⟨P',hstep,_⟩
    obtain ⟨w,hw,hone,_⟩ := act_ok hstep
    cases hget : P.entry channel with
    | none => rfl
    | some self => exact absurd hone (part_destroys hP.serves hget hw)
  · intro hget
    have hstep : step channel .part P = .ok { P with asked := false } := by
      rw [step,IrcServer.part,show P.bot.server.channels.get channel = none from hget]
      exact if_pos (destroyed_once h)
    refine ⟨_,hstep,fun Q hQ hans => ?_⟩
    have hlater : Q.Sound channel ∧ Q.Tracks channel (fun _ _ => True) ∧ Q.asked = false := by
      refine hQ.invariant (I := fun Q => Q.Sound channel ∧ Q.Tracks channel (fun _ _ => True) ∧ Q.asked = false) ?_ ?_
      · rintro _ rfl
        have hturn := step_turn hP hstep
        exact ⟨hP.turn hturn,hT.turn hP (kept_always .part P) hturn,rfl⟩
      · rintro l R R' ⟨hR,hI,ha⟩ hl hs
        have hturn := step_turn hR hs
        exact ⟨hR.turn hturn,hI.turn hR (kept_always l R) hturn,hturn.asked hl ha⟩
    exact (hlater.2.1.parted hlater.2.2 hans).symm

/-- A bot that has never joined the channel can part from it. -/
theorem part_kept_iff_unasked : PartKept (lit "#c") start := (part_kept_iff (.start start_initial)).mpr (by decide +kernel)

/-- The bot joins a channel, is put on it, and parts from it. -/
theorem part_not_kept : ∃ P : Parties, Reaches (step (lit "#c")) (fun _ _ => True) Initial P ∧ P.Settled ∧
    P.member = true ∧ ¬ PartKept (lit "#c") P := by
  have hrun : (follow (step (lit "#c")) (fun _ _ => True) (.join :: entering) start).any fun P =>
      (P.bot.logged = true ∧ P.sent = [] ∧ P.answers = []) ∧ P.member = true ∧
        (match step (lit "#c") .part P with | .ok _ => false | .error _ => true) = true := by decide +kernel
  obtain ⟨P,hP,hend⟩ := Reaches.exists_follow (.start start_initial) hrun
  obtain ⟨⟨hlog,hsent,hans⟩,hm,hfails⟩ := of_decide_eq_true hend
  refine ⟨P,hP,⟨hlog,hsent,hans⟩,hm,?_⟩
  rintro ⟨P',hstep,_⟩
  rw [hstep] at hfails
  cases hfails

end Parties
end LibIrcBot
