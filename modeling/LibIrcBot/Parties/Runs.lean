import LibIrcBot.Parties.Turns

/-! # Runs of the two parties

What a step of the two parties does, whatever the bot has in its memory, is one of a few turns. An
invariant of the turns holds in every run.
-/
namespace LibIrcBot
open CString Transitions Outcome

variable {channel : Bytes} {P P' : Parties} {l : Parties.Label}

def Notice.Removes : Notice → Prop
  | .parted _ _ | .kicked _ _ => True
  | _ => False

instance (n : Notice) : Decidable n.Removes := by
  cases n <;> unfold Notice.Removes <;> infer_instance

theorem Notice.Removes.valid {n : Notice} (h : n.Removes) (own : Bytes) : n.Valid own := by
  cases n with
  | parted host reason => trivial
  | kicked op reason => trivial
  | _ => exact False.elim h

namespace Parties

structure Sound (channel : Bytes) (P : Parties) : Prop where
  serves : P.bot.Serves channel
  processed : P.processed ≤ P.bot.ghost.commands.length
  answers : ∀ n ∈ P.answers, n.Valid P.bot.server.nick
  users : ∀ nick ∈ P.users, ValidNick nick ∧ nick ≠ P.bot.server.nick

def Label.Silent : Label → Prop
  | .join | .part => False
  | _ => True

inductive Turn (channel : Bytes) : Label → Parties → Parties → Prop where
  | idle {l : Label} (P : Parties) (hl : l.Silent) : Turn channel l P P
  | sends {l : Label} {P : Parties} {cs : List Bytes} {w : World} (hl : l.Silent) (hs : Sends channel cs P.bot w) :
      Turn channel l P { P with bot := w }
  | join {P : Parties} {w : World} (hj : Joins channel P.bot w) : Turn channel .join P { P with bot := w, asked := true }
  | absent {P : Parties} (hget : P.entry channel = none) : Turn channel .part P { P with asked := false }
  | hear {P : Parties} {env : Env} {n : Notice} {ns : List Notice} {w : World} (hn : P.answers = n :: ns)
      (hh : Hears channel (n.tell P.bot.server.nick) P.bot w) :
      Turn channel (.deliver env) P { P with bot := w, answers := ns }
  | skip {P : Parties} {host : Bytes} {lines : List NameLine} {c : Bytes} {cs : List Bytes} (hc : P.sent = c :: cs)
      (hj : c = joinCmd channel → P.member = true) :
      Turn channel (.process host lines) P { P with processed := P.processed + 1 }
  | enter {P : Parties} {host : Bytes} {lines : List NameLine} {cs : List Bytes} (hc : P.sent = joinCmd channel :: cs)
      (hm : P.member = false) (hl : (lines.flatten.map Prod.snd).toFinset = insert P.bot.server.nick P.users) :
      Turn channel (.process host lines) P { P with
        processed := P.processed + 1
        member := true
        answers := P.answers ++ (Notice.joined host :: lines.map Notice.names ++ [Notice.endOfNames]) }
  | leave {l : Label} {P : Parties} {n : Notice} {k : ℕ} (hl : l.Silent) (hn : n.Removes) (hm : P.member = true)
      (hk : k = P.processed ∨ k = P.processed + 1 ∧ ∃ cs, P.sent = partCmd channel :: cs) :
      Turn channel l P { P with processed := k, member := false, answers := P.answers ++ [n] }
  | change {P : Parties} {change : UserChange} (hc : change.Possible P.bot.server.nick P.users) :
      Turn channel (.change change) P { P with
        users := change.apply P.users
        answers := P.answers ++ if P.member then [.user change] else [] }
  | lose {P : Parties} {established : Bool} {w : World} (he : Ends channel P.bot w) :
      Turn channel (.lose established) P { P with
        bot := w
        processed := w.ghost.commands.length
        answers := []
        member := false }

theorem act_ok {r : Run} (h : P.act r = .ok P') : ∃ w, r = .ok w ∧ w.ghost.destroyed.Nodup ∧ P' = { P with bot := w } := by
  cases r with
  | ok w =>
    rw [act] at h
    split at h
    · next hone => exact ⟨w,rfl,hone,(Except.ok.inj h).symm⟩
    · cases h
  | error e => cases h

theorem turn_of_takeOff {n : Notice} (hl : l.Silent) (hn : n.Removes) : Turn channel l P (P.takeOff n) := by
  unfold takeOff
  split
  · next hm => exact .leave hl hn hm (.inl rfl)
  · exact .idle P hl

theorem turn_of_process (host : Bytes) (lines : List NameLine) :
    Turn channel (.process host lines) P (P.process channel host lines) := by
  unfold process
  cases hs : P.sent with
  | nil => exact .idle P trivial
  | cons c cs =>
    dsimp only
    split
    · next hc =>
      split
      · next hm => exact .skip hs fun _ => hm
      · next hm =>
        split
        · next hl => exact .enter (hc ▸ hs) (eq_false_of_ne_true hm) hl
        · exact .idle P trivial
    · next hj =>
      have hskip : Turn channel (.process host lines) P { P with processed := P.processed + 1 } :=
        .skip hs fun he => absurd he hj
      split
      · next hp =>
        unfold takeOff
        split
        · next hm => exact .leave trivial trivial hm (.inr ⟨rfl,cs,by rw [hs,hp]; rfl⟩)
        · exact hskip
      · exact hskip

/-- Every step is a turn. -/
theorem step_turn (hP : P.Sound channel) (h : step channel l P = .ok P') : Turn channel l P P' := by
  have hcall : ∀ {t : Call} {w : World}, Does t P.bot w → t.Quiet → l.Silent → Turn channel l P { P with bot := w } :=
    fun hd hq hl => .sends hl (hd.sends hP.serves hq)
  cases l with
  | join =>
    obtain ⟨w,hw,_,rfl⟩ := act_ok h
    exact .join (join_joins hP.serves hw)
  | part =>
    obtain ⟨w,hw,hone,rfl⟩ := act_ok h
    cases hget : P.entry channel with
    | none =>
      have hw' : IrcServer.part channel P.bot = .ok P.bot := by
        rw [IrcServer.part,show P.bot.server.channels.get channel = none from hget]
      cases hw'.symm.trans hw
      exact .absent hget
    | some self => exact absurd hone (part_destroys hP.serves hget hw)
  | waitjoin self =>
    rw [step] at h
    split at h
    · next hr =>
      obtain ⟨w,hw,_,rfl⟩ := act_ok h
      exact hcall (.waitjoin self hr hw) trivial trivial
    · cases h
      exact .idle P trivial
  | waitrejoin self =>
    rw [step] at h
    split at h
    · next hr =>
      obtain ⟨w,hw,_,rfl⟩ := act_ok h
      exact hcall (.waitrejoin self hr hw) trivial trivial
    · cases h
      exact .idle P trivial
  | deliver env =>
    rw [step] at h
    split at h
    · cases h
      exact .idle P trivial
    · next n ns hn =>
      obtain ⟨w,hw,_,rfl⟩ := act_ok h
      exact .hear hn (handleMessage_hears hP.serves (hP.answers n (hn ▸ List.mem_cons_self)) hw)
  | process host lines =>
    cases h
    exact turn_of_process host lines
  | kick op reason =>
    cases h
    exact turn_of_takeOff trivial trivial
  | remove host reason =>
    cases h
    exact turn_of_takeOff trivial trivial
  | change change =>
    cases h
    unfold Parties.change
    split
    · next hc =>
      have hturn : Turn channel (.change change) P _ := .change hc
      dsimp only
      split
      · next hm =>
        rw [if_pos hm] at hturn
        exact hturn
      · next hm =>
        rw [if_neg hm,List.append_nil] at hturn
        exact hturn
    · exact .idle P trivial
  | lose established =>
    rw [step,Parties.lose] at h
    split at h
    · cases h
      exact .idle P trivial
    · next conn hc =>
      split at h
      · next w hw =>
        cases h
        exact .lose (connClosed_ends hP.serves hc hw)
      · cases h
  | login env name =>
    rw [step] at h
    split at h
    · next hc =>
      obtain ⟨w,hw,_,rfl⟩ := act_ok h
      obtain ⟨cs,hs⟩ := connect_sends hP.serves hc env hw
      exact .sends trivial hs
    · cases h
      exact .idle P trivial

/-- A join ends with the channel in the table, and adds commands at most. -/
theorem joins_ends {w w' : World} (h : w.Serves channel) (hj : Joins channel w w') : w'.Serves channel ∧
    w'.server.nick = w.server.nick ∧ w'.server.channels.get channel ≠ none ∧
    ∃ cs, w'.ghost.commands = w.ghost.commands ++ cs := by
  cases hj with
  | old hget hs =>
    have hchannels : w'.server.channels = w.server.channels := congrArg Roster.channels hs.roster
    exact ⟨hs.serves,hs.nick,hchannels ▸ hget,_,hs.commands⟩
  | new hget hs _ =>
    have hnew := addChannel_hears h hget
    have hhas := ((h.create hget).has_iff w.nchans).mp (addChannel_creates hget).has
    have hchannels : w'.server.channels = (IrcServer.addChannel channel w).2.server.channels :=
      congrArg Roster.channels hs.roster
    refine ⟨hs.serves,hs.nick.trans hnew.nick,?_,_,hs.commands.trans (congrArg (· ++ _) hnew.commands)⟩
    rw [hchannels,hhas]
    nofun

theorem sent_append {cs : List Bytes} (h : P.processed ≤ P.bot.ghost.commands.length) {w : World}
    (hw : w.ghost.commands = P.bot.ghost.commands ++ cs) : w.ghost.commands.drop P.processed = P.sent ++ cs := by
  rw [hw,List.drop_append_of_le_length h]
  rfl

theorem sent_succ {c : Bytes} {cs : List Bytes} (h : P.sent = c :: cs) : P.bot.ghost.commands.drop (P.processed + 1) = cs := by
  rw [← List.drop_drop]
  change P.sent.drop 1 = cs
  rw [h]
  rfl

theorem processed_lt {c : Bytes} {cs : List Bytes} (h : P.sent = c :: cs) : P.processed < P.bot.ghost.commands.length := by
  by_contra hle
  rw [sent,List.drop_eq_nil_of_le (Nat.not_lt.mp hle)] at h
  cases h

theorem Turn.nick (hP : P.Sound channel) (h : Turn channel l P P') : P'.bot.server.nick = P.bot.server.nick := by
  cases h with
  | sends _ hs => exact hs.nick
  | join hj => exact (joins_ends hP.serves hj).2.1
  | hear _ hh => exact hh.nick
  | lose he => exact he.nick
  | _ => rfl

theorem named_apply {own : Bytes} {users : Finset Bytes} {change : UserChange}
    (h : ∀ nick ∈ users, ValidNick nick ∧ nick ≠ own) (hc : change.Possible own users) :
    (∀ nick ∈ change.named, ValidNick nick ∧ nick ≠ own) ∧ ∀ nick ∈ change.apply users, ValidNick nick ∧ nick ≠ own := by
  have herase : ∀ nick, ∀ x ∈ users.erase nick, ValidNick x ∧ x ≠ own := fun nick x hx => h x (Finset.mem_of_mem_erase hx)
  cases change with
  | join nick host =>
    refine ⟨by simpa [UserChange.named] using ⟨hc.1,hc.2.1⟩,fun x hx => ?_⟩
    rcases Finset.mem_insert.mp hx with rfl | hx
    · exact ⟨hc.1,hc.2.1⟩
    · exact h x hx
  | rename nick host new =>
    refine ⟨by simpa [UserChange.named] using ⟨h nick hc.1,hc.2.1,hc.2.2.1⟩,fun x hx => ?_⟩
    rcases Finset.mem_insert.mp hx with rfl | hx
    · exact ⟨hc.2.1,hc.2.2.1⟩
    · exact herase nick x hx
  | part nick host reason => exact ⟨by simpa [UserChange.named] using h nick hc,herase nick⟩
  | quit nick host reason => exact ⟨by simpa [UserChange.named] using h nick hc,herase nick⟩
  | kick nick op reason => exact ⟨by simpa [UserChange.named] using h nick hc,herase nick⟩

theorem Sound.turn (hP : P.Sound channel) (h : Turn channel l P P') : P'.Sound channel := by
  have hnick := h.nick hP
  have hmore : ∀ {w : World} {cs : List Bytes}, w.ghost.commands = P.bot.ghost.commands ++ cs →
      P.processed ≤ w.ghost.commands.length := by
    intro w cs hw
    rw [hw,List.length_append]
    exact Nat.le_add_right_of_le hP.processed
  cases h with
  | idle => exact hP
  | sends _ hs => exact ⟨hs.serves,hmore hs.commands,hnick ▸ hP.answers,hnick ▸ hP.users⟩
  | join hj =>
    obtain ⟨hserves,_,_,_,hcommands⟩ := joins_ends hP.serves hj
    exact ⟨hserves,hmore hcommands,hnick ▸ hP.answers,hnick ▸ hP.users⟩
  | absent _ => exact ⟨hP.serves,hP.processed,hP.answers,hP.users⟩
  | hear hn hh =>
    refine ⟨hh.serves,?_,fun m hm => ?_,hnick ▸ hP.users⟩
    · exact hh.commands ▸ hP.processed
    · exact hnick ▸ hP.answers m (hn ▸ List.mem_cons_of_mem _ hm)
  | skip hc _ => exact ⟨hP.serves,processed_lt hc,hP.answers,hP.users⟩
  | enter hc _ hl =>
    refine ⟨hP.serves,processed_lt hc,fun m hm => ?_,hP.users⟩
    rcases List.mem_append.mp hm with hm | hm
    · exact hP.answers m hm
    · rcases List.mem_append.mp hm with hm | hm
      · rcases List.mem_cons.mp hm with rfl | hm
        · trivial
        · obtain ⟨line,hline,rfl⟩ := List.mem_map.mp hm
          intro name hname
          have hmem : name.2 ∈ insert P.bot.server.nick P.users := by
            rw [← hl]
            exact List.mem_toFinset.mpr (List.mem_map_of_mem (List.mem_flatten_of_mem hline hname))
          rcases Finset.mem_insert.mp hmem with ho | hu
          · exact ho ▸ hP.serves.own
          · exact (hP.users _ hu).1
      · rw [List.mem_singleton.mp hm]
        trivial
  | leave _ hn _ hk =>
    refine ⟨hP.serves,?_,fun m hm => ?_,hP.users⟩
    · rcases hk with rfl | ⟨rfl,cs,hc⟩
      · exact hP.processed
      · exact processed_lt hc
    · rcases List.mem_append.mp hm with hm | hm
      · exact hP.answers m hm
      · rw [List.mem_singleton.mp hm]
        exact hn.valid _
  | change hc =>
    obtain ⟨hnamed,hall⟩ := named_apply hP.users hc
    refine ⟨hP.serves,hP.processed,fun m hm => ?_,hall⟩
    rcases List.mem_append.mp hm with hm | hm
    · exact hP.answers m hm
    · split at hm
      · rw [List.mem_singleton.mp hm]
        exact hnamed
      · cases hm
  | lose he => exact ⟨he.serves,Nat.le_refl _,nofun,hnick ▸ hP.users⟩

theorem Sound.initial (h : P.Initial) : P.Sound channel := by
  have hc : Charted P.bot := (World.Reached.induct (I := fun _ => True) (fun _ _ => trivial)
    (fun _ _ _ _ _ _ _ => trivial) h.bot.reached).1
  have hno : ∀ c, ¬ c < P.bot.nchans := fun c hlt => absurd hlt (by rw [h.nchans]; exact Nat.not_lt_zero c)
  refine ⟨⟨hc,fun c hlt => absurd hlt (hno c),fun c hlt => absurd hlt (hno c),h.nick⟩,Nat.le_of_eq h.processed,?_,h.users⟩
  rw [h.answers]
  nofun

/-- What holds at the start and is kept by the turns that a condition admits holds in the runs under it. -/
theorem induct {C : Label → Parties → Prop} {I : Parties → Prop} (hi : ∀ P, P.Initial → I P)
    (hs : ∀ l P P', P.Sound channel → I P → C l P → Turn channel l P P' → I P')
    (h : Reaches (step channel) C Initial P) : P.Sound channel ∧ I P := by
  refine h.invariant (I := fun P => P.Sound channel ∧ I P) (fun P hP => ⟨.initial hP,hi P hP⟩) ?_
  rintro l P P' ⟨hP,hI⟩ hC hstep
  have hturn := step_turn hP hstep
  exact ⟨hP.turn hturn,hs l P P' hP hI hC hturn⟩

/-- The bot is logged in and has no channel, and one user is on the channel. -/
def start : Parties where
  bot := World.loggedIn
  processed := World.loggedIn.ghost.commands.length
  answers := []
  member := false
  users := {lit "u"}
  asked := false

theorem start_initial : start.Initial :=
  ⟨World.loggedIn_reachable,by decide +kernel,rfl,rfl,rfl,rfl,by decide +kernel,by decide +kernel⟩

/-- The server puts the bot on the channel of `start`, and the bot hears of it. -/
def entering : List Label :=
  [.process (lit "h") [[(none,lit "n"),(some .at,lit "u")]],.deliver Env.failing,.deliver Env.failing,.deliver Env.failing]

/-- The names do not arrive in time, and the bot parts. -/
def late : List Label := .join :: List.replicate 15 (.waitjoin 0)

/-- The server processes the join and the part, and the bot hears of both. -/
def answered : List Label :=
  [.process (lit "h") [[(none,lit "n"),(some .at,lit "u")]],.process (lit "h") [],.deliver Env.failing,
    .deliver Env.failing,.deliver Env.failing,.deliver Env.failing]

def kicked : List Label := .join :: entering ++ [.kick (lit "u!h") none,.deliver Env.failing]

end Parties
end LibIrcBot
