import LibIrcBot.Parties.Membership

/-! # Agreement on the joined state

Neither the echo of a part nor the server's own removal by one changes the flag of a joined channel. The flag
agrees with the server all the same where something that is still on its way corrects it.
-/
namespace LibIrcBot
open CString Transitions

variable {channel : Bytes} {P P' : Parties} {l : Parties.Label} {notices : List Notice} {joining : Bool}

def Notice.Echo : Notice → Prop
  | .parted _ _ => True
  | _ => False

instance : ∀ n : Notice, Decidable n.Echo
  | .parted _ _ => inferInstanceAs (Decidable True)
  | .joined _ | .names _ | .endOfNames | .kicked _ _ | .user _ => inferInstanceAs (Decidable False)

theorem flagAll_append (ns ms : List Notice) (flag : Bool) : flagAll (ns ++ ms) flag = flagAll ms (flagAll ns flag) :=
  List.foldl_append

/-- Behind a removal of the bot the flag is false, or the removal is the echo of a part. -/
theorem Notice.Removes.flag {n : Notice} (h : n.Removes) (flag : Bool) : n.Echo ∨ n.flag flag = false := by
  cases n with
  | parted host reason => exact .inl trivial
  | kicked op reason => exact .inr rfl
  | _ => exact h.elim

namespace Parties

/-- When the bot hears that it has parted, it does not take itself for joined, or is on the channel
again, or its next join or its next removal is on its way. -/
def Corrected (channel : Bytes) : Label → Parties → Prop
  | .deliver _, P => ∀ n ∈ P.answers.head?, n.Echo → (∀ v ∈ P.bot.view channel, v.joined = false) ∨ P.member = true ∨
      joinCmd channel ∈ P.sent ∨ ∃ m ∈ P.answers.tail, m.Removes
  | _, _ => True

instance : ∀ (l : Label) (P : Parties), Decidable (Corrected channel l P)
  | .deliver _, _ => inferInstanceAs (Decidable (∀ _ ∈ _, _ → (∀ _ ∈ _, _ = _) ∨ _ = _ ∨ _ ∈ _ ∨ ∃ _ ∈ _, _))
  | .join, _ | .part, _ | .waitjoin _, _ | .waitrejoin _, _ | .process _ _, _ | .kick _ _, _ | .remove _ _, _
  | .change _, _ | .lose _, _ | .login _ _, _ => inferInstanceAs (Decidable True)

/-- The same, where a join on its way counts only if `joining` says so: until it is processed nothing tells the bot. -/
def CorrectedBy (joining : Bool) (channel : Bytes) : Label → Parties → Prop
  | .deliver _, P => ∀ n ∈ P.answers.head?, n.Echo → (∀ v ∈ P.bot.view channel, v.joined = false) ∨ P.member = true ∨
      (joining = true ∧ joinCmd channel ∈ P.sent) ∨ ∃ m ∈ P.answers.tail, m.Removes
  | _, _ => True

instance (joining : Bool) : ∀ (l : Label) (P : Parties), Decidable (CorrectedBy joining channel l P)
  | .deliver _, _ => inferInstanceAs (Decidable (∀ _ ∈ _, _ → (∀ _ ∈ _, _ = _) ∨ _ = _ ∨ (_ = _ ∧ _ ∈ _) ∨ ∃ _ ∈ _, _))
  | .join, _ | .part, _ | .waitjoin _, _ | .waitrejoin _, _ | .process _ _, _ | .kick _ _, _ | .remove _ _, _
  | .change _, _ | .lose _, _ | .login _ _, _ => inferInstanceAs (Decidable True)

theorem Corrected.by_joining (h : Corrected channel l P) : CorrectedBy true channel l P := by
  cases l with
  | deliver env => exact fun n hn he => (h n hn he).imp_right (Or.imp_right (Or.imp_left fun hmem => ⟨rfl,hmem⟩))
  | _ => trivial

/-- The echo of a part, or a join of the bot that counts, is still on its way. -/
def Owes (joining : Bool) (channel : Bytes) (P : Parties) (notices : List Notice) : Prop :=
  (joining = true ∧ joinCmd channel ∈ P.sent) ∨ ∃ n ∈ notices, n.Echo

/-- The channel learns of the end of the connection where it matters, and a flag that is or will be wrong is
going to be corrected. -/
structure Agrees (joining : Bool) (channel : Bytes) (P : Parties) : Prop where
  logout : ∀ c, P.entry channel = some c → P.member = true ∨ joinCmd channel ∈ P.sent ∨ P.answers ≠ [] ∨
    (P.bot.state c).isJoined = true → 0 < (P.bot.state c).disconnected
  off : P.member = false → (∃ v ∈ P.told channel, v.joined = true) → P.Owes joining channel P.answers
  later : P.member = false → ∀ s, s <:+ P.answers → flagAll s false = true → P.Owes joining channel s

theorem Owes.mono {s : List Notice} (h : P.Owes joining channel s) {t : List Notice} (hs : P.sent ⊆ P'.sent) (ht : s ⊆ t) :
    P'.Owes joining channel t := by
  rcases h with ⟨hj,hmem⟩ | ⟨n,hn,he⟩
  · exact .inl ⟨hj,hs hmem⟩
  · exact .inr ⟨n,ht hn,he⟩

/-- A channel in the table is joined in the end if its flag is. -/
theorem told_joined {self : ChanId} (hget : P.entry channel = some self) :
    (∃ v ∈ P.told channel, v.joined = true) ↔ flagAll P.answers (P.bot.state self).isJoined = true := by
  obtain ⟨u,hu,hflag⟩ := tellAll_some P.bot.server.nick P.answers (IrcChannel.view self P.bot)
  have htold : P.told channel = some u := by
    rw [told,view_of_get hget]
    exact hu
  rw [htold,← show (IrcChannel.view self P.bot).joined = (P.bot.state self).isJoined from rfl,← hflag]
  constructor
  · rintro ⟨v,hv,hj⟩
    exact Option.some.inj hv ▸ hj
  · exact fun hj => ⟨u,rfl,hj⟩

theorem isJoined_of_view {w w' : World} {self : ChanId} (hget : w.server.channels.get channel = some self)
    (hget' : w'.server.channels.get channel = some self) (hv : w'.view channel = w.view channel) :
    (w'.state self).isJoined = (w.state self).isJoined := by
  rw [view_of_get hget,view_of_get hget'] at hv
  exact congrArg View.joined (Option.some.inj hv)

namespace Agrees
variable {K : Finset Bytes → Finset Bytes → Prop}

theorem initial (h : P.Initial) : P.Agrees joining channel := by
  have hT : P.Tracks channel fun _ _ => True := .initial h
  have hget := (hT.left h.asked).1
  refine ⟨fun c hc => absurd (hget.symm.trans hc) nofun,fun _ ⟨v,hv,_⟩ => ?_,fun _ s hs hflag => ?_⟩
  · rw [hT.told_none hget] at hv
    cases hv
  · rw [h.answers] at hs
    rw [List.suffix_nil.mp hs] at hflag
    cases hflag

/-- The only channel that can send a join is the one in the table. -/
theorem joins_entry (hP : P.Sound channel) (hT : P.Tracks channel K) {cs : List Bytes} {w : World} {self : ChanId}
    (hs : Sends channel cs P.bot w) (hget : P.entry channel = some self) (hmem : joinCmd channel ∈ cs) :
    0 < (w.state self).disconnected := by
  obtain ⟨_,c,hlt,hpos⟩ := hs.joins hmem
  have hhas : P.bot.Has c := hT.present c hlt
  obtain rfl : c = self := Option.some.inj (((hP.serves.has_iff c).mp hhas).symm.trans hget)
  exact hpos

theorem sends (hP : P.Sound channel) (hT : P.Tracks channel K) (h : P.Agrees joining channel) {cs : List Bytes} {w : World}
    (hs : Sends channel cs P.bot w) : Agrees joining channel { P with bot := w } := by
  have hsent : sent { P with bot := w } = P.sent ++ cs := sent_append hP.processed hs.commands
  have htold : told channel { P with bot := w } = P.told channel := by rw [told,told,hs.view,hs.nick]
  have hchannels : w.server.channels = P.bot.server.channels := congrArg Roster.channels hs.roster
  have hentry : entry channel { P with bot := w } = P.entry channel := congrArg (·.get channel) hchannels
  have hsub : P.sent ⊆ sent { P with bot := w } := hsent ▸ List.subset_append_left _ _
  refine ⟨fun c hc hor => ?_,fun hm hv => ?_,fun hm s hs' hflag => ?_⟩
  · have hget : P.entry channel = some c := hentry.symm.trans hc
    rw [hsent,List.mem_append] at hor
    have hold := h.logout c hget
    rcases hor with hm | (hmem | hmem) | hans | hj
    · exact (hold (.inl hm)).trans_le (hs.counts c)
    · exact (hold (.inr (.inl hmem))).trans_le (hs.counts c)
    · exact joins_entry hP hT hs hget hmem
    · exact (hold (.inr (.inr (.inl hans)))).trans_le (hs.counts c)
    · refine (hold (.inr (.inr (.inr ?_)))).trans_le (hs.counts c)
      exact (isJoined_of_view hget hc hs.view).symm.trans hj
  · exact (h.off hm (htold ▸ hv)).mono hsub (List.Subset.refl _)
  · exact (h.later hm s hs' hflag).mono hsub (List.Subset.refl _)

theorem joins (hP : P.Sound channel) (hT : P.Tracks channel K) (h : P.Agrees joining channel) {w : World}
    (hj : Joins channel P.bot w) : Agrees joining channel { P with bot := w, asked := true } := by
  cases hj with
  | old hget hs =>
    have hnew := h.sends hP hT hs
    exact ⟨hnew.logout,hnew.off,hnew.later⟩
  | new hget hs hlog =>
    have hh := addChannel_hears hP.serves hget
    have hsound := hP.create hget
    have hhas := (hh.serves.has_iff P.bot.nchans).mp (addChannel_creates hget).has
    have hchannels : w.server.channels = (IrcServer.addChannel channel P.bot).2.server.channels :=
      congrArg Roster.channels hs.roster
    have hview : w.view channel = some ⟨∅,false⟩ := hs.view.trans hh.view
    have ha : P.asked = false := by
      by_contra ha
      exact hT.asked (eq_true_of_ne_false ha) hget
    obtain ⟨_,hno,hans⟩ := hT.left ha
    have hsent : sent { P with bot := w, asked := true } = P.sent ++ _ :=
      sent_append hP.processed (hs.commands.trans (congrArg (· ++ _) hh.commands))
    have hentry : entry channel { P with bot := w, asked := true } = some P.bot.nchans :=
      (congrArg (·.get channel) hchannels).trans hhas
    have hfalse : (w.state P.bot.nchans).isJoined = false := by
      rw [view_of_get hentry] at hview
      exact congrArg View.joined (Option.some.inj hview)
    have hsub : P.sent ⊆ sent { P with bot := w, asked := true } := hsent ▸ List.subset_append_left _ _
    refine ⟨fun c hc hor => ?_,fun hm hv => ?_,fun hm s hs' hflag => ?_⟩
    · obtain rfl : c = P.bot.nchans := Option.some.inj (hc.symm.trans hentry)
      by_cases hon : P.bot.logged = true
      · exact hlog hon
      · -- without a login the server knows nothing of the bot, and the join only waits
        obtain ⟨hm,_,hempty⟩ := hT.offline (eq_false_of_ne_true hon)
        rw [hsent,List.mem_append] at hor
        rcases hor with hm' | (hmem | hmem) | hans | hj
        · exact absurd (hm.symm.trans hm') nofun
        · exact absurd hmem hno
        · exact joins_entry hsound (hT.create hP hget) hs hhas hmem
        · exact absurd hempty hans
        · exact absurd (hfalse.symm.trans hj) nofun
    · have hflag := (told_joined hentry).mp hv
      have htrue := flagAll_of_no_arrival hans hflag
      exact absurd (hfalse.symm.trans htrue) nofun
    · exact (h.later hm s hs' hflag).mono hsub (List.Subset.refl _)

/-- Without the channel in the table nothing makes the bot joined. -/
theorem gone (hT : P.Tracks channel K) (hget : P.entry channel = none)
    (hlater : P.member = false → ∀ s, s <:+ P.answers → flagAll s false = true → P.Owes joining channel s) :
    P.Agrees joining channel := by
  refine ⟨fun c hc => absurd (hget.symm.trans hc) nofun,fun _ ⟨v,hv,_⟩ => ?_,hlater⟩
  rw [hT.told_none hget] at hv
  cases hv

theorem hear (hT : P.Tracks channel K) (h : P.Agrees joining channel) {n : Notice} {ns : List Notice} {w : World}
    {env : Env} (hn : P.answers = n :: ns) (hC : CorrectedBy joining channel (.deliver env) P)
    (hh : Hears channel (n.tell P.bot.server.nick) P.bot w)
    (hT' : Tracks channel K { P with bot := w, answers := ns }) :
    Agrees joining channel { P with bot := w, answers := ns } := by
  have hsent : sent { P with bot := w, answers := ns } = P.sent := by rw [sent,sent,hh.commands]
  have htold : told channel { P with bot := w, answers := ns } = P.told channel := by
    rw [told,told,hh.view,hh.nick,hn]
    rfl
  have howes : ∀ s, P.Owes joining channel s → Owes joining channel { P with bot := w, answers := ns } s := fun s ho =>
    ho.mono (hsent ▸ List.Subset.refl _) (List.Subset.refl _)
  have hlater : P.member = false → ∀ s, s <:+ ns → flagAll s false = true → P.Owes joining channel s := fun hm s hs =>
    h.later hm s (hn ▸ hs.trans (List.suffix_cons n ns))
  cases hget : P.entry channel with
  | none =>
    have ha : P.asked = false := by
      by_contra ha
      exact hT.asked (eq_true_of_ne_false ha) hget
    exact gone hT' (hT'.left ha).1 fun hm s hs hflag => howes s (hlater hm s hs hflag)
  | some self =>
    have hself : w.server.channels.get channel = some self := hh.keeps self hget
    refine ⟨fun c hc hor => ?_,fun hm hv => howes ns ?_,fun hm s hs hflag => howes s (hlater hm s hs hflag)⟩
    · obtain rfl : c = self := Option.some.inj (hc.symm.trans hself)
      change 0 < (w.state c).disconnected
      rw [hh.counts c]
      exact h.logout c hget (.inr (.inr (.inl (hn ▸ List.cons_ne_nil n ns))))
    · rw [htold] at hv
      have hoff := h.off hm hv
      rw [hn] at hoff
      by_cases he : n.Echo
      · rcases hC n (by rw [hn]; rfl) he with hfalse | hm' | hmem | ⟨m,hmem,hr⟩
        · -- the bot does not take itself for joined, so that the rest of the notices makes it so
          have hflag := (told_joined hget).mp hv
          have hno : (P.bot.state self).isJoined = false := hfalse _ (view_of_get hget)
          have hsame : n.flag false = false := by
            cases n with
            | parted host reason => rfl
            | _ => exact he.elim
          rw [hn,hno,flagAll,List.foldl_cons,hsame] at hflag
          exact hlater hm ns (List.suffix_refl ns) hflag
        · cases hm.symm.trans hm'
        · exact .inl hmem
        · rw [hn] at hmem
          obtain ⟨s,t,hst⟩ := List.append_of_mem hmem
          have hst : ns = s ++ m :: t := hst
          have hflag := (told_joined hget).mp hv
          rw [hn,hst,flagAll,List.foldl_cons,← flagAll,flagAll_append,flagAll,List.foldl_cons,← flagAll] at hflag
          rcases hr.flag (flagAll s (n.flag (P.bot.state self).isJoined)) with he' | hfalse
          · exact .inr ⟨m,hmem,he'⟩
          · rw [hfalse] at hflag
            have hsuffix : t <:+ ns := hst ▸ (List.suffix_cons m t).trans (List.suffix_append s (m :: t))
            exact (hlater hm t hsuffix hflag).mono (List.Subset.refl _) hsuffix.subset
      · rcases hoff with hmem | ⟨m,hmem,hm'⟩
        · exact .inl hmem
        · rcases List.mem_cons.mp hmem with rfl | hmem
          · exact absurd hm' he
          · exact .inr ⟨m,hmem,hm'⟩

theorem skip (h : P.Agrees joining channel) {c : Bytes} {cs : List Bytes} (hc : P.sent = c :: cs)
    (hj : c = joinCmd channel → P.member = true) : Agrees joining channel { P with processed := P.processed + 1 } := by
  have hsent : sent { P with processed := P.processed + 1 } = cs := sent_succ hc
  have howes : P.member = false → ∀ s, P.Owes joining channel s →
      Owes joining channel { P with processed := P.processed + 1 } s := by
    rintro hm s (⟨hcounts,hmem⟩ | hecho)
    · rw [hc] at hmem
      rcases List.mem_cons.mp hmem with he | hmem
      · exact absurd (hm.symm.trans (hj he.symm)) nofun
      · exact .inl ⟨hcounts,hsent.symm ▸ hmem⟩
    · exact .inr hecho
  refine ⟨fun d hd hor => h.logout d hd ?_,fun hm hv => howes hm _ (h.off hm hv),fun hm s hs hflag =>
    howes hm s (h.later hm s hs hflag)⟩
  rw [hsent] at hor
  exact hor.imp_right (Or.imp_left fun hmem => hc ▸ List.mem_cons_of_mem c hmem)

theorem enter (h : P.Agrees joining channel) {cs : List Bytes} (hc : P.sent = joinCmd channel :: cs) (ns : List Notice) :
    Agrees joining channel { P with processed := P.processed + 1, member := true, answers := P.answers ++ ns } :=
  ⟨fun d hd _ => h.logout d hd (.inr (.inl (hc ▸ List.mem_cons_self))),nofun,nofun⟩

theorem leave (h : P.Agrees joining channel) {n : Notice} (hn : n.Removes) (hm : P.member = true) (k : ℕ) :
    Agrees joining channel { P with processed := k, member := false, answers := P.answers ++ [n] } := by
  refine ⟨fun d hd _ => h.logout d hd (.inl hm),fun _ ⟨v,hv,hj⟩ => ?_,fun _ s hs hflag => ?_⟩
  · have htold : tellAll P.bot.server.nick [n] (P.told channel) = some v := (told_append P [n]).symm.trans hv
    cases ht : P.told channel with
    | none =>
      rw [ht,tellAll_none fun m hm => List.mem_singleton.mp hm ▸ hn.not_arrival] at htold
      cases htold
    | some u =>
      obtain ⟨x,hx,hflag⟩ := tellAll_some P.bot.server.nick [n] u
      rw [ht,hx] at htold
      obtain rfl := Option.some.inj htold
      rcases hn.flag u.joined with he | hfalse
      · exact .inr ⟨n,List.mem_append_right _ (List.mem_singleton_self n),he⟩
      · exact absurd ((hflag.trans hfalse).symm.trans hj) nofun
  · rcases List.suffix_concat_iff.mp hs with rfl | ⟨t,rfl,_⟩
    · cases hflag
    · rw [flagAll_append] at hflag
      rcases hn.flag (flagAll t false) with he | hfalse
      · exact .inr ⟨n,List.mem_append_right _ (List.mem_singleton_self n),he⟩
      · exact absurd (hfalse.symm.trans hflag) nofun

theorem change (h : P.Agrees joining channel) (change : UserChange) : Agrees joining channel { P with
    users := change.apply P.users
    answers := P.answers ++ if P.member then [.user change] else [] } := by
  by_cases hm : P.member = true
  · exact ⟨fun d hd _ => h.logout d hd (.inl hm),fun hoff => absurd (hm.symm.trans hoff) nofun,
      fun hoff => absurd (hm.symm.trans hoff) nofun⟩
  · rw [if_neg hm,List.append_nil]
    exact ⟨h.logout,h.off,h.later⟩

theorem lose (h : P.Agrees joining channel) (hP : P.Sound channel) {w : World} (he : Ends channel P.bot w) :
    Agrees joining channel { P with
    bot := w
    processed := w.ghost.commands.length
    answers := []
    member := false } := by
  have hchannels : w.server.channels = P.bot.server.channels := congrArg Roster.channels he.roster
  have hsent : sent { P with bot := w, processed := w.ghost.commands.length, answers := [], member := false } = [] :=
    List.drop_length
  have hleft : ∀ c, w.server.channels.get channel = some c → (w.state c).isJoined = false := fun c hc =>
    he.leaves (fun d hd hj => h.logout d ((hP.serves.has_iff d).mp hd) (.inr (.inr (.inr hj)))) c
      ((he.serves.has_iff c).mpr hc)
  refine ⟨fun c hc hor => ?_,fun _ ⟨v,hv,hj⟩ => ?_,fun _ s hs hflag => ?_⟩
  · rw [hsent] at hor
    rcases hor with hm | hmem | hans | hj
    · cases hm
    · cases hmem
    · exact absurd rfl hans
    · exact absurd ((hleft c hc).symm.trans hj) nofun
  · cases hget : w.server.channels.get channel with
    | none =>
      rw [show told channel _ = w.view channel from rfl,view_of_none hget] at hv
      cases hv
    | some c =>
      rw [show told channel _ = w.view channel from rfl,view_of_get hget] at hv
      obtain rfl := Option.some.inj hv
      exact absurd ((hleft c hget).symm.trans hj) nofun
  · rw [List.suffix_nil.mp hs] at hflag
    cases hflag

theorem turn (hP : P.Sound channel) (hT : P.Tracks channel K) (h : P.Agrees joining channel)
    (hC : CorrectedBy joining channel l P) (hT' : P'.Tracks channel K) (ht : Turn channel l P P') : P'.Agrees joining channel := by
  cases ht with
  | idle => exact h
  | sends _ hs => exact h.sends hP hT hs
  | join hj => exact h.joins hP hT hj
  | absent hget => exact ⟨h.logout,h.off,h.later⟩
  | hear hn hh => exact h.hear hT hn hC hh hT'
  | skip hc hj => exact h.skip hc hj
  | enter hc _ _ => exact h.enter hc _
  | leave _ hn hm _ => exact h.leave hn hm _
  | change _ => exact h.change _
  | lose he => exact h.lose hP he

/-- When the bot has handled all that was sent to it, and no join that counts is on its way. -/
theorem settled (hT : P.Tracks channel K) (h : P.Agrees joining channel) (hsent : joining = true → P.sent = [])
    (hans : P.answers = []) : (∃ v ∈ P.bot.view channel, v.joined = true) ↔ P.member = true := by
  constructor
  · intro hv
    by_contra hm
    have howes := h.off (eq_false_of_ne_true hm) (by rw [told,hans]; exact hv)
    rcases howes with ⟨hj,hmem⟩ | ⟨n,hn,_⟩
    · rw [hsent hj] at hmem
      cases hmem
    · rw [hans] at hn
      cases hn
  · intro hm
    obtain ⟨v,hv,hj,_⟩ := hT.settled hans hm
    exact ⟨v,hv,hj⟩

/-- Both parts of the invariant, in runs under a condition that is strong enough for either. -/
theorem reached {C : Label → Parties → Prop} (hK : ∀ l P, P.Sound channel → C l P → Kept channel K l P)
    (hC : ∀ l P, C l P → CorrectedBy joining channel l P) (h : Reaches (step channel) C Initial P) :
    P.Tracks channel K ∧ P.Agrees joining channel := by
  refine (induct (I := fun P => P.Tracks channel K ∧ P.Agrees joining channel) (fun _ hP => ⟨.initial hP,.initial hP⟩)
    ?_ h).2
  rintro l Q Q' hP ⟨hT,hA⟩ hc ht
  have hT' := hT.turn hP (hK l Q hP hc) ht
  exact ⟨hT',hA.turn hP hT (hC l Q hc) hT' ht⟩

end Agrees

theorem corrected_agrees (h : Reaches (step channel) (Corrected channel) Initial P) :
    P.Tracks channel (fun _ _ => True) ∧ P.Agrees true channel :=
  Agrees.reached (fun l P _ _ => kept_always l P) (fun _ _ hC => hC.by_joining) h

theorem view_joined {w : World} : (∃ v ∈ w.view channel, v.joined = true) ↔
    ∃ self, w.server.channels.get channel = some self ∧ (w.chans self).isJoined = true := by
  unfold World.view
  cases w.server.channels.get channel with
  | none => simp
  | some self => simp [IrcChannel.view]

/-- In such runs, when the connection is up and nothing is on its way: `isJoined` is set exactly if the server has the
bot on the channel. -/
theorem flag_agrees (h : Reaches (step channel) (Corrected channel) Initial P) (hs : P.Settled) :
    (∃ self, P.entry channel = some self ∧ (P.bot.chans self).isJoined = true) ↔ P.member = true := by
  obtain ⟨hT,hA⟩ := corrected_agrees h
  exact view_joined.symm.trans (hA.settled hT (fun _ => hs.sent) hs.answers)

/-- The names are late: the bot parts and waits. When the server puts it on the channel and takes it off again, its next
join is on its way. -/
theorem flag_agrees_late : ∃ P : Parties, P.Settled ∧
    ((∃ self, P.entry (lit "#c") = some self ∧ (P.bot.chans self).isJoined = true) ↔ P.member = true) := by
  have hrun : (follow (step (lit "#c")) (Corrected (lit "#c")) (late ++ List.replicate 30 (.waitrejoin 0) ++
      answered ++ entering) start).any fun P => P.bot.logged = true ∧ P.sent = [] ∧ P.answers = [] := by decide +kernel
  obtain ⟨P,hP,hend⟩ := Reaches.exists_follow (.start start_initial) hrun
  obtain ⟨hlog,hsent,hans⟩ := of_decide_eq_true hend
  exact ⟨P,⟨hlog,hsent,hans⟩,flag_agrees hP ⟨hlog,hsent,hans⟩⟩

/-- The names are late, and the bot still waits when it hears that it was on the channel, and then of the end of its part:
it takes itself for joined from then on. -/
theorem late_part_joined : ∃ P : Parties, Reaches (step (lit "#c")) (fun _ _ => True) Initial P ∧ P.Settled ∧
    ¬ ((∃ self, P.entry (lit "#c") = some self ∧ (P.bot.chans self).isJoined = true) ↔ P.member = true) := by
  have hrun : (follow (step (lit "#c")) (fun _ _ => True) (late ++ answered) start).any fun P =>
      (P.bot.logged = true ∧ P.sent = [] ∧ P.answers = []) ∧
        (∃ v ∈ P.bot.view (lit "#c"), v.joined = true) ∧ P.member = false := by decide +kernel
  obtain ⟨P,hP,hend⟩ := Reaches.exists_follow (.start start_initial) hrun
  obtain ⟨⟨hlog,hsent,hans⟩,hv,hm⟩ := of_decide_eq_true hend
  refine ⟨P,hP,⟨hlog,hsent,hans⟩,fun hiff => ?_⟩
  cases hm.symm.trans (hiff.mp (view_joined.mp hv))

end Parties
end LibIrcBot
