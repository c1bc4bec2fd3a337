import LibIrcBot.Properties.WantedChannels

/-! # How often a channel is registered

A join registers the callbacks of a channel anew. They stay registered at most once as long
as a join that gets through finds nothing left of an earlier one, and a timer for the next
join is started only while none runs. What is registered once is gone when the channel is.
-/
namespace LibIrcBot
open CString Effects Relation Outcome

namespace ChanState
variable {s : ChanState}

/-- Each callback is registered at most once, a joined channel does not wait for the answer to
a join, and a channel that was never wanted has registered nothing. -/
structure Tidy (s : ChanState) : Prop where
  joinOnConnect : s.joinOnConnect ≤ 1
  disconnected : s.disconnected ≤ 1
  waitjoin : s.waitjoin ≤ 1
  waitrejoin : s.waitrejoin ≤ 1
  joined : s.isJoined = true → s.waitjoin = 0
  unwanted : s.wantJoined = false → s.Silent

/-- A join that gets through finds nothing left of an earlier one. -/
def Free (s : ChanState) (logged : Bool) : Prop :=
  if logged then s.isJoined = false ∧ s.waitjoin = 0 ∧ s.disconnected = 0 else s.joinOnConnect = 0

theorem Silent.tidy (h : s.Silent) : s.Tidy where
  joinOnConnect := h.joinOnConnect ▸ Nat.zero_le 1
  disconnected := h.disconnected ▸ Nat.zero_le 1
  waitjoin := h.waitjoin ▸ Nat.zero_le 1
  waitrejoin := h.waitrejoin ▸ Nat.zero_le 1
  joined := fun _ => h.waitjoin
  unwanted := fun _ => h

theorem Tidy.unregister (h : s.Tidy) : s.unregister.Silent where
  joinOnConnect := Nat.sub_eq_zero_of_le h.joinOnConnect
  disconnected := Nat.sub_eq_zero_of_le h.disconnected
  waitjoin := Nat.sub_eq_zero_of_le h.waitjoin
  waitrejoin := Nat.sub_eq_zero_of_le h.waitrejoin

/-- A join that gets through, from a state with at most one registration of each kind. -/
theorem join_tidy {logged : Bool} (hf : s.Free logged) (hc : s.joinOnConnect ≤ 1) (hd : s.disconnected ≤ 1)
    (hw : s.waitjoin ≤ 1) (hr : s.waitrejoin ≤ 1) (hj : s.isJoined = true → s.waitjoin = 0) :
    (ChanState.join { s with wantJoined := false } logged).Tidy := by
  cases logged with
  | true =>
    obtain ⟨hjoined,hwait,hdis⟩ : s.isJoined = false ∧ s.waitjoin = 0 ∧ s.disconnected = 0 := hf
    refine ⟨hc,?_,?_,hr,fun h => ?_,fun h => absurd h (by simp [ChanState.join])⟩
    · simp [ChanState.join,hdis]
    · simp [ChanState.join,hwait]
    · have hno : s.isJoined = true := h
      rw [hjoined] at hno
      cases hno
  | false =>
    have hzero : s.joinOnConnect = 0 := hf
    refine ⟨?_,hd,hw,hr,hj,fun h => absurd h (by simp [ChanState.join])⟩
    simp [ChanState.join,hzero]

theorem Tidy.join (h : s.Tidy) {logged : Bool} (hf : s.wantJoined = false → s.Free logged) : (s.join logged).Tidy := by
  cases hw : s.wantJoined with
  | true =>
    rw [ChanState.join,if_pos hw]
    exact h
  | false =>
    have hs : s = { s with wantJoined := false } := by rw [← hw]
    rw [hs]
    exact join_tidy (hf hw) h.joinOnConnect h.disconnected h.waitjoin h.waitrejoin h.joined

theorem Tidy.connect (h : s.Tidy) {logged : Bool} (hf : s.Free logged) : (s.connect logged).Tidy := by
  refine join_tidy (s := { s with joinOnConnect := s.joinOnConnect - 1 }) ?_ ?_ h.disconnected h.waitjoin
    h.waitrejoin h.joined
  · cases logged with
    | true => exact hf
    | false => exact Nat.sub_eq_zero_of_le h.joinOnConnect
  · exact (Nat.sub_le _ _).trans h.joinOnConnect

theorem Tidy.part (h : s.Tidy) : s.part.Silent :=
  ⟨h.unregister.joinOnConnect,h.unregister.disconnected,h.unregister.waitjoin,h.unregister.waitrejoin⟩

theorem Tidy.disconnect (h : s.Tidy) : s.disconnect.Tidy := by
  have hs := h.unregister
  have hone : s.disconnect.joinOnConnect = if s.wantJoined then 1 else 0 := by
    simp [ChanState.disconnect,Nat.sub_eq_zero_of_le h.joinOnConnect]
  refine ⟨?_,hs.disconnected ▸ Nat.zero_le 1,hs.waitjoin ▸ Nat.zero_le 1,hs.waitrejoin ▸ Nat.zero_le 1,
    fun _ => hs.waitjoin,fun hw => ⟨?_,hs.disconnected,hs.waitjoin,hs.waitrejoin⟩⟩
  · rw [hone]
    split <;> decide
  · have hwant : s.wantJoined = false := hw
    simp [hone,hwant]

theorem Tidy.tickJoin (h : s.Tidy) (hreg : 0 < s.waitjoin) (hf : s.joinsyncticks = 1 → s.waitrejoin = 0) :
    s.tickJoin.Tidy := by
  have hwant : ¬ s.wantJoined = false := fun hw => absurd (h.unwanted hw).waitjoin (Nat.ne_of_gt hreg)
  unfold ChanState.tickJoin
  split
  · next hone =>
    have hzero := Nat.sub_eq_zero_of_le h.waitjoin
    refine ⟨h.joinOnConnect,h.disconnected,hzero ▸ Nat.zero_le 1,?_,fun _ => hzero,fun hw => absurd hw hwant⟩
    simp [hf hone]
  · exact ⟨h.joinOnConnect,h.disconnected,h.waitjoin,h.waitrejoin,h.joined,fun hw => absurd hw hwant⟩

theorem Tidy.tickRejoin (h : s.Tidy) {logged : Bool} (hreg : 0 < s.waitrejoin)
    (hf : s.rejointicks = 1 → s.Free logged) : (s.tickRejoin logged).Tidy := by
  have hwant : ¬ s.wantJoined = false := fun hw => absurd (h.unwanted hw).waitrejoin (Nat.ne_of_gt hreg)
  unfold ChanState.tickRejoin
  split
  · next hone =>
    refine join_tidy (s := { s with rejointicks := 0, waitrejoin := s.waitrejoin - 1 }) ?_ h.joinOnConnect
      h.disconnected h.waitjoin ((Nat.sub_le _ _).trans h.waitrejoin) h.joined
    cases logged with
    | true => exact hf hone
    | false => exact hf hone
  · exact ⟨h.joinOnConnect,h.disconnected,h.waitjoin,h.waitrejoin,h.joined,fun hw => absurd hw hwant⟩

theorem Tidy.kick (h : s.Tidy) (hf : s.wantJoined = true → s.waitrejoin = 0) : s.kick.Tidy := by
  unfold ChanState.kick
  split
  · next hw =>
    refine ⟨h.joinOnConnect,h.disconnected,h.waitjoin,?_,fun h => absurd h (by simp),fun hn => absurd (hw.symm.trans hn) (by simp)⟩
    simp [hf hw]
  · exact ⟨h.joinOnConnect,h.disconnected,h.waitjoin,h.waitrejoin,fun h => absurd h (by simp),fun hn =>
      have hs := h.unwanted hn
      ⟨hs.joinOnConnect,hs.disconnected,hs.waitjoin,hs.waitrejoin⟩⟩

theorem Tidy.enter (h : s.Tidy) (n : ℕ) : (s.enter n).Tidy := by
  have hzero := Nat.sub_eq_zero_of_le h.waitjoin
  refine ⟨h.joinOnConnect,h.disconnected,(Nat.sub_le _ _).trans h.waitjoin,(Nat.sub_le _ _).trans h.waitrejoin,
    fun _ => hzero,fun hn => ?_⟩
  have hs := h.unwanted hn
  exact ⟨hs.joinOnConnect,hs.disconnected,hzero,Nat.sub_eq_zero_of_le h.waitrejoin⟩

end ChanState

/-- A join that gets through finds the channel not joined and nothing of an earlier join, and a
timer for the next join is started only while none runs. -/
def Orderly : Happening → World → Prop
  | .call (.join self), w => (w.state self).wantJoined = false → (w.state self).Free w.logged
  | .call (.joinOnConnect self), w => (w.state self).Free w.logged
  | .call (.waitjoin self), w => (w.state self).joinsyncticks = 1 → (w.state self).waitrejoin = 0
  | .call (.waitrejoin self), w => (w.state self).rejointicks = 1 → (w.state self).Free w.logged
  | .call (.handleMsg self m), w =>
    IrcChannel.Kicks self m w → (w.state self).wantJoined = true → (w.state self).waitrejoin = 0
  | _, _ => True

variable {w w' : World} {l : Call}

/-- Every channel is registered tidily, and one that was removed not at all. -/
structure World.Disciplined (w : World) : Prop where
  tidy : ∀ c, (w.state c).Tidy
  removed : ∀ c ∈ w.ghost.removed, (w.state c).Silent

/-- A call that keeps the channel. -/
theorem Does.tidy (hd : Does l w w') (hC : Orderly (.call l) w) {self : ChanId} (hl : l.chan = some self)
    (hr : ¬ l.Removing) (h : (w.state self).Tidy) : (l.op w (w.state self)).Tidy := by
  cases hd with
  | join c _ _ => cases hl; exact h.join hC
  | part c _ _ => exact absurd trivial hr
  | joinOnConnect c _ _ _ => cases hl; exact h.connect hC
  | waitjoin c hreg _ => cases hl; exact h.tickJoin hreg hC
  | waitrejoin c hreg _ => cases hl; exact h.tickRejoin hreg hC
  | handleMsg c env m _ _ =>
    cases hl
    rw [Call.op,IrcChannel.received]
    split
    · next hk => exact h.kick (hC hk)
    · split
      · exact h.enter _
      · exact h
  | jobs _ => cases hl

/-- A call that removes the channel. -/
theorem Call.op_removing (hr : l.Removing) {s : ChanState} (h : s.Tidy) : (l.op w s).Silent := by
  cases l with
  | part self => exact h.part
  | _ => exact hr.elim

namespace World.Disciplined

theorem call (hc : Charted w) (h : w.Disciplined) (hd : Does l w w') (hC : Orderly (.call l) w) : w'.Disciplined := by
  have hres := hd.result hc.toChannelInv hc.toAttended
  have hremoved : ∀ c ∈ w.ghost.removed, (w'.state c).Silent := by
    intro c hmem
    have hs := h.removed c hmem
    by_cases hl : l.chan = some c
    · rw [hres.own c hl,hc.op_silent hd hl (hc.gone c hmem).2 hs]
      exact hs
    · rw [(hres.others c hl).1]
      exact hs
  by_cases hrem : l.Removing
  · obtain ⟨self,hl,hself,hlog,_⟩ := hres.removes hrem
    have hsilent : (w'.state self).Silent := hres.own self hl ▸ l.op_removing hrem (h.tidy self)
    refine ⟨fun c => ?_,fun c hmem => ?_⟩
    · by_cases he : c = self
      · exact he ▸ hsilent.tidy
      · rw [(hres.others c (by simp [hl,Ne.symm he])).1]
        exact h.tidy c
    · rw [hlog,List.mem_append,List.mem_singleton] at hmem
      rcases hmem with hmem | rfl
      · exact hremoved c hmem
      · exact hsilent
  · refine ⟨fun c => ?_,fun c hmem => hremoved c ?_⟩
    · by_cases hl : l.chan = some c
      · rw [hres.own c hl]
        exact hd.tidy hC hl hrem (h.tidy c)
      · rw [(hres.others c hl).1]
        exact h.tidy c
    · have hsame : w'.ghost.removed = w.ghost.removed := congrArg Roster.removed (hres.keeps hrem)
      exact hsame ▸ hmem

theorem close (h : w.Disciplined) {t : World} {est : Bool}
    (ht : IrcServer.raiseDisconnected (IrcServer.hangUp est w) = .ok t) : (IrcServer.awaitReconn t).Disciplined := by
  have hrun := raiseDisconnected_invariant (w := IrcServer.hangUp est w) (J := World.Disciplined) ?_ ?_ ⟨h.tidy,h.removed⟩
  · rw [ht] at hrun
    exact ⟨fun c => awaitReconn_state t ▸ hrun.tidy c,fun c hmem => awaitReconn_state t ▸ hrun.removed c hmem⟩
  · intro u v c hu hreg hv
    have hsame : v.ghost.removed = u.ghost.removed := congrArg Roster.removed hv.roster
    refine ⟨fun d => ?_,fun d hmem => ?_⟩
    · by_cases he : d = c
      · rw [he,hv.own]
        exact (hu.tidy c).disconnect
      · rw [hv.others d he]
        exact hu.tidy d
    · have hs := hu.removed d (hsame ▸ hmem)
      by_cases he : d = c
      · exact absurd hs.disconnected (Nat.ne_of_gt (he ▸ hreg))
      · rw [hv.others d he]
        exact hs
  · intro u v hu hv
    have hsame : v.ghost.removed = u.ghost.removed := congrArg Roster.removed hv.roster
    exact ⟨fun d => hv.state ▸ hu.tidy d,fun d hmem => hv.state ▸ hu.removed d (hsame ▸ hmem)⟩

theorem congr (h : w.Disciplined) (hs : w'.state = w.state) (hr : w'.ghost.removed = w.ghost.removed) :
    w'.Disciplined := ⟨fun c => hs ▸ h.tidy c,fun c hmem => hs ▸ h.removed c (hr ▸ hmem)⟩

theorem happens (hc : Charted w) (h : w.Disciplined) {l : Happening} (hC : Orderly l w) (hh : Happens l w w') :
    w'.Disciplined := by
  cases hh with
  | call hd => exact h.call hc hd hC
  | login name hw => exact h.congr (login_state w name) rfl
  | close est hconn ht => exact h.close ht
  | create name hget =>
    have hcreate := addChannel_creates hget
    have hfresh := hc.fresh w.nchans (Nat.le_refl _)
    refine ⟨fun c => ?_,fun c hmem => ?_⟩
    · by_cases hn : c = w.nchans
      · rw [hn,hcreate.own]
        exact ChanState.Silent.tidy ⟨hfresh.joinOnConnect,hfresh.disconnected,hfresh.waitjoin,hfresh.waitrejoin⟩
      · rw [(hcreate.others c hn).1]
        exact h.tidy c
    · rw [hcreate.removed] at hmem
      rw [(hcreate.others c (Nat.ne_of_lt (hc.gone c hmem).1)).1]
      exact h.removed c hmem
  | listen => exact h.congr (listen_state w) rfl
  | other he => exact h.congr he.state (congrArg Roster.removed he.roster)

theorem initial (h : w.Initial) : w.Disciplined := by
  refine ⟨fun c => ((Charted.initial h).fresh c (h.nchans ▸ Nat.zero_le c)).tidy,fun c hmem => ?_⟩
  rw [h.ghost] at hmem
  cases hmem

end World.Disciplined

/-- The channel of `World.joined` is entered, and the bot is kicked from it. -/
def World.kicked : World :=
  after (Label.iteration (.io [] [3]) 1 2
      (Env.delivering Chunk.entered) ++
    Label.iteration (.io [] [3]) 1 2 (Env.delivering ⟨lit ":o KICK #c n\x0d\n",by decide,by decide⟩)) joined

end LibIrcBot
