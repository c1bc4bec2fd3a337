import LibIrcBot.Properties.ChannelOwnership
import LibIrcBot.System.Happenings

/-! # Wanted channels

A channel that shall be joined is joined, or something is registered that will try to join
it; and unless that is the next login, the channel will learn of the end of the connection.
-/
namespace LibIrcBot
open CString Effects Relation Outcome

theorem joinsyncticks_pos : 0 < JOINSYNCTICKS := by decide
theorem rejointicks_pos : 0 < REJOINTICKS := by decide

namespace ChanState
variable {s : ChanState}

structure Backed (s : ChanState) : Prop where
  waits : 0 < s.joinOnConnect ∨ (0 < s.waitjoin ∧ 0 < s.joinsyncticks) ∨ (0 < s.waitrejoin ∧ 0 < s.rejointicks) ∨
    s.isJoined = true
  logout : s.joinOnConnect = 0 → 0 < s.disconnected

def Supported (s : ChanState) : Prop := s.wantJoined = true → s.Backed

theorem Supported.join (h : s.Supported) (logged : Bool) : (s.join logged).Supported := by
  unfold ChanState.join
  split
  · exact h
  · cases logged with
    | true => exact fun _ => ⟨Or.inr (Or.inl ⟨Nat.succ_pos _,joinsyncticks_pos⟩),fun _ => Nat.succ_pos _⟩
    | false => exact fun _ => ⟨Or.inl (Nat.succ_pos _),fun h => absurd h (Nat.succ_ne_zero _)⟩

/-- A join that gets through needs nothing of the state before it. -/
theorem join_supported (s : ChanState) (logged : Bool) : (ChanState.join { s with wantJoined := false } logged).Supported :=
  Supported.join (s := { s with wantJoined := false }) (fun h => absurd h (by simp)) logged

theorem connect_supported (s : ChanState) (logged : Bool) : (s.connect logged).Supported :=
  join_supported { s with joinOnConnect := s.joinOnConnect - 1 } logged

theorem disconnect_supported (s : ChanState) : s.disconnect.Supported := by
  intro hw
  have hpos : s.disconnect.joinOnConnect = s.joinOnConnect - 1 + 1 := by
    have hwant : s.wantJoined = true := hw
    simp [ChanState.disconnect,hwant]
  exact ⟨Or.inl (hpos ▸ Nat.succ_pos _),fun h => absurd (hpos.symm.trans h) (Nat.succ_ne_zero _)⟩

theorem Supported.tickJoin (h : s.Supported) : s.tickJoin.Supported := by
  unfold ChanState.tickJoin
  split
  · intro hw
    exact ⟨Or.inr (Or.inr (Or.inl ⟨Nat.succ_pos _,rejointicks_pos⟩)),(h hw).logout⟩
  · next hne =>
    intro hw
    refine ⟨(h hw).waits.imp_right (Or.imp_left fun hj => ⟨hj.1,?_⟩),(h hw).logout⟩
    have hpos := hj.2
    dsimp only
    omega

theorem Supported.tickRejoin (h : s.Supported) (logged : Bool) : (s.tickRejoin logged).Supported := by
  unfold ChanState.tickRejoin
  split
  · exact join_supported { s with rejointicks := 0, waitrejoin := s.waitrejoin - 1 } logged
  · next hne =>
    intro hw
    refine ⟨(h hw).waits.imp_right (Or.imp_right (Or.imp_left fun hj => ⟨hj.1,?_⟩)),(h hw).logout⟩
    have hpos := hj.2
    dsimp only
    omega

theorem Supported.kick (h : s.Supported) : s.kick.Supported := by
  unfold ChanState.kick
  split
  · intro hw
    exact ⟨Or.inr (Or.inr (Or.inl ⟨Nat.succ_pos _,rejointicks_pos⟩)),(h hw).logout⟩
  · next hn => exact fun hw => absurd hw hn

theorem Supported.enter (h : s.Supported) (n : ℕ) : (s.enter n).Supported :=
  fun hw => ⟨Or.inr (Or.inr (Or.inr rfl)),(h hw).logout⟩

end ChanState

variable {w w' : World} {l : Call}

def World.AllSupported (w : World) : Prop := ∀ c, w.Has c → (w.state c).Supported

/-- A call that does not remove the channel. -/
theorem Call.op_supported (hr : ¬ l.Removing) {s : ChanState} (h : s.Supported) : (l.op w s).Supported := by
  cases l with
  | join self => exact h.join _
  | part self => exact absurd trivial hr
  | joinOnConnect self => exact ChanState.connect_supported s _
  | waitjoin self => exact h.tickJoin
  | waitrejoin self => exact h.tickRejoin _
  | handleMsg self m =>
    rw [Call.op,IrcChannel.received]
    split
    · exact h.kick
    · split
      · exact h.enter _
      · exact h
  | jobs => exact h

namespace World.AllSupported

theorem call (hc : Charted w) (h : w.AllSupported) (hd : Does l w w') : w'.AllSupported := by
  have hres := hd.result hc.toChannelInv hc.toAttended
  intro c hs
  by_cases hl : l.chan = some c
  · by_cases hrem : l.Removing
    · obtain ⟨self,hself,hhas,_,hgone⟩ := hres.removes hrem
      have hne := ((hgone.has_iff hc.toChannelInv hhas c).mp hs).2
      exact absurd (Option.some.inj (hl.symm.trans hself)) hne
    · rw [hres.own c hl]
      exact l.op_supported hrem (h c ((has_of_roster (hres.keeps hrem) c).mp hs))
  · rw [(hres.others c hl).1]
    refine h c ?_
    by_cases hrem : l.Removing
    · obtain ⟨self,_,hhas,_,hgone⟩ := hres.removes hrem
      exact ((hgone.has_iff hc.toChannelInv hhas c).mp hs).1
    · exact (has_of_roster (hres.keeps hrem) c).mp hs

theorem close (h : w.AllSupported) {t : World} {est : Bool}
    (ht : IrcServer.raiseDisconnected (IrcServer.hangUp est w) = .ok t) : (IrcServer.awaitReconn t).AllSupported := by
  have hrun := raiseDisconnected_invariant (w := IrcServer.hangUp est w) (J := World.AllSupported) ?_ ?_ h
  · rw [ht] at hrun
    intro c hs
    rw [awaitReconn_state]
    exact hrun c hs
  · intro u v c hu _ hv d hs
    have hd := (has_of_roster hv.roster d).mp hs
    by_cases hdc : d = c
    · rw [hdc,hv.own]
      exact ChanState.disconnect_supported _
    · rw [hv.others d hdc]
      exact hu d hd
  · intro u v hu hv d hs
    rw [hv.state]
    exact hu d ((has_of_roster hv.roster d).mp hs)

theorem happens (hc : Charted w) (h : w.AllSupported) {l : Happening} (hh : Happens l w w') : w'.AllSupported := by
  cases hh with
  | call hd => exact h.call hc hd
  | login name hw =>
    intro c hs
    rw [login_state]
    exact h c hs
  | close est hconn ht => exact h.close ht
  | create name hget =>
    have hcreate := addChannel_creates hget
    intro c hs
    by_cases hn : c = w.nchans
    · rw [hn,hcreate.own]
      exact fun hw => absurd hw (by simp)
    · rw [(hcreate.others c hn).1]
      exact h c ((hcreate.has_iff hget hn).mp hs)
  | listen =>
    intro c hs
    rw [listen_state]
    exact h c hs
  | other he =>
    intro c hs
    rw [he.state]
    exact h c ((has_of_roster he.roster c).mp hs)

end World.AllSupported

/-- In every state of a run, a channel that exists and is wanted is joined, or will be joined at
the next login, or waits with a running counter for the answer to a join or for the next one;
and unless it waits for the login, it listens to the end of the connection. -/
theorem wanted_supported (h : w.Reachable) {chan : ChanId} (hc : chan < w.nchans) (hd : chan ∉ w.ghost.destroyed)
    (hwant : (w.chans chan).wantJoined = true) :
    (0 < w.server.connected.count () (.joinOnConnect chan) 0 ∨
      (0 < w.service.tick.count () (.waitjoin chan) 0 ∧ 0 < (w.chans chan).joinsyncticks) ∨
      (0 < w.service.tick.count () (.waitrejoin chan) 0 ∧ 0 < (w.chans chan).rejointicks) ∨
      (w.chans chan).isJoined = true) ∧
    (w.server.connected.count () (.joinOnConnect chan) 0 = 0 →
      0 < w.server.disconnected.count () (.disconnected chan) 0) := by
  have hall := World.Reached.induct (I := World.AllSupported) (fun t ht c hs => ?_)
    (fun t u l hct hi _ hl => hi.happens hct hl) h.reached
  · have hb := hall.2 chan (hall.1.alive chan hc hd) hwant
    exact ⟨hb.waits,hb.logout⟩
  · rw [World.Has,ht.channels] at hs
    cases hs

theorem wanted_supported_joined : (World.joined.chans 0).wantJoined = true ∧
    (0 < World.joined.service.tick.count () (.waitjoin 0) 0 ∧ 0 < (World.joined.chans 0).joinsyncticks) ∧
    ((0 < World.joined.server.connected.count () (.joinOnConnect 0) 0 ∨
      (0 < World.joined.service.tick.count () (.waitjoin 0) 0 ∧ 0 < (World.joined.chans 0).joinsyncticks) ∨
      (0 < World.joined.service.tick.count () (.waitrejoin 0) 0 ∧ 0 < (World.joined.chans 0).rejointicks) ∨
      (World.joined.chans 0).isJoined = true) ∧
    (World.joined.server.connected.count () (.joinOnConnect 0) 0 = 0 →
      0 < World.joined.server.disconnected.count () (.disconnected 0) 0)) :=
  ⟨by decide +kernel,by decide +kernel,wanted_supported
    (World.after_reachable World.loggedIn_reachable (by decide +kernel)) (by decide +kernel) (by decide +kernel)
    (by decide +kernel)⟩

end LibIrcBot
