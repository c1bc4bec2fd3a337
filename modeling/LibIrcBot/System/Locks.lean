import LibIrcBot.System.Loop

/-! # The locks on the shutdown

A request for termination registers `shutdownok` on every server and takes a lock for each.
When a server loses its connection, each registration gives a lock back and is removed;
nothing else that happens to a server touches the locks.
-/
namespace LibIrcBot
open CString Effects Relation Outcome

variable {w w' w'' : World}

def World.losses (w : World) : ℕ := w.ghost.operations.countP fun e => e.operation = .disconnected

theorem losses_log (w : World) (self : ConnId) (operation : Operation) :
    (w.log self operation).losses = w.losses + if operation = .disconnected then 1 else 0 := by
  change (w.ghost.operations ++ [_]).countP _ = _
  rw [List.countP_append,List.countP_singleton]
  simp [World.losses]

/-- The locks stay, or the server has lost its connection and its locks are given back. -/
inductive World.Unlocks (w w' : World) : Prop where
  | same (hl : w.SameLocks w') (hn : w'.losses = w.losses)
  | lost (hn : w.losses < w'.losses) (hl : w'.locks = 0)
      (hle : w.service.shutdownRef - w.locks ≤ w'.service.shutdownRef)
      (hpos : 0 ≤ w.service.shutdownRef → 0 ≤ w'.service.shutdownRef)

namespace World.Unlocks

theorem refl (w : World) : w.Unlocks w := .same (.refl w) rfl

theorem trans (h : w.Unlocks w') (h' : w'.Unlocks w'') : w.Unlocks w'' := by
  cases h with
  | same hl hn =>
    cases h' with
    | same hl' hn' => exact .same (hl.trans hl') (hn'.trans hn)
    | lost hn' hl' hle hpos =>
      rw [hl.shutdownRef,hl.locks] at hle
      rw [hl.shutdownRef] at hpos
      exact .lost (hn ▸ hn') hl' hle hpos
  | lost hn hl hle hpos =>
    cases h' with
    | same hl' hn' =>
      refine .lost (hn'.symm ▸ hn) (hl'.locks.trans hl) ?_ ?_ <;> rw [hl'.shutdownRef]
      · exact hle
      · exact hpos
    | lost hn' hl' hle' hpos' =>
      rw [hl] at hle'
      exact .lost (hn.trans hn') hl' (hle.trans (by simpa using hle')) fun h => hpos' (hpos h)

end World.Unlocks

theorem Change.locks (h : Change w w') : w.SameLocks w' := by
  cases h with
  | call hd => exact locks_of_mild hd.mild
  | send _ command _ hs => exact (sendRaw_outputs hs).locks
  | addChannel name _ =>
    obtain ⟨_,_,_,_,_,he⟩ := addChannel_shape name w
    rw [he]
    exact ⟨rfl,rfl⟩
  | _ => exact ⟨rfl,rfl⟩

theorem locks_of_changes (h : ReflTransGen Change w w') : w.SameLocks w' :=
  Effects.invariant (I := w.SameLocks) (fun _ _ ht hs => ht.trans hs.locks) (.refl w) h

theorem Received.locks (h : Received w w') : w.SameLocks w' := by
  cases h with
  | change hc => exact hc.locks
  | _ => exact ⟨rfl,rfl⟩

theorem locks_of_received (h : ReflTransGen Received w w') : w.SameLocks w' :=
  Effects.invariant (I := w.SameLocks) (fun _ _ ht hs => ht.trans hs.locks) (.refl w) h

/-- While `disconnected` is raised, all that is registered is still to be visited, and what has
been visited has given its lock back. -/
structure World.Returns (w : World) (k : ℕ) (t : World) : Prop where
  ahead : t.server.disconnected.countFrom k () .shutdownok 0 = t.locks
  shutdownRef : w.service.shutdownRef - w.locks ≤ t.service.shutdownRef - t.locks
  nonneg : 0 ≤ w.service.shutdownRef → 0 ≤ t.service.shutdownRef

theorem shutdownok_disconnected (w : World) :
    (IrcBot.shutdownok w).server.disconnected = w.server.disconnected.unregister () .shutdownok 0 := by
  unfold IrcBot.shutdownok Service.shutdownUnlock
  split <;> rfl

theorem shutdownok_locks (w : World) : (IrcBot.shutdownok w).locks = w.locks - 1 := by
  rw [World.locks,shutdownok_disconnected,Event.count_unregister_self]
  rfl

theorem shutdownok_shutdownRef (w : World) : (IrcBot.shutdownok w).service.shutdownRef =
    if w.service.shutdownRef > 0 then w.service.shutdownRef - 1 else w.service.shutdownRef := by
  unfold IrcBot.shutdownok Service.shutdownUnlock
  split <;> rfl

theorem World.Returns.passed {t : World} {k : ℕ} {slot : EvHandler Unit LogoutHandler} (h : w.Returns k t)
    (hslot : t.server.disconnected.handlers[k]? = some slot)
    (hm : Event.Matches () LogoutHandler.shutdownok 0 slot = false) :
    t.server.disconnected.countFrom (k + 1) () .shutdownok 0 = t.locks := by
  rw [← h.ahead,Event.countFrom_succ hslot,hm]
  rfl

theorem World.Returns.call {t : World} {k : ℕ} {slot : EvHandler Unit LogoutHandler} {handler : LogoutHandler}
    (h : w.Returns k t) (hslot : t.server.disconnected.handlers[k]? = some slot) (hh : slot.handler = some handler)
    (hid : slot.id = 0) : Meets (w.Returns (k + 1)) (fun _ => True) ((fun h w =>
      match h with
      | .disconnected chan => IrcChannel.disconnected chan w
      | .shutdownok => .ok (IrcBot.shutdownok w) : LogoutHandler → World → Run) handler t) := by
  cases handler with
  | disconnected d =>
    dsimp only
    cases hd : IrcChannel.disconnected d t with
    | error e => trivial
    | ok u =>
      obtain ⟨hevent,href⟩ := IrcChannel.disconnected_event hd
      have hne : LogoutHandler.disconnected d ≠ .shutdownok := by simp
      have hlocks : u.locks = t.locks := by
        rw [World.locks,hevent,Event.count_unregister_ne _ hne]
        rfl
      refine ⟨?_,by rw [href,hlocks]; exact h.shutdownRef,by rw [href]; exact h.nonneg⟩
      rw [hevent,Event.countFrom_unregister_ne _ hne,hlocks]
      exact h.passed hslot (by simp [Event.Matches,hh])
  | shutdownok =>
    have hm : Event.Matches () LogoutHandler.shutdownok 0 slot := by simp [Event.Matches,hh,hid]
    have hahead : t.server.disconnected.countFrom (k + 1) () .shutdownok 0 + 1 = t.locks := by
      rw [← h.ahead,Event.countFrom_succ hslot,if_pos hm]
    have href := h.shutdownRef
    have hnonneg := h.nonneg
    refine ⟨?_,?_,?_⟩
    · rw [shutdownok_disconnected,Event.countFrom_unregister_visited hslot hm,shutdownok_locks]
      omega
    · rw [shutdownok_locks,shutdownok_shutdownRef]
      split <;> omega
    · rw [shutdownok_shutdownRef]
      split <;> omega

/-- The end of a connection gives back every lock of the server. -/
theorem raiseDisconnected_returns {t : World} (h : IrcServer.raiseDisconnected w = .ok t) :
    t.locks = 0 ∧ w.service.shutdownRef - w.locks ≤ t.service.shutdownRef ∧
      (0 ≤ w.service.shutdownRef → 0 ≤ t.service.shutdownRef) := by
  have hrun : Meets (fun t => ∃ k, w.Returns k t ∧ t.server.disconnected.handlers[k]? = none) (fun _ => True)
      (IrcServer.raiseDisconnected w) := by
    refine Event.raiseFrom_spec (J := w.Returns) (fun k t slot ht hslot hno => ?_)
      (fun _ _ _ _ ht hslot hh hid => ht.call hslot hh hid) (fun _ => trivial)
      ⟨Event.countFrom_zero _ _ _ _,le_refl _,fun h => h⟩
    refine ⟨ht.passed hslot ?_,ht.shutdownRef,ht.nonneg⟩
    rcases hno with hno | hno <;> simp [Event.Matches,hno]
  rw [h] at hrun
  obtain ⟨k,ht,hend⟩ := hrun
  have hlocks : t.locks = 0 := ht.ahead.symm.trans (Event.countFrom_end hend () .shutdownok 0)
  have href := ht.shutdownRef
  rw [hlocks] at href
  exact ⟨hlocks,by simpa using href,ht.nonneg⟩

end LibIrcBot
