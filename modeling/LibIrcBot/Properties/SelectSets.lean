import LibIrcBot.Properties.ReadinessDispatch
import Mathlib.Order.Bounds.Basic

/-! # The arguments of `pselect`

Every descriptor below `nfds` is in front of a watched one, so that together with the bound of the
dispatch loops `nfds` is exact. A descriptor that leaves its set is scanned down from only if nothing
above it is watched, which the old `nfds` says.
-/
namespace LibIrcBot.Watch
variable {w : Watch} {fd id : ℕ} {set : FdSet}

def Attained (w : Watch) : Prop := w.nfds ≠ 0 → ∃ fd, w.Watched fd ∧ w.nfds = fd + 1

/-- The counters count the sets, and `nfds` is one above the largest descriptor in them, or 0 if they are empty. -/
structure Exact (w : Watch) : Prop where
  nread : w.count .read = (w.fds .read).card
  nwrite : w.count .write = (w.fds .write).card
  empty : w.fds .read = ∅ → w.fds .write = ∅ → w.nfds = 0
  largest : ∀ fd, IsGreatest {fd | w.Watched fd} fd → w.nfds = fd + 1

theorem Bounded.exact (h : w.Bounded) (ha : w.Attained) : w.Exact where
  nread := h.count .read
  nwrite := h.count .write
  empty hr hw := by
    by_contra hne
    obtain ⟨fd,hfd,-⟩ := ha hne
    rcases hfd with hfd | hfd
    · rw [hr] at hfd
      exact Finset.notMem_empty fd hfd
    · rw [hw] at hfd
      exact Finset.notMem_empty fd hfd
  largest fd hfd := by
    have hlt : fd < w.nfds := h.below fd hfd.1
    obtain ⟨top,htop,hn⟩ := ha (Nat.ne_zero_of_lt hlt)
    have hle : top ≤ fd := hfd.2 htop
    omega

theorem init_attained : init.Attained := fun h => absurd rfl h

theorem scan_attained (hn : w.scan id ≠ 0) : ∃ fd, w.Watched fd ∧ w.scan id = fd + 1 := by
  induction id with
  | zero =>
    rw [scan] at hn ⊢
    by_cases h : w.Watched 0
    · rw [if_pos h]
      exact ⟨0,h,rfl⟩
    · exact absurd (if_neg h) hn
  | succ id ih =>
    rw [scan] at hn ⊢
    by_cases h : w.Watched (id + 1)
    · rw [if_pos h]
      exact ⟨id + 1,h,rfl⟩
    · rw [if_neg h] at hn ⊢
      exact ih hn

/-- An `nfds` that the scan does not change has to be attained above the descriptor that left. -/
theorem tryReduceNfds_attained (h : id + 1 < w.nfds → w.Attained) : (w.tryReduceNfds id).Attained := by
  unfold tryReduceNfds
  by_cases hc : w.count .read = 0 ∧ w.count .write = 0
  · rw [if_pos hc]
    exact fun hn => absurd rfl hn
  · rw [if_neg hc]
    by_cases hid : id + 1 ≥ w.nfds
    · rw [if_pos hid]
      exact scan_attained
    · rw [if_neg hid]
      exact h (Nat.not_le.mp hid)

theorem register_attained (ha : w.Attained) (set : FdSet) (id : ℕ) : (w.register set id).Attained := by
  have hold : ∀ fd, w.Watched fd → (w.register set id).Watched fd := by
    intro fd hfd
    obtain ⟨other,hfd⟩ := watched_iff.mp hfd
    exact watched_iff.mpr ⟨other,(mem_register ..).mpr (.inr hfd)⟩
  have hnew : (w.register set id).Watched id := watched_iff.mpr ⟨set,(mem_register ..).mpr (.inl ⟨rfl,rfl⟩)⟩
  have hnfds : (w.register set id).nfds = w.nfds ∨ (w.register set id).nfds = id + 1 := by
    unfold register
    split
    · exact .inl rfl
    · dsimp only
      split
      · exact .inr rfl
      · exact .inl rfl
  intro hn
  rcases hnfds with he | he
  · rw [he] at hn ⊢
    obtain ⟨fd,hfd,hw⟩ := ha hn
    exact ⟨fd,hold fd hfd,hw⟩
  · exact ⟨id,hnew,he⟩

theorem unregister_attained (ha : w.Attained) (set : FdSet) (id : ℕ) : (w.unregister set id).Attained := by
  unfold unregister
  by_cases hin : id ∉ w.fds set
  · rw [if_pos hin]
    exact ha
  · rw [if_neg hin]
    refine tryReduceNfds_attained fun habove hn => ?_
    obtain ⟨fd,hfd,hw⟩ := ha hn
    obtain ⟨other,hfd⟩ := watched_iff.mp hfd
    have hne : fd ≠ id := by
      dsimp only at habove
      omega
    refine ⟨fd,watched_iff.mpr ⟨other,?_⟩,hw⟩
    by_cases he : other = set
    · subst he
      simpa [hne] using hfd
    · simpa [he] using hfd

theorem Attained.step (ha : w.Attained) (call : Call) : (w.step call).Attained := by
  cases call with
  | registerRead id => exact register_attained ha .read id
  | unregisterRead id => exact unregister_attained ha .read id
  | registerWrite id => exact register_attained ha .write id
  | unregisterWrite id => exact unregister_attained ha .write id

theorem Attained.run (ha : w.Attained) (calls : List Call) : (w.run calls).Attained := by
  induction calls generalizing w with
  | nil => exact ha
  | cons call calls ih => exact ih (ha.step call)

/-- What `pselect` is called with is exact after any registrations, repeated and unmatched ones included. -/
theorem run_exact (calls : List Call) : (init.run calls).Exact :=
  (init_bounded.run calls).exact (init_attained.run calls)

/-- Descriptor 9 is unregistered twice, and 4 stays in the other set. -/
example : (init.run [.registerRead 4,.registerWrite 4,.registerRead 9,.unregisterRead 9,.unregisterRead 9,
    .unregisterRead 4]).nfds = 5 := by decide

end LibIrcBot.Watch
