import LibIrcBot.System.Readiness
import LibIrcBot.System.Output
import Mathlib.Data.Finset.Card

/-! # Every ready descriptor is served

The bound `nfds` is above all watched descriptors, whatever is registered while a loop
runs, so that a loop that stops at it leaves out only descriptors that nobody watches.
-/
namespace LibIrcBot
namespace Watch

/-- The counters count, and all watched descriptors are below `nfds`. -/
structure Bounded (w : Watch) : Prop where
  count : ∀ set, w.count set = (w.fds set).card
  below : ∀ fd, w.Watched fd → fd < w.nfds

variable {w : Watch} {fd id : ℕ} {set : FdSet}

theorem watched_iff : w.Watched fd ↔ ∃ set, fd ∈ w.fds set := by
  constructor
  · rintro (h | h)
    · exact ⟨.read,h⟩
    · exact ⟨.write,h⟩
  · rintro ⟨set,h⟩
    cases set with
    | read => exact .inl h
    | write => exact .inr h

theorem init_bounded : Bounded init := by
  constructor
  · exact fun _ => rfl
  · rintro fd (h | h)
    · exact absurd h (Finset.notMem_empty fd)
    · exact absurd h (Finset.notMem_empty fd)

/-- The scan comes to a bound of the watched descriptors up to its start. -/
theorem lt_scan (h : w.Watched fd) (hle : fd ≤ id) : fd < w.scan id := by
  induction id with
  | zero =>
    have hfd : fd = 0 := Nat.le_zero.mp hle
    subst hfd
    rw [scan,if_pos h]
    exact Nat.zero_lt_one
  | succ id ih =>
    rw [scan]
    by_cases hid : w.Watched (id + 1)
    · rw [if_pos hid]
      omega
    · rw [if_neg hid]
      have hne : fd ≠ id + 1 := fun he => hid (he ▸ h)
      exact ih (by omega)

/-- The counters alone say whether any descriptor is watched. -/
theorem not_watched_of_count (hc : ∀ set, w.count set = (w.fds set).card)
    (h : w.count .read = 0 ∧ w.count .write = 0) : ¬ w.Watched fd := by
  have hempty : ∀ set, w.count set = 0 → w.fds set = ∅ := by
    intro set hz
    rw [hc set] at hz
    exact Finset.card_eq_zero.mp (by exact_mod_cast hz)
  rintro (hfd | hfd)
  · rw [hempty .read h.1] at hfd
    exact Finset.notMem_empty fd hfd
  · rw [hempty .write h.2] at hfd
    exact Finset.notMem_empty fd hfd

theorem tryReduceNfds_bounded (h : w.Bounded) (id : ℕ) : (w.tryReduceNfds id).Bounded := by
  unfold tryReduceNfds
  by_cases hc : w.count .read = 0 ∧ w.count .write = 0
  · rw [if_pos hc]
    exact ⟨h.count,fun fd hfd => absurd hfd (not_watched_of_count h.count hc)⟩
  · rw [if_neg hc]
    by_cases hid : id + 1 ≥ w.nfds
    · rw [if_pos hid]
      refine ⟨h.count,fun fd hfd => lt_scan hfd ?_⟩
      have hlt := h.below fd hfd
      omega
    · rw [if_neg hid]
      exact h

theorem register_bounded (h : w.Bounded) (set : FdSet) (id : ℕ) : (w.register set id).Bounded := by
  unfold register
  by_cases hin : id ∈ w.fds set
  · rw [if_pos hin]
    exact h
  · rw [if_neg hin]
    constructor
    · intro other
      by_cases he : other = set
      · subst he
        simp only [Function.update_self]
        rw [Finset.card_insert_of_notMem hin,h.count]
        push_cast
        rfl
      · simp only [Function.update_of_ne he]
        exact h.count other
    · intro fd hfd
      obtain ⟨other,hfd⟩ := watched_iff.mp hfd
      have hold : fd = id ∨ w.Watched fd := by
        by_cases he : other = set
        · subst he
          simp only [Function.update_self,Finset.mem_insert] at hfd
          exact hfd.imp_right fun h => watched_iff.mpr ⟨_,h⟩
        · simp only [Function.update_of_ne he] at hfd
          exact .inr (watched_iff.mpr ⟨_,hfd⟩)
      dsimp only
      rcases hold with rfl | hold
      · split <;> omega
      · have hlt := h.below fd hold
        split <;> omega

theorem unregister_bounded (h : w.Bounded) (set : FdSet) (id : ℕ) : (w.unregister set id).Bounded := by
  unfold unregister
  by_cases hin : id ∉ w.fds set
  · rw [if_pos hin]
    exact h
  · rw [if_neg hin]
    refine tryReduceNfds_bounded ⟨fun other => ?_,fun fd hfd => ?_⟩ id
    · by_cases he : other = set
      · subst he
        have hpos : 0 < (w.fds other).card := Finset.card_pos.mpr ⟨id,not_not.mp hin⟩
        simp only [Function.update_self]
        rw [Finset.card_erase_of_mem (not_not.mp hin),h.count]
        omega
      · simp only [Function.update_of_ne he]
        exact h.count other
    · obtain ⟨other,hfd⟩ := watched_iff.mp hfd
      refine h.below fd (watched_iff.mpr ⟨other,?_⟩)
      by_cases he : other = set
      · subst he
        simp only [Function.update_self] at hfd
        exact Finset.mem_of_mem_erase hfd
      · simpa only [Function.update_of_ne he] using hfd

theorem Bounded.step (h : w.Bounded) (call : Call) : (w.step call).Bounded := by
  cases call with
  | registerRead id => exact register_bounded h .read id
  | unregisterRead id => exact unregister_bounded h .read id
  | registerWrite id => exact register_bounded h .write id
  | unregisterWrite id => exact unregister_bounded h .write id

theorem Bounded.run (h : w.Bounded) (calls : List Call) : (w.run calls).Bounded := by
  induction calls generalizing w with
  | nil => exact h
  | cons call calls ih => exact ih (h.step call)

theorem mem_register (w : Watch) (set other : FdSet) (id fd : ℕ) :
    fd ∈ (w.register set id).fds other ↔ (other = set ∧ fd = id) ∨ fd ∈ w.fds other := by
  unfold register
  by_cases he : other = set
  · subst he
    by_cases hin : id ∈ w.fds other
    · rw [if_pos hin]
      exact ⟨.inr,fun h => h.elim (fun h => h.2 ▸ hin) fun h => h⟩
    · rw [if_neg hin]
      simp
  · by_cases hin : id ∈ w.fds set
    · simp [hin,he]
    · simp [hin,he]

theorem mem_unregister (w : Watch) (set other : FdSet) (id fd : ℕ) :
    fd ∈ (w.unregister set id).fds other ↔ fd ∈ w.fds other ∧ ¬ (other = set ∧ fd = id) := by
  have hreduce : ∀ (w : Watch) (id : ℕ), (w.tryReduceNfds id).fds = w.fds := by
    intro w id
    unfold tryReduceNfds
    split
    · rfl
    · split <;> rfl
  unfold unregister
  by_cases hin : id ∉ w.fds set
  · rw [if_pos hin]
    refine ⟨fun h => ⟨h,?_⟩,fun h => h.1⟩
    rintro ⟨rfl,rfl⟩
    exact hin h
  · rw [if_neg hin,hreduce]
    by_cases he : other = set
    · subst he
      simp [and_comm]
    · simp [he]

/-- The descriptor sets are those of a state of the whole system. -/
structure Shows (watch : Watch) (w : World) : Prop where
  read : ∀ fd : ℕ, w.service.readfds fd = decide (fd ∈ watch.fds .read)
  write : ∀ fd : ℕ, w.service.writefds fd = decide (fd ∈ watch.fds .write)

def Call.act : Call → World → World
  | .registerRead id => Service.registerRead id
  | .unregisterRead id => Service.unregisterRead id
  | .registerWrite id => Service.registerWrite id
  | .unregisterWrite id => Service.unregisterWrite id

theorem update_cast (f : ℤ → Bool) (id fd : ℕ) (b : Bool) :
    Function.update f (id : ℤ) b (fd : ℤ) = if fd = id then b else f fd := by
  by_cases he : fd = id
  · rw [he,Function.update_self,if_pos rfl]
  · rw [Function.update_of_ne (by exact_mod_cast he),if_neg he]

theorem Shows.step {world : World} (h : w.Shows world) (call : Call) : (w.step call).Shows (call.act world) := by
  have hr := h.read
  have hw := h.write
  cases call with
  | registerRead id =>
    refine ⟨fun fd => (update_cast ..).trans ?_,fun fd => (hw fd).trans ?_⟩
    · rw [hr]
      simp [Watch.step,Watch.registerRead,mem_register]
    · simp [Watch.step,Watch.registerRead,mem_register]
  | unregisterRead id =>
    refine ⟨fun fd => (update_cast ..).trans ?_,fun fd => (hw fd).trans ?_⟩
    · rw [hr]
      by_cases he : fd = id <;> simp [Watch.step,Watch.unregisterRead,mem_unregister,he]
    · simp [Watch.step,Watch.unregisterRead,mem_unregister]
  | registerWrite id =>
    refine ⟨fun fd => (hr fd).trans ?_,fun fd => (update_cast ..).trans ?_⟩
    · simp [Watch.step,Watch.registerWrite,mem_register]
    · rw [hw]
      simp [Watch.step,Watch.registerWrite,mem_register]
  | unregisterWrite id =>
    refine ⟨fun fd => (hr fd).trans ?_,fun fd => (update_cast ..).trans ?_⟩
    · simp [Watch.step,Watch.unregisterWrite,mem_unregister]
    · rw [hw]
      by_cases he : fd = id <;> simp [Watch.step,Watch.unregisterWrite,mem_unregister,he]

end Watch

namespace Dispatch
variable {handlers : List ReadyFd → List Watch.Call} {set : FdSet} {ready : Finset ℕ}

/-- What a loop has done from a descriptor on: `fds` were raised in increasing order, and the other ready ones are
watched by nobody when it ends. -/
structure Serves (set : FdSet) (ready : Finset ℕ) (i : ℕ) (s t : Dispatch) (fds : List ℕ) : Prop where
  raised : t.raised = s.raised ++ fds.map (set,·)
  sorted : fds.Pairwise (· < ·)
  found : ∀ fd ∈ fds, fd ∈ ready ∧ i ≤ fd
  complete : ∀ fd ∈ ready, i ≤ fd → fd ∈ fds ∨ ¬ t.watch.Watched fd
  src : t.src = s.src - fds.length
  bounded : t.watch.Bounded

theorem filter_ready (ready : Finset ℕ) (i : ℕ) :
    (ready.filter (i ≤ ·)).card = (ready.filter (i + 1 ≤ ·)).card + if i ∈ ready then 1 else 0 := by
  by_cases hi : i ∈ ready
  · have hsplit : ready.filter (i ≤ ·) = insert i (ready.filter (i + 1 ≤ ·)) := by
      ext fd
      simp only [Finset.mem_filter,Finset.mem_insert]
      constructor
      · rintro ⟨hfd,hle⟩
        rcases Nat.eq_or_lt_of_le hle with he | hlt
        · exact .inl he.symm
        · exact .inr ⟨hfd,hlt⟩
      · rintro (rfl | ⟨hfd,hlt⟩)
        · exact ⟨hi,le_rfl⟩
        · exact ⟨hfd,Nat.le_of_lt hlt⟩
    rw [hsplit,Finset.card_insert_of_notMem (by simp),if_pos hi]
  · rw [if_neg hi,Nat.add_zero]
    congr 1
    refine Finset.filter_congr fun fd hfd => ?_
    have hne : fd ≠ i := fun he => hi (he ▸ hfd)
    omega

/-- The countdown does not end before all ready descriptors have been seen. -/
theorem loop_serves (handlers : List ReadyFd → List Watch.Call) (set : FdSet) (ready : Finset ℕ) (i : ℕ)
    (s : Dispatch) (hb : s.watch.Bounded) (hsrc : ((ready.filter (i ≤ ·)).card : ℤ) ≤ s.src) :
    ∃ fds, Serves set ready i s (s.loop handlers set ready i) fds := by
  have hcount := filter_ready ready i
  induction i, s using loop.induct handlers set ready with
  | case1 i s h hi ih =>
    rw [if_pos hi] at hcount
    have hleft : ((ready.filter (i + 1 ≤ ·)).card : ℤ) ≤ (s.raise handlers (set,i)).src := by
      change _ ≤ s.src - 1
      omega
    obtain ⟨fds,hs⟩ := ih (hb.run _) hleft (filter_ready ready (i + 1))
    rw [loop,dif_pos h,if_pos hi]
    refine ⟨i :: fds,?_,?_,?_,?_,?_,hs.bounded⟩
    · rw [hs.raised]
      exact List.append_assoc ..
    · exact List.pairwise_cons.mpr ⟨fun fd hfd => (hs.found fd hfd).2,hs.sorted⟩
    · intro fd hfd
      rcases List.mem_cons.mp hfd with rfl | hfd
      · exact ⟨hi,le_rfl⟩
      · obtain ⟨hready,hle⟩ := hs.found fd hfd
        exact ⟨hready,Nat.le_of_lt hle⟩
    · intro fd hfd hle
      rcases Nat.eq_or_lt_of_le hle with rfl | hlt
      · exact .inl List.mem_cons_self
      · exact (hs.complete fd hfd hlt).imp_left (List.mem_cons_of_mem _)
    · rw [hs.src,List.length_cons]
      change s.src - 1 - _ = _
      push_cast
      omega
  | case2 i s h hi ih =>
    rw [if_neg hi] at hcount
    obtain ⟨fds,hs⟩ := ih hb (by omega) (filter_ready ready (i + 1))
    rw [loop,dif_pos h,if_neg hi]
    refine ⟨fds,hs.raised,hs.sorted,?_,?_,hs.src,hs.bounded⟩
    · intro fd hfd
      obtain ⟨hready,hle⟩ := hs.found fd hfd
      exact ⟨hready,Nat.le_of_lt hle⟩
    · intro fd hfd hle
      have hne : i ≠ fd := fun he => hi (he ▸ hfd)
      exact hs.complete fd hfd (Nat.lt_of_le_of_ne hle hne)
  | case3 i s h =>
    rw [loop,dif_neg h]
    refine ⟨[],(List.append_nil _).symm,.nil,nofun,fun fd hfd hle => .inr fun hw => ?_,(Int.sub_zero _).symm,hb⟩
    have hlt := hb.below fd hw
    have hpos : 0 < (ready.filter (i ≤ ·)).card := Finset.card_pos.mpr ⟨fd,Finset.mem_filter.mpr ⟨hfd,hle⟩⟩
    exact h ⟨by omega,by omega⟩

/-- A loop that is left out, as the set was empty before `pselect`, has nothing to do. -/
theorem guarded_serves {s : Dispatch} {w : Watch} (hw : w.Bounded) (hsub : ready ⊆ w.fds set) (hb : s.watch.Bounded)
    (hsrc : (ready.card : ℤ) ≤ s.src) : ∃ fds, Serves set ready 0 s
      (if w.count set ≠ 0 then s.loop handlers set ready 0 else s) fds := by
  by_cases hc : w.count set ≠ 0
  · rw [if_pos hc]
    refine loop_serves handlers set ready 0 s hb ?_
    rwa [Finset.filter_true_of_mem fun fd _ => Nat.zero_le fd]
  · have hzero : (w.fds set).card = 0 := by
      have hcount := hw.count set
      rw [not_not.mp hc] at hcount
      exact_mod_cast hcount.symm
    have hempty : ready = ∅ := Finset.subset_empty.mp (Finset.card_eq_zero.mp hzero ▸ hsub)
    rw [if_neg hc,hempty]
    exact ⟨[],(List.append_nil _).symm,.nil,nofun,fun fd hfd => absurd hfd (Finset.notMem_empty fd),
      (Int.sub_zero _).symm,hb⟩

theorem Serves.length_le {i : ℕ} {s t : Dispatch} {fds : List ℕ} (h : Serves set ready i s t fds) :
    fds.length ≤ ready.card := by
  have hnodup : fds.Nodup := h.sorted.imp fun hlt => Nat.ne_of_lt hlt
  rw [← List.toFinset_card_of_nodup hnodup]
  exact Finset.card_le_card fun fd hfd => (h.found fd (List.mem_toFinset.mp hfd)).1

/-- In an iteration that `pselect` returns to with some of the watched descriptors, whatever was registered before and
whatever the handlers register and unregister: first ready descriptors to write to are raised, then ready ones to read
from, each once and in increasing order; one that is left out is in neither set when its loop ends. -/
theorem iteration_complete (before : List Watch.Call) (handlers : List ReadyFd → List Watch.Call)
    (wfds rfds : Finset ℕ) (hw : wfds ⊆ (Watch.init.run before).fds .write)
    (hr : rfds ⊆ (Watch.init.run before).fds .read) :
    ∃ writes reads : List ℕ, writes.Pairwise (· < ·) ∧ reads.Pairwise (· < ·) ∧
      let (written,read) := iteration handlers wfds rfds (Watch.init.run before)
      written.raised = writes.map (.write,·) ∧ read.raised = writes.map (.write,·) ++ reads.map (.read,·) ∧
        (∀ fd ∈ writes, fd ∈ wfds) ∧ (∀ fd ∈ reads, fd ∈ rfds) ∧
        (∀ fd ∈ wfds, fd ∈ writes ∨ ¬ written.watch.Watched fd) ∧
        ∀ fd ∈ rfds, fd ∈ reads ∨ ¬ read.watch.Watched fd := by
  have hb := Watch.init_bounded.run before
  obtain ⟨writes,hs⟩ := @guarded_serves handlers _ _ ⟨Watch.init.run before,wfds.card + rfds.card,[]⟩ _
    hb hw hb (Int.le_add_of_nonneg_right (Int.natCast_nonneg _))
  have hleft : (rfds.card : ℤ) ≤ wfds.card + rfds.card - writes.length := by
    have hlen := hs.length_le
    omega
  obtain ⟨reads,hs'⟩ := @guarded_serves handlers _ _ _ _ hb hr hs.bounded (hleft.trans_eq hs.src.symm)
  have hraised : (iteration handlers wfds rfds (Watch.init.run before)).1.raised = writes.map (.write,·) :=
    hs.raised.trans (List.nil_append _)
  refine ⟨writes,reads,hs.sorted,hs'.sorted,hraised,hs'.raised.trans (congrArg (· ++ _) hraised),
    fun fd hfd => (hs.found fd hfd).1,fun fd hfd => (hs'.found fd hfd).1,
    fun fd hfd => hs.complete fd hfd (Nat.zero_le fd),fun fd hfd => hs'.complete fd hfd (Nat.zero_le fd)⟩

theorem iteration_complete_unregistering :
    let before : List Watch.Call := [.registerRead 3,.registerWrite 3,.registerRead 7]
    let handlers : List ReadyFd → List Watch.Call := fun raised => if raised = [(.write,3)] then [.unregisterRead 7] else []
    let (written,read) := iteration handlers {3} {3,7} (Watch.init.run before)
    ∃ writes reads : List ℕ, (∀ fd ∈ writes, fd ∈ ({3} : Finset ℕ)) ∧ (∀ fd ∈ reads, fd ∈ ({3,7} : Finset ℕ)) ∧
      written.raised = writes.map (.write,·) ∧ read.raised = writes.map (.write,·) ++ reads.map (.read,·) ∧
      (7 ∈ reads ∨ ¬ read.watch.Watched 7) := by
  intro before handlers
  obtain ⟨writes,reads,_,_,hw,hr,hw',hr',_,hcomplete⟩ :=
    iteration_complete before handlers {3} {3,7} (by decide) (by decide)
  exact ⟨writes,reads,hw',hr',hw,hr,hcomplete 7 (by decide)⟩

end Dispatch
end LibIrcBot
