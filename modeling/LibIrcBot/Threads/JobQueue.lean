import LibIrcBot.Foundations.Ring
import Mathlib.Data.List.Basic

/-! # The queue of waiting jobs

The ring of job pointers of `threadpool.c`. Cancelling a waiting job leaves a hole behind,
which `dequeueJob` skips.
-/
namespace LibIrcBot

abbrev JobId := ℕ

structure JobQueue where
  jobQueue : List (Option JobId)
  queueAvail : ℕ
  nextIdx : ℕ
  lastIdx : ℕ
deriving DecidableEq, Repr

namespace JobQueue

abbrev queuesize (self : JobQueue) : ℕ := self.jobQueue.length

def create (queuesize : ℕ) : JobQueue := ⟨List.replicate queuesize none,queuesize,0,0⟩

def enqueueJob (job : JobId) (self : JobQueue) : ℤ × JobQueue :=
  if self.queueAvail = 0 then (-1,self)
  else (0,{ self with
    jobQueue := self.jobQueue.set self.nextIdx (some job)
    queueAvail := self.queueAvail - 1
    nextIdx := Ring.advance self.queuesize self.nextIdx })

/-- The loop of `dequeueJob`, with a bound on its passes. -/
def dequeueLoop : ℕ → JobQueue → Option JobId × JobQueue
  | 0, self => (none,self)
  | n + 1, self =>
    if self.queueAvail = self.queuesize then (none,self)
    else
      let job := self.jobQueue[self.lastIdx]?.join
      let self := { self with
        jobQueue := self.jobQueue.set self.lastIdx none
        lastIdx := Ring.advance self.queuesize self.lastIdx
        queueAvail := self.queueAvail + 1 }
      match job with
      | some job => (some job,self)
      | none => dequeueLoop n self

def dequeueJob (self : JobQueue) : Option JobId × JobQueue := dequeueLoop self.queuesize self

/-- The loop of `ThreadPool_cancel` over the slots in use, with a bound on its passes. -/
def findLoop (job : JobId) (self : JobQueue) : ℕ → ℕ → Option ℕ
  | 0, _ => none
  | n + 1, i =>
    if self.jobQueue[i]?.join = some job then some i
    else
      let i := Ring.advance self.queuesize i
      if i = self.nextIdx then none else findLoop job self n i

/-- The slot in which `ThreadPool_cancel` finds a waiting job. -/
def findSlot (job : JobId) (self : JobQueue) : Option ℕ :=
  if self.queueAvail = self.queuesize then none else self.findLoop job self.queuesize self.lastIdx

def clear (i : ℕ) (self : JobQueue) : JobQueue := { self with jobQueue := self.jobQueue.set i none }

def used (self : JobQueue) : ℕ := self.queuesize - self.queueAvail

/-- The slots in use follow each other from `lastIdx` to `nextIdx`, and all others are empty. -/
structure Wf (q : JobQueue) : Prop where
  avail : q.queueAvail ≤ q.queuesize
  last : q.lastIdx < q.queuesize ∨ q.queuesize = 0
  next : q.nextIdx = (q.lastIdx + q.used) % q.queuesize
  empty : ∀ i, i < q.queuesize → (∀ k < q.used, (q.lastIdx + k) % q.queuesize ≠ i) → q.jobQueue[i]? = some none

variable {q : JobQueue} {job : JobId}

theorem create_queuesize (queuesize : ℕ) : (create queuesize).queuesize = queuesize := List.length_replicate

theorem create_wf (queuesize : ℕ) : (create queuesize).Wf := by
  have hused : (create queuesize).used = 0 := by rw [used,create_queuesize]; exact Nat.sub_self _
  refine ⟨le_of_eq (create_queuesize queuesize).symm,?_,?_,fun i hi _ => ?_⟩
  · rw [create_queuesize]
    exact (Nat.eq_zero_or_pos queuesize).symm
  · rw [hused]
    exact (Nat.zero_mod _).symm
  · rw [create_queuesize] at hi
    simp [create,hi]

/-- What `enqueueJob` does when it accepts the job. -/
theorem enqueueJob_eq (ha : q.queueAvail ≠ 0) (job : JobId) : q.enqueueJob job = (0,{ q with
    jobQueue := q.jobQueue.set q.nextIdx (some job)
    queueAvail := q.queueAvail - 1
    nextIdx := Ring.advance q.queuesize q.nextIdx }) := if_neg ha

namespace Wf

theorem next_lt (h : q.Wf) (ha : q.queueAvail ≠ 0) : q.nextIdx < q.queuesize := by
  have hle := h.avail
  rw [h.next]
  exact Nat.mod_lt _ (by omega)

/-- The slot that the next job is written to is empty. -/
theorem next_empty (h : q.Wf) (ha : q.queueAvail ≠ 0) : q.jobQueue[q.nextIdx]? = some none := by
  have hle := h.avail
  refine h.empty _ (h.next_lt ha) fun k hk => ?_
  rw [h.next]
  exact Ring.slot_ne hk (by unfold used; omega)

theorem enqueue (h : q.Wf) (ha : q.queueAvail ≠ 0) (job : JobId) : (q.enqueueJob job).2.Wf := by
  have hle := h.avail
  have hlt := h.next_lt ha
  have hused : q.queuesize - (q.queueAvail - 1) = q.used + 1 := by unfold used; omega
  rw [enqueueJob_eq ha]
  refine ⟨?_,?_,?_,fun i hi hout => ?_⟩
  · simp only [queuesize,List.length_set] at hle ⊢
    omega
  · simpa only [queuesize,List.length_set] using h.last
  · simp only [used,queuesize,List.length_set] at hused ⊢
    rw [hused,Ring.advance_eq hlt,h.next,Nat.mod_add_mod,Nat.add_assoc]
    rfl
  · simp only [used,queuesize,List.length_set] at hi hout hused ⊢
    rw [hused] at hout
    have hne : q.nextIdx ≠ i := h.next ▸ hout q.used (Nat.lt_succ_self _)
    rw [List.getElem?_set_ne hne]
    exact h.empty i hi fun k hk => hout k (Nat.lt_succ_of_lt hk)

theorem clear (h : q.Wf) (i : ℕ) : (q.clear i).Wf := by
  have hsize : (q.clear i).queuesize = q.queuesize := List.length_set
  have hused : (q.clear i).used = q.used := by rw [used,hsize]; rfl
  refine ⟨hsize ▸ h.avail,hsize ▸ h.last,?_,fun k hk hout => ?_⟩
  · rw [hused,hsize]
    exact h.next
  · rw [hsize] at hk
    rw [hused,hsize] at hout
    change (q.jobQueue.set i none)[k]? = some none
    by_cases he : i = k
    · rw [he,List.getElem?_set_self hk]
    · rw [List.getElem?_set_ne he]
      exact h.empty k hk hout

/-- One pass of `dequeueJob`. -/
theorem pass (h : q.Wf) (ha : q.queueAvail ≠ q.queuesize) : Wf { q with
    jobQueue := q.jobQueue.set q.lastIdx none
    lastIdx := Ring.advance q.queuesize q.lastIdx
    queueAvail := q.queueAvail + 1 } := by
  have hle := h.avail
  have hlast : q.lastIdx < q.queuesize := by
    rcases h.last with hl | hl
    · exact hl
    · omega
  have hused : q.queuesize - (q.queueAvail + 1) + 1 = q.used := by unfold used; omega
  have hshift : ∀ k, (Ring.advance q.queuesize q.lastIdx + k) % q.queuesize = (q.lastIdx + (k + 1)) % q.queuesize := by
    intro k
    rw [Ring.advance_eq hlast,Nat.mod_add_mod]
    congr 1
    omega
  refine ⟨?_,?_,?_,fun i hi hout => ?_⟩
  · simp only [queuesize,List.length_set] at hle ha ⊢
    omega
  · simp only [queuesize,List.length_set]
    exact .inl (Ring.advance_lt hlast)
  · simp only [used,queuesize,List.length_set] at hused hshift ⊢
    rw [hshift,hused]
    exact h.next
  · simp only [used,queuesize,List.length_set] at hi hout hused hshift ⊢
    by_cases he : q.lastIdx = i
    · rw [he,List.getElem?_set_self hi]
    · rw [List.getElem?_set_ne he]
      refine h.empty i hi fun k hk => ?_
      cases k with
      | zero => rwa [Nat.add_zero,Nat.mod_eq_of_lt hlast]
      | succ k =>
        rw [← hshift]
        exact hout k (by simp only [used,queuesize] at hk; omega)

end Wf

def slots (q : JobQueue) (job : JobId) : ℕ := q.jobQueue.count (some job)

theorem create_slots (queuesize : ℕ) (job : JobId) : (create queuesize).slots job = 0 := by
  simp [slots,create,List.count_replicate]

/-- A slot that holds a job may be emptied, one that is empty may be given a job. -/
theorem count_set_none {l : List (Option JobId)} {i : ℕ} (h : l[i]?.join = some job) (j : JobId) :
    (l.set i none).count (some j) + (if job = j then 1 else 0) = l.count (some j) := by
  cases hi : l[i]? with
  | none => simp [hi] at h
  | some x =>
    obtain ⟨hlt,hx⟩ := List.getElem?_eq_some_iff.mp hi
    have hjob : l[i] = some job := by
      rw [hi] at h
      exact hx.trans h
    rw [List.count_set hlt,hjob]
    by_cases hj : job = j
    · subst hj
      have hpos : 0 < l.count (some job) := List.count_pos_iff.mpr (hjob ▸ List.getElem_mem hlt)
      simp
      omega
    · simp [hj]

theorem count_set_empty {l : List (Option JobId)} {i : ℕ} (h : l[i]? = some none) (job j : JobId) :
    (l.set i (some job)).count (some j) = l.count (some j) + if job = j then 1 else 0 := by
  obtain ⟨hlt,hx⟩ := List.getElem?_eq_some_iff.mp h
  rw [List.count_set hlt,hx]
  simp

theorem count_set_hole {l : List (Option JobId)} {i : ℕ} (h : l[i]?.join = none) (j : JobId) :
    (l.set i none).count (some j) = l.count (some j) := by
  cases hi : l[i]? with
  | none => rw [List.set_eq_of_length_le (List.getElem?_eq_none_iff.mp hi)]
  | some x =>
    obtain ⟨hlt,hx⟩ := List.getElem?_eq_some_iff.mp hi
    have hnone : l[i] = none := by
      rw [hi] at h
      exact hx.trans h
    rw [List.count_set hlt,hnone]
    simp

theorem enqueueJob_slots (h : q.Wf) (ha : q.queueAvail ≠ 0) (job j : JobId) :
    (q.enqueueJob job).2.slots j = q.slots j + if job = j then 1 else 0 := by
  rw [enqueueJob_eq ha]
  exact count_set_empty (h.next_empty ha) job j

theorem clear_slots {i : ℕ} (h : q.jobQueue[i]?.join = some job) (j : JobId) :
    (q.clear i).slots j + (if job = j then 1 else 0) = q.slots j := count_set_none h j

/-- A queue of which no slot is in use holds no job. -/
theorem Wf.slots_zero (h : q.Wf) (hu : q.used = 0) (j : JobId) : q.slots j = 0 := by
  refine List.count_eq_zero.mpr fun hmem => ?_
  obtain ⟨i,hi⟩ := List.mem_iff_getElem?.mp hmem
  obtain ⟨hlt,_⟩ := List.getElem?_eq_some_iff.mp hi
  have hnone := h.empty i hlt fun k hk => absurd (hu ▸ hk) (Nat.not_lt_zero k)
  rw [hi] at hnone
  cases hnone

/-- What `dequeueJob` returns has left its slot; it returns nothing only if the queue holds nothing. -/
structure Dequeues (q : JobQueue) (r : Option JobId × JobQueue) : Prop where
  wf : r.2.Wf
  size : r.2.queuesize = q.queuesize
  slots : ∀ j, r.2.slots j + (if r.1 = some j then 1 else 0) = q.slots j
  empty : r.1 = none → ∀ j, q.slots j = 0

theorem dequeueLoop_spec {n : ℕ} (h : q.Wf) (hn : q.used ≤ n) : q.Dequeues (dequeueLoop n q) := by
  induction n generalizing q with
  | zero => exact ⟨h,rfl,fun j => by simp [dequeueLoop],fun _ => h.slots_zero (Nat.le_zero.mp hn)⟩
  | succ n ih =>
    have hle := h.avail
    rw [dequeueLoop]
    by_cases ha : q.queueAvail = q.queuesize
    · rw [if_pos ha]
      exact ⟨h,rfl,fun j => by simp,fun _ => h.slots_zero (by rw [used,ha,Nat.sub_self])⟩
    · rw [if_neg ha]
      have hpass := h.pass ha
      dsimp only
      cases hj : q.jobQueue[q.lastIdx]?.join with
      | some job =>
        refine ⟨hpass,List.length_set,fun j => ?_,nofun⟩
        simpa [slots] using count_set_none hj j
      | none =>
        have hused : (⟨q.jobQueue.set q.lastIdx none,q.queueAvail + 1,q.nextIdx,Ring.advance q.queuesize q.lastIdx⟩ :
            JobQueue).used ≤ n := by
          simp only [used,queuesize,List.length_set] at hn ha hle ⊢
          omega
        have hrest := ih hpass hused
        have hsame := fun j => count_set_hole hj j
        refine ⟨hrest.wf,hrest.size.trans List.length_set,fun j => (hrest.slots j).trans (hsame j),fun hr j => ?_⟩
        exact (hsame j).symm.trans (hrest.empty hr j)

theorem dequeueJob_spec (h : q.Wf) : q.Dequeues q.dequeueJob := dequeueLoop_spec h (Nat.sub_le _ _)

theorem findLoop_found {n i k : ℕ} (h : q.findLoop job n i = some k) : q.jobQueue[k]?.join = some job := by
  induction n generalizing i with
  | zero => cases h
  | succ n ih =>
    rw [findLoop] at h
    dsimp only at h
    split at h
    · next hi =>
      cases h
      exact hi
    · split at h
      · cases h
      · exact ih h

/-- The slot that `ThreadPool_cancel` finds holds the job. -/
theorem findSlot_found {k : ℕ} (h : q.findSlot job = some k) : q.jobQueue[k]?.join = some job := by
  unfold findSlot at h
  split at h
  · cases h
  · exact findLoop_found h

end JobQueue
end LibIrcBot
