import LibIrcBot.Properties.PoolAccounting
import Mathlib.Data.List.Nodup
import Mathlib.Data.List.ReduceOption

/-! # The order of the waiting jobs

The slots in use form a line from `lastIdx` up to `nextIdx`. Jobs join at its end and leave
at its front; a job that is cancelled leaves a hole in the line.
-/
namespace LibIrcBot
namespace JobQueue

def slot (q : JobQueue) (i : ℕ) : Option JobId := q.jobQueue[i]?.join

def line (q : JobQueue) : List (Option JobId) := Ring.window q.slot q.queuesize q.lastIdx q.used

def waiting (q : JobQueue) : List JobId := q.line.reduceOption

variable {q : JobQueue} {job : JobId}

theorem line_length (q : JobQueue) : q.line.length = q.used := Ring.window_length ..

theorem slot_set {i k : ℕ} {x : Option JobId} (hi : i < q.queuesize) :
    (q.jobQueue.set i x)[k]?.join = if i = k then x else q.slot k := by
  by_cases he : i = k
  · subst he
    rw [List.getElem?_set_self hi,if_pos rfl]
    cases x <;> rfl
  · rw [List.getElem?_set_ne he,if_neg he]
    rfl

theorem create_waiting (queuesize : ℕ) : (create queuesize).waiting = [] := by
  have hused : (create queuesize).used = 0 := by rw [used,create_queuesize]; exact Nat.sub_self _
  rw [waiting,line,hused]
  rfl

/-- A queued job joins the line at its end. -/
theorem line_enqueueJob (h : q.Wf) (ha : q.queueAvail ≠ 0) (job : JobId) :
    (q.enqueueJob job).2.line = q.line ++ [some job] := by
  have hle := h.avail
  have hlt := h.next_lt ha
  have hused : q.queuesize - (q.queueAvail - 1) = q.used + 1 := by unfold used; omega
  have hroom : q.used < q.queuesize := by unfold used; omega
  rw [enqueueJob_eq ha]
  simp only [line,used,queuesize,List.length_set] at hused ⊢
  rw [hused]
  refine Ring.window_push hroom ?_ fun i _ hne => ?_
  · rw [← h.next]
    exact (slot_set hlt).trans (if_pos rfl)
  · rw [← h.next] at hne
    exact (slot_set hlt).trans (if_neg (Ne.symm hne))

theorem waiting_enqueueJob (h : q.Wf) (ha : q.queueAvail ≠ 0) (job : JobId) :
    (q.enqueueJob job).2.waiting = q.waiting ++ [job] := by
  rw [waiting,line_enqueueJob h ha,List.reduceOption_append]
  rfl

/-- A pass of `dequeueJob` takes the first slot off the line. -/
theorem line_pass (h : q.Wf) (ha : q.queueAvail ≠ q.queuesize) : q.line = q.slot q.lastIdx :: line { q with
    jobQueue := q.jobQueue.set q.lastIdx none
    lastIdx := Ring.advance q.queuesize q.lastIdx
    queueAvail := q.queueAvail + 1 } := by
  have hle := h.avail
  have hlast : q.lastIdx < q.queuesize := by
    rcases h.last with hl | hl
    · exact hl
    · omega
  have hused : q.used = q.queuesize - (q.queueAvail + 1) + 1 := by unfold used; omega
  rw [line,hused,Ring.window_succ _ _ hlast]
  congr 1
  simp only [line,used,queuesize,List.length_set]
  refine (Ring.window_congr fun j hj => ?_).symm
  have hne : q.lastIdx ≠ (Ring.advance q.queuesize q.lastIdx + j) % q.queuesize := by
    have hsplit : q.lastIdx + 1 + j = q.lastIdx + (j + 1) := by omega
    have hslot := @Ring.slot_ne q.queuesize q.lastIdx _ _ (Nat.succ_pos j)
      (by simp only [queuesize]; omega)
    rw [Nat.add_zero,Nat.mod_eq_of_lt hlast] at hslot
    rw [Ring.advance_eq hlast,Nat.mod_add_mod,hsplit]
    exact hslot
  exact (slot_set hlast).trans (if_neg hne)

theorem dequeueLoop_waiting {n : ℕ} (h : q.Wf) (hn : q.used ≤ n) :
    q.waiting = (dequeueLoop n q).1.toList ++ (dequeueLoop n q).2.waiting ∧
      ((dequeueLoop n q).1 = none → q.waiting = []) := by
  induction n generalizing q with
  | zero =>
    have hnil : q.waiting = [] := by
      rw [waiting,line,Nat.le_zero.mp hn]
      rfl
    exact ⟨by simp [dequeueLoop],fun _ => hnil⟩
  | succ n ih =>
    have hle := h.avail
    rw [dequeueLoop]
    by_cases ha : q.queueAvail = q.queuesize
    · have hnil : q.waiting = [] := by
        rw [waiting,line,used,ha,Nat.sub_self]
        rfl
      rw [if_pos ha]
      exact ⟨by simp,fun _ => hnil⟩
    · rw [if_neg ha]
      have hpass := h.pass ha
      have hline := line_pass h ha
      dsimp only
      cases hj : q.jobQueue[q.lastIdx]?.join with
      | some job =>
        have hslot : q.slot q.lastIdx = some job := hj
        refine ⟨?_,fun hnone => absurd hnone (Option.some_ne_none job)⟩
        rw [waiting,hline,hslot,List.reduceOption_cons_of_some]
        rfl
      | none =>
        have hslot : q.slot q.lastIdx = none := hj
        have hused : (⟨q.jobQueue.set q.lastIdx none,q.queueAvail + 1,q.nextIdx,Ring.advance q.queuesize q.lastIdx⟩ :
            JobQueue).used ≤ n := by
          simp only [used,queuesize,List.length_set] at hn ha hle ⊢
          omega
        have hsame : q.waiting = waiting ⟨q.jobQueue.set q.lastIdx none,q.queueAvail + 1,q.nextIdx,
            Ring.advance q.queuesize q.lastIdx⟩ := by
          rw [waiting,hline,hslot,List.reduceOption_cons_of_none]
          rfl
        rw [hsame]
        exact ih hpass hused

/-- `dequeueJob` returns the first waiting job, and nothing if none waits. -/
theorem dequeueJob_waiting (h : q.Wf) :
    q.dequeueJob.1 = q.waiting.head? ∧ q.dequeueJob.2.waiting = q.waiting.tail := by
  obtain ⟨hw,hnone⟩ := dequeueLoop_waiting h (Nat.sub_le q.queuesize q.queueAvail)
  change q.waiting = q.dequeueJob.1.toList ++ q.dequeueJob.2.waiting at hw
  cases hj : q.dequeueJob.1 with
  | none =>
    have hnil := hnone hj
    rw [hj,hnil,Option.toList_none,List.nil_append] at hw
    rw [hnil,← hw]
    exact ⟨rfl,rfl⟩
  | some job =>
    rw [hj,Option.toList_some,List.singleton_append] at hw
    rw [hw]
    exact ⟨rfl,rfl⟩

/-- The scan of `ThreadPool_cancel` stops in front of `nextIdx`, not earlier. -/
theorem Wf.slot_ne_next (h : q.Wf) {j : ℕ} (hpos : 0 < j) (hj : j < q.used) :
    (q.lastIdx + j) % q.queuesize ≠ q.nextIdx := by
  have hle : q.used ≤ q.queuesize := Nat.sub_le _ _
  rw [h.next]
  rcases Nat.lt_or_eq_of_le hle with hlt | heq
  · exact Ring.slot_ne hj hlt
  · rw [heq,Nat.add_mod_right]
    have hne := @Ring.slot_ne q.queuesize q.lastIdx _ _ hpos (heq ▸ hj)
    rw [Nat.add_zero] at hne
    exact hne.symm

theorem findLoop_line (h : q.Wf) {j k : ℕ} (hjk : j ≤ k) (hk : k < q.used)
    (hjob : q.slot ((q.lastIdx + k) % q.queuesize) = some job)
    (hfirst : ∀ i < k, q.slot ((q.lastIdx + i) % q.queuesize) ≠ some job) {n : ℕ} (hn : k - j < n) :
    q.findLoop job n ((q.lastIdx + j) % q.queuesize) = some ((q.lastIdx + k) % q.queuesize) := by
  induction n generalizing j with
  | zero => omega
  | succ n ih =>
    rw [findLoop]
    by_cases he : j = k
    · subst he
      exact if_pos hjob
    · have hlt : j < k := Nat.lt_of_le_of_ne hjk he
      have hsize : 0 < q.queuesize := Nat.lt_of_lt_of_le (Nat.zero_lt_of_lt hk) (Nat.sub_le _ _)
      have hnext : Ring.advance q.queuesize ((q.lastIdx + j) % q.queuesize) = (q.lastIdx + (j + 1)) % q.queuesize := by
        rw [Ring.advance_eq (Nat.mod_lt _ hsize),Nat.mod_add_mod,Nat.add_assoc]
      have hne := h.slot_ne_next (Nat.succ_pos j) (Nat.lt_of_le_of_lt hlt hk)
      refine (if_neg (hfirst j hlt)).trans ?_
      dsimp only
      rw [hnext,if_neg hne]
      exact ih hlt (by omega)

theorem line_get {k : ℕ} (hk : k < q.used) : q.line[k]? = some (q.slot ((q.lastIdx + k) % q.queuesize)) := by
  rw [line,Ring.window,List.getElem?_map,List.getElem?_range hk]
  rfl

/-- The line with a hole in the place of a job. -/
theorem line_clear {k : ℕ} (hk : k < q.used) :
    (q.clear ((q.lastIdx + k) % q.queuesize)).line = q.line.set k none := by
  have hsize : 0 < q.queuesize := Nat.lt_of_lt_of_le (Nat.zero_lt_of_lt hk) (Nat.sub_le _ _)
  have hused : (q.clear ((q.lastIdx + k) % q.queuesize)).used = q.used := by
    simp only [used,queuesize,clear,List.length_set]
  have hle : q.used ≤ q.queuesize := Nat.sub_le _ _
  refine List.ext_getElem? fun i => ?_
  by_cases hi : i < q.used
  · rw [line_get (by rwa [hused])]
    have hslot : (q.clear ((q.lastIdx + k) % q.queuesize)).slot ((q.lastIdx + i) % q.queuesize) =
        if (q.lastIdx + k) % q.queuesize = (q.lastIdx + i) % q.queuesize then none
        else q.slot ((q.lastIdx + i) % q.queuesize) := slot_set (Nat.mod_lt _ hsize)
    have hsame : (q.clear ((q.lastIdx + k) % q.queuesize)).queuesize = q.queuesize := List.length_set
    rw [hsame]
    change some ((q.clear ((q.lastIdx + k) % q.queuesize)).slot ((q.lastIdx + i) % q.queuesize)) = _
    rw [hslot]
    by_cases he : k = i
    · subst he
      rw [if_pos rfl,List.getElem?_set_self (by rwa [line_length])]
    · have hne : (q.lastIdx + k) % q.queuesize ≠ (q.lastIdx + i) % q.queuesize := by
        rcases Nat.lt_or_gt_of_ne he with hlt | hgt
        · exact Ring.slot_ne hlt (Nat.lt_of_lt_of_le hi hle)
        · exact (Ring.slot_ne hgt (Nat.lt_of_lt_of_le hk hle)).symm
      rw [if_neg hne,List.getElem?_set_ne he,line_get hi]
  · rw [List.getElem?_eq_none (by rw [line_length,hused]; omega),
      List.getElem?_eq_none (by rw [List.length_set,line_length]; omega)]

theorem mem_waiting : job ∈ q.waiting ↔ some job ∈ q.line := List.reduceOption_mem_iff

/-- `ThreadPool_cancel` finds every job that waits. -/
theorem findSlot_waiting (h : q.Wf) (hjob : job ∈ q.waiting) : ∃ i, q.findSlot job = some i := by
  obtain ⟨l₁,l₂,hline,hout⟩ := List.eq_append_cons_of_mem (mem_waiting.mp hjob)
  have hk : l₁.length < q.used := by
    rw [← line_length,hline,List.length_append,List.length_cons]
    omega
  have hle : q.used ≤ q.queuesize := Nat.sub_le _ _
  have hlast : q.lastIdx < q.queuesize := by
    rcases h.last with hl | hl
    · exact hl
    · omega
  have hslot : ∀ i < q.used, q.line[i]? = some (q.slot ((q.lastIdx + i) % q.queuesize)) := fun i hi => line_get hi
  have hhere : q.slot ((q.lastIdx + l₁.length) % q.queuesize) = some job := by
    have hget := hslot _ hk
    rw [hline,List.getElem?_append_right le_rfl,Nat.sub_self] at hget
    exact (Option.some.inj hget).symm
  have hfirst : ∀ i < l₁.length, q.slot ((q.lastIdx + i) % q.queuesize) ≠ some job := by
    intro i hi heq
    have hget := hslot i (Nat.lt_trans hi hk)
    rw [hline,List.getElem?_append_left hi,heq] at hget
    exact hout (List.mem_of_getElem? hget)
  have hne : q.queueAvail ≠ q.queuesize := by
    intro he
    rw [used,he,Nat.sub_self] at hk
    exact Nat.not_lt_zero _ hk
  have hloop := findLoop_line h (Nat.zero_le _) hk hhere hfirst (n := q.queuesize) (by omega)
  rw [Nat.add_zero,Nat.mod_eq_of_lt hlast] at hloop
  exact ⟨_,(if_neg hne).trans hloop⟩

/-- A slot that holds a job is in use. -/
theorem Wf.slot_used (h : q.Wf) {i : ℕ} (hs : q.slot i = some job) :
    ∃ k < q.used, (q.lastIdx + k) % q.queuesize = i := by
  by_contra hnone
  have hlt : i < q.queuesize := by
    by_contra hge
    rw [slot,List.getElem?_eq_none (Nat.le_of_not_lt hge)] at hs
    cases hs
  have hempty := h.empty i hlt fun k hk he => hnone ⟨k,hk,he⟩
  rw [slot,hempty] at hs
  cases hs

/-- A job that is cancelled leaves the other waiting jobs in their order. -/
theorem waiting_clear (h : q.Wf) {i : ℕ} (hs : q.slot i = some job) (hn : q.waiting.Nodup) :
    job ∈ q.waiting ∧ (q.clear i).waiting = q.waiting.filter (· ≠ job) := by
  obtain ⟨k,hk,rfl⟩ := h.slot_used hs
  have hget := line_get hk
  rw [hs] at hget
  obtain ⟨hlt,hhere⟩ := List.getElem?_eq_some_iff.mp hget
  have hline : q.line = q.line.take k ++ some job :: q.line.drop (k + 1) := by
    rw [← hhere,List.getElem_cons_drop,List.take_append_drop]
  have hwaiting : q.waiting = (q.line.take k).reduceOption ++ job :: (q.line.drop (k + 1)).reduceOption := by
    conv_lhs => rw [waiting,hline]
    rw [List.reduceOption_append,List.reduceOption_cons_of_some]
  have hclear : (q.clear ((q.lastIdx + k) % q.queuesize)).waiting =
      (q.line.take k).reduceOption ++ (q.line.drop (k + 1)).reduceOption := by
    rw [waiting,line_clear hk,List.set_eq_take_append_cons_drop,if_pos hlt,List.reduceOption_append,
      List.reduceOption_cons_of_none]
  refine ⟨mem_waiting.mpr (List.mem_of_getElem? hget),?_⟩
  rw [hwaiting] at hn ⊢
  rw [hclear]
  generalize (q.line.take k).reduceOption = l₁ at hn
  generalize (q.line.drop (k + 1)).reduceOption = l₂ at hn
  have hout := (List.nodup_cons.mp (List.nodup_middle.mp hn)).1
  have hkeep : ∀ l : List JobId, job ∉ l → l.filter (· ≠ job) = l := by
    intro l hl
    exact List.filter_eq_self.mpr fun j hj => decide_eq_true fun he => hl (he ▸ hj)
  rw [List.filter_append,List.filter_cons_of_neg (by simp),hkeep l₁ fun hm => hout (List.mem_append_left _ hm),
    hkeep l₂ fun hm => hout (List.mem_append_right _ hm)]

end JobQueue
end LibIrcBot
