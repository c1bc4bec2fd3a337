import LibIrcBot.Threads.JobOrder

/-! # Jobs leave the queue in their order

Any calls of `enqueueJob`, `dequeueJob` and `ThreadPool_cancel`. The jobs that were queued
and not cancelled are those that `dequeueJob` has returned, followed by those that wait.
-/
namespace LibIrcBot.ThreadPool

/-- A pool, with a ghost log of what `dequeueJob` has returned. -/
structure Served where
  pool : ThreadPool
  returned : List JobId

inductive QueueCall where
  | create (timeoutTicks : ℤ)
  /-- A thread other than the main thread submits a job. -/
  | enqueueJob (job : JobId)
  | dequeueJob
  /-- The handlers of `finished` submit some jobs. -/
  | cancel (job : JobId) (jobs : List JobId)

def Served.step (self : Served) : QueueCall → Served
  | .create timeoutTicks => { self with pool := self.pool.createJob timeoutTicks }
  | .enqueueJob job => { self with pool := self.pool.submit false job }
  | .dequeueJob =>
    let (job,queue) := self.pool.queue.dequeueJob
    ⟨{ self.pool with queue := queue },self.returned ++ job.toList⟩
  | .cancel job jobs => { self with pool := self.pool.cancel job jobs }

def Served.run (self : Served) (calls : List QueueCall) : Served := calls.foldl step self

/-- The jobs that entered the queue and have not been cancelled. Jobs that an idle worker was given at once never
entered it. -/
def queued (pool : ThreadPool) : List JobId :=
  pool.ghost.accepted.filter fun j => j ∉ pool.ghost.started ∧ j ∉ pool.ghost.raised

/-- The order of the jobs; `retiring` is a job that is being cancelled, and still in its slot. -/
structure InLine (retiring : Option JobId) (s : Served) : Prop where
  wf : s.pool.queue.Wf
  accepted : s.pool.ghost.accepted.Nodup
  started : ∀ j ∈ s.pool.ghost.started, j ∈ s.pool.ghost.accepted
  raised : ∀ j ∈ s.pool.ghost.raised, j ∈ s.pool.ghost.accepted
  raisedOnce : s.pool.ghost.raised.Nodup
  workers : ∀ t ∈ s.pool.threads, ∀ j, t.job = some j → j ∈ s.pool.ghost.started
  order : queued s.pool = s.returned ++ s.pool.queue.waiting.filter (some · ≠ retiring)
  distinct : (s.returned ++ s.pool.queue.waiting).Nodup
  retire : ∀ j, retiring = some j → j ∈ s.pool.ghost.raised
  entered : ∀ j ∈ s.returned ++ s.pool.queue.waiting, j ∈ s.pool.ghost.accepted ∧ j ∉ s.pool.ghost.started

variable {s : Served} {retiring : Option JobId} {job : JobId}

theorem init_inLine (nthreads queuesize : ℕ) : InLine none ⟨init nthreads queuesize,[]⟩ := by
  have hnil := JobQueue.create_waiting queuesize
  refine ⟨JobQueue.create_wf queuesize,List.nodup_nil,nofun,nofun,List.nodup_nil,fun t ht j hj => ?_,?_,?_,nofun,?_⟩
  · rw [List.eq_of_mem_replicate ht] at hj
    cases hj
  · change [] = [] ++ (JobQueue.create queuesize).waiting.filter _
    rw [hnil]
    rfl
  · change ([] ++ (JobQueue.create queuesize).waiting).Nodup
    rw [hnil]
    exact List.nodup_nil
  · intro j hj
    change j ∈ [] ++ (JobQueue.create queuesize).waiting at hj
    rw [hnil] at hj
    cases hj

theorem nodup_snoc {l : List JobId} (h : l.Nodup) (hout : job ∉ l) : (l ++ [job]).Nodup := by
  refine List.nodup_append.mpr ⟨h,List.nodup_singleton _,fun a ha b hb he => hout ?_⟩
  rwa [← List.mem_singleton.mp hb,← he]

theorem mem_snoc_of {l : List JobId} {j : JobId} (h : j ∈ l) : j ∈ l ++ [job] := List.mem_append_left _ h

/-- A job that is started at once is not one of those that were queued. -/
theorem queued_start {pool : ThreadPool} (i : ℕ) (hnew : job ∉ pool.ghost.accepted) :
    queued { pool.startThreadJob i job with ghost.accepted := pool.ghost.accepted ++ [job] } = queued pool := by
  change (pool.ghost.accepted ++ [job]).filter (fun j => j ∉ pool.ghost.started ++ [job] ∧ j ∉ pool.ghost.raised) = _
  rw [List.filter_append,List.filter_cons_of_neg (by simp),List.filter_nil,List.append_nil]
  refine List.filter_congr fun j hj => ?_
  have hne : j ≠ job := fun he => hnew (he ▸ hj)
  simp [hne]

/-- A job that is queued becomes the last of those. -/
theorem queued_enqueue {pool : ThreadPool} {queue : JobQueue} (hs : job ∉ pool.ghost.started)
    (hr : job ∉ pool.ghost.raised) :
    queued { pool with queue := queue, ghost.accepted := pool.ghost.accepted ++ [job] } = queued pool ++ [job] := by
  change (pool.ghost.accepted ++ [job]).filter _ = _
  rw [List.filter_append,List.filter_cons_of_pos (by simp [hs,hr])]
  rfl

theorem InLine.submit (h : InLine retiring s) (mainthread : Bool) (job : JobId) :
    InLine retiring { s with pool := s.pool.submit mainthread job } := by
  rcases submit_cases mainthread job with he | ⟨ho,⟨i,t,ht,hnone,he⟩ | ⟨ha,_,he⟩⟩ <;> rw [he]
  · exact h
  · have hnew := ho.2
    refine ⟨h.wf,nodup_snoc h.accepted hnew,fun j hj => ?_,fun j hj => mem_snoc_of (h.raised j hj),h.raisedOnce,
      fun u hu j hj => ?_,(queued_start i hnew).trans h.order,h.distinct,h.retire,fun j hj => ?_⟩
    · rcases List.mem_append.mp hj with hj | hj
      · exact mem_snoc_of (h.started j hj)
      · exact List.mem_append_right _ hj
    · rcases List.mem_or_eq_of_mem_set hu with hu | rfl
      · exact mem_snoc_of (h.workers u hu j hj)
      · cases hj
        exact List.mem_append_right _ (List.mem_singleton_self _)
    · obtain ⟨hacc,hstart⟩ := h.entered j hj
      refine ⟨mem_snoc_of hacc,fun hmem => ?_⟩
      rcases List.mem_append.mp hmem with hmem | hmem
      · exact hstart hmem
      · exact hnew (List.mem_singleton.mp hmem ▸ hacc)
  · have hnew := ho.2
    have hs : job ∉ s.pool.ghost.started := fun hj => hnew (h.started job hj)
    have hr : job ∉ s.pool.ghost.raised := fun hj => hnew (h.raised job hj)
    have hout : job ∉ s.returned ++ s.pool.queue.waiting := fun hj => hnew (h.entered job hj).1
    have hwaiting := JobQueue.waiting_enqueueJob h.wf ha job
    refine ⟨h.wf.enqueue ha job,nodup_snoc h.accepted hnew,fun j hj => mem_snoc_of (h.started j hj),
      fun j hj => mem_snoc_of (h.raised j hj),h.raisedOnce,h.workers,?_,?_,h.retire,fun j hj => ?_⟩
    · have hne : some job ≠ retiring := fun he => hr (h.retire job he.symm)
      dsimp only
      rw [queued_enqueue hs hr,h.order,hwaiting,List.filter_append,List.filter_cons_of_pos (by simpa using hne),
        List.filter_nil,List.append_assoc]
    · dsimp only
      rw [hwaiting,← List.append_assoc]
      exact nodup_snoc h.distinct hout
    · dsimp only at hj
      rw [hwaiting,← List.append_assoc] at hj
      rcases List.mem_append.mp hj with hj | hj
      · obtain ⟨hacc,hstart⟩ := h.entered j hj
        exact ⟨mem_snoc_of hacc,hstart⟩
      · refine ⟨List.mem_append_right _ hj,?_⟩
        rwa [List.mem_singleton.mp hj]

/-- The job whose event `finished` is raised is none of the queued ones any more. -/
theorem InLine.finish (h : InLine none s) (hjob : job ∈ s.pool.queue.waiting) :
    InLine (some job) { s with pool := { s.pool.cancelJob job with ghost.raised := s.pool.ghost.raised ++ [job] } } := by
  have hq : queued s.pool = s.returned ++ s.pool.queue.waiting := by
    have horder := h.order
    rwa [List.filter_eq_self.mpr fun j _ => by simp] at horder
  have hmem : job ∈ queued s.pool := hq ▸ List.mem_append_right _ hjob
  obtain ⟨hacc,hcond⟩ := List.mem_filter.mp hmem
  obtain ⟨hs,hr⟩ := of_decide_eq_true hcond
  have hreturned : job ∉ s.returned := fun hj => (List.nodup_append.mp h.distinct).2.2 job hj job hjob rfl
  refine ⟨h.wf,h.accepted,h.started,fun j hj => ?_,nodup_snoc h.raisedOnce hr,h.workers,?_,h.distinct,?_,h.entered⟩
  · rcases List.mem_append.mp hj with hj | hj
    · exact h.raised j hj
    · rwa [List.mem_singleton.mp hj]
  · have hfilter : queued { s.pool.cancelJob job with ghost.raised := s.pool.ghost.raised ++ [job] } =
        (queued s.pool).filter (some · ≠ some job) := by
      change s.pool.ghost.accepted.filter (fun j => j ∉ s.pool.ghost.started ∧ j ∉ s.pool.ghost.raised ++ [job]) = _
      rw [queued,List.filter_filter]
      refine List.filter_congr fun j _ => ?_
      simp only [List.mem_append,List.mem_singleton,Option.some.injEq,ne_eq,decide_not,Bool.decide_and,not_or]
      grind
    rw [hfilter,hq,List.filter_append]
    congr 1
    refine List.filter_eq_self.mpr fun j hj => ?_
    simpa using fun he : j = job => hreturned (he ▸ hj)
  · intro j hj
    cases hj
    exact List.mem_append_right _ (List.mem_singleton_self _)

/-- The slot of a job that is being cancelled becomes empty. -/
theorem InLine.clear (h : InLine (some job) s) {i : ℕ} (hslot : s.pool.queue.slot i = some job) :
    InLine none { s with pool := { s.pool.destroyJob job with queue := s.pool.queue.clear i } } := by
  have hn : s.pool.queue.waiting.Nodup := (List.nodup_append.mp h.distinct).2.1
  obtain ⟨_,hwaiting⟩ := JobQueue.waiting_clear h.wf hslot hn
  have hsub : (s.pool.queue.clear i).waiting.Sublist s.pool.queue.waiting := hwaiting ▸ List.filter_sublist
  refine ⟨h.wf.clear i,h.accepted,h.started,h.raised,h.raisedOnce,h.workers,?_,?_,nofun,fun j hj => ?_⟩
  · have hall : ∀ l : List JobId, l.filter (some · ≠ none) = l := fun l => List.filter_eq_self.mpr fun j _ => by simp
    dsimp only
    rw [hall,hwaiting]
    refine h.order.trans ?_
    simp only [ne_eq,Option.some.injEq]
  · exact h.distinct.sublist (hsub.append_left _)
  · exact h.entered j ((hsub.append_left _).subset hj)

/-- A submission leaves alone what was raised and destroyed, the jobs themselves, and the size of the queue. -/
theorem submit_kept (pool : ThreadPool) (mainthread : Bool) (new : JobId) :
    (pool.submit mainthread new).ghost.raised = pool.ghost.raised ∧
      (pool.submit mainthread new).ghost.destroyed = pool.ghost.destroyed ∧
      (pool.submit mainthread new).jobs = pool.jobs ∧
      (pool.submit mainthread new).queue.queuesize = pool.queue.queuesize := by
  rcases submit_cases mainthread new with he | ⟨_,⟨_,_,_,_,he⟩ | ⟨ha,_,he⟩⟩ <;> rw [he]
  · exact ⟨rfl,rfl,rfl,rfl⟩
  · exact ⟨rfl,rfl,rfl,rfl⟩
  · refine ⟨rfl,rfl,rfl,?_⟩
    rw [JobQueue.enqueueJob_eq ha]
    exact List.length_set

/-- The state of the pool in which the slot of a cancelled job is emptied. -/
theorem InLine.raiseFinished (h : InLine none s) {i : ℕ} (hslot : s.pool.queue.slot i = some job)
    (hjob : job ∈ s.pool.queue.waiting) (jobs : List JobId) :
    let pool := (s.pool.cancelJob job).raiseFinished job jobs
    (InLine (some job) { s with pool := pool } ∧ pool.queue.slot i = some job) ∧
      pool.ghost.raised = s.pool.ghost.raised ++ [job] ∧ pool.ghost.destroyed = s.pool.ghost.destroyed ∧
      pool.jobs = (s.pool.cancelJob job).jobs ∧ pool.queue.queuesize = s.pool.queue.queuesize := by
  refine raiseFinished_invariant (I := fun pool => (InLine (some job) { s with pool := pool } ∧
    pool.queue.slot i = some job) ∧ pool.ghost.raised = s.pool.ghost.raised ++ [job] ∧
    pool.ghost.destroyed = s.pool.ghost.destroyed ∧ pool.jobs = (s.pool.cancelJob job).jobs ∧
    pool.queue.queuesize = s.pool.queue.queuesize) ?_ ?_ jobs
  · rintro pool new ⟨⟨hline,hi⟩,hr,hd,hjobs,hsize⟩
    obtain ⟨hr',hd',hjobs',hsize'⟩ := submit_kept pool true new
    exact ⟨⟨hline.submit true new,submit_slot hline.wf hi true new⟩,hr'.trans hr,hd'.trans hd,hjobs'.trans hjobs,
      hsize'.trans hsize⟩
  · exact ⟨⟨h.finish hjob,hslot⟩,rfl,rfl,rfl,rfl⟩

/-- A worker does not have a job that waits. -/
theorem InLine.not_running (h : InLine none s) (hjob : job ∈ s.pool.queue.waiting) :
    s.pool.threads.any (·.job = some job) = false := by
  refine List.any_eq_false.mpr fun t ht hhas => ?_
  exact (h.entered job (List.mem_append_right _ hjob)).2 (h.workers t ht job (of_decide_eq_true hhas))

/-- What `ThreadPool_cancel` does to a job that waits. -/
theorem InLine.cancel_waiting (h : InLine none s) (hjob : job ∈ s.pool.queue.waiting) (jobs : List JobId) :
    InLine none { s with pool := s.pool.cancel job jobs } ∧
      (s.pool.cancel job jobs).ghost.raised = s.pool.ghost.raised ++ [job] ∧
      (s.pool.cancel job jobs).ghost.destroyed = s.pool.ghost.destroyed ++ [job] ∧
      ((s.pool.cancel job jobs).jobs job).hasCompleted = false ∧
      (s.pool.cancel job jobs).queue.queuesize = s.pool.queue.queuesize := by
  obtain ⟨i,hi⟩ := JobQueue.findSlot_waiting h.wf hjob
  obtain ⟨⟨hline,hslot⟩,hr,hd,hjobs,hsize⟩ := h.raiseFinished (JobQueue.findSlot_found hi) hjob jobs
  have hcancel : s.pool.cancel job jobs =
      let pool := ((s.pool.cancelJob job).raiseFinished job jobs).destroyJob job
      { pool with queue := pool.queue.clear i } := by
    unfold cancel
    rw [h.not_running hjob,if_neg Bool.false_ne_true,hi]
  rw [hcancel]
  refine ⟨hline.clear hslot,hr,congrArg (· ++ [job]) hd,?_,List.length_set.trans hsize⟩
  change (((s.pool.cancelJob job).raiseFinished job jobs).jobs job).hasCompleted = false
  rw [hjobs]
  change (Function.update s.pool.jobs job { s.pool.jobs job with hasCompleted := false } job).hasCompleted = false
  rw [Function.update_self]

/-- On a job that does not wait, `ThreadPool_cancel` only marks it. -/
theorem cancel_other (hwf : s.pool.queue.Wf) (hn : s.pool.queue.waiting.Nodup) (hjob : job ∉ s.pool.queue.waiting)
    (jobs : List JobId) : s.pool.cancel job jobs = s.pool ∨ s.pool.cancel job jobs = s.pool.cancelJob job := by
  unfold cancel
  split
  · exact .inr rfl
  · cases hi : s.pool.queue.findSlot job with
    | none => exact .inl rfl
    | some i => exact absurd (JobQueue.waiting_clear hwf (JobQueue.findSlot_found hi) hn).1 hjob

theorem InLine.dequeue (h : InLine none s) : InLine none (s.step .dequeueJob) := by
  obtain ⟨hhead,htail⟩ := JobQueue.dequeueJob_waiting h.wf
  have hall : ∀ l : List JobId, l.filter (some · ≠ none) = l := fun l => List.filter_eq_self.mpr fun j _ => by simp
  have hsame : (s.step .dequeueJob).returned ++ (s.step .dequeueJob).pool.queue.waiting =
      s.returned ++ s.pool.queue.waiting := by
    change (s.returned ++ s.pool.queue.dequeueJob.1.toList) ++ s.pool.queue.dequeueJob.2.waiting = _
    rw [hhead,htail,List.append_assoc]
    cases s.pool.queue.waiting <;> rfl
  refine ⟨(JobQueue.dequeueJob_spec h.wf).wf,h.accepted,h.started,h.raised,h.raisedOnce,h.workers,?_,?_,nofun,?_⟩
  · rw [hall,hsame]
    exact h.order.trans (congrArg _ (hall _))
  · rw [hsame]
    exact h.distinct
  · rw [hsame]
    exact h.entered

theorem InLine.step (h : InLine none s) (call : QueueCall) : InLine none (s.step call) ∧
    (s.step call).pool.queue.queuesize = s.pool.queue.queuesize ∧
    ∀ j ∈ s.pool.ghost.raised, j ∈ (s.step call).pool.ghost.raised := by
  cases call with
  | create timeoutTicks => exact ⟨{ h with },rfl,fun _ hj => hj⟩
  | enqueueJob job =>
    obtain ⟨hr,_,_,hsize⟩ := submit_kept s.pool false job
    exact ⟨h.submit false job,hsize,fun j hj => hr.symm ▸ hj⟩
  | dequeueJob => exact ⟨h.dequeue,(JobQueue.dequeueJob_spec h.wf).size,fun _ hj => hj⟩
  | cancel job jobs =>
    by_cases hjob : job ∈ s.pool.queue.waiting
    · obtain ⟨hline,hr,_,_,hsize⟩ := h.cancel_waiting hjob jobs
      exact ⟨hline,hsize,fun j hj => hr.symm ▸ List.mem_append_left _ hj⟩
    · have hn : s.pool.queue.waiting.Nodup := (List.nodup_append.mp h.distinct).2.1
      change InLine none { s with pool := s.pool.cancel job jobs } ∧ _
      rcases cancel_other h.wf hn hjob jobs with he | he
      · exact ⟨he.symm ▸ h,congrArg (·.queue.queuesize) he,fun j hj => (congrArg (·.ghost.raised) he).symm ▸ hj⟩
      · refine ⟨he.symm ▸ { h with },congrArg (·.queue.queuesize) he,fun j hj => ?_⟩
        exact (congrArg (·.ghost.raised) he).symm ▸ hj

theorem InLine.run (h : InLine none s) (calls : List QueueCall) : InLine none (s.run calls) ∧
    (s.run calls).pool.queue.queuesize = s.pool.queue.queuesize ∧
    ∀ j ∈ s.pool.ghost.raised, j ∈ (s.run calls).pool.ghost.raised := by
  induction calls generalizing s with
  | nil => exact ⟨h,rfl,fun _ hj => hj⟩
  | cons call calls ih =>
    obtain ⟨hline,hsize,hr⟩ := h.step call
    obtain ⟨hline',hsize',hr'⟩ := ih hline
    exact ⟨hline',hsize'.trans hsize,fun j hj => hr' j (hr j hj)⟩

/-- What was queued and not cancelled has been returned or waits, in that order. -/
theorem InLine.queued_eq (h : InLine none s) : queued s.pool = s.returned ++ s.pool.queue.waiting := by
  have horder := h.order
  rwa [List.filter_eq_self.mpr fun j _ => by simp] at horder

/-- A job whose event was raised is not returned. -/
theorem InLine.not_returned (h : InLine none s) (hr : job ∈ s.pool.ghost.raised) :
    job ∉ s.returned ∧ job ∉ s.pool.queue.waiting := by
  have hout : job ∉ queued s.pool := by
    intro hmem
    exact (of_decide_eq_true (List.mem_filter.mp hmem).2).2 hr
  rw [h.queued_eq] at hout
  exact ⟨fun hj => hout (List.mem_append_left _ hj),fun hj => hout (List.mem_append_right _ hj)⟩

/-- For every size of the queue and all calls: the jobs that were queued and not cancelled are those returned, in
order, and those that wait; `dequeueJob` returns the first that waits; cancelling a waiting job raises its event once,
marked as not completed, destroys it, and it is never returned; a job is refused exactly when all slots are in use; and
`queueAvail` counts the slots outside of the line. -/
theorem fifo_with_cancellation (nthreads queuesize : ℕ) (calls : List QueueCall) :
    let s := Served.run ⟨init nthreads queuesize,[]⟩ calls
    let q := s.pool.queue
    (queued s.pool = s.returned ++ q.waiting ∧ (s.returned ++ q.waiting).Nodup) ∧
      (q.dequeueJob.1 = q.waiting.head? ∧ q.dequeueJob.2.waiting = q.waiting.tail) ∧
      (∀ job ∈ q.waiting, ∀ jobs : List JobId,
        let pool := s.pool.cancel job jobs
        (job ∉ s.pool.ghost.raised ∧ pool.ghost.raised = s.pool.ghost.raised ++ [job]) ∧
          (pool.jobs job).hasCompleted = false ∧ pool.ghost.destroyed = s.pool.ghost.destroyed ++ [job] ∧
          ∀ later, job ∉ (Served.run ⟨pool,s.returned⟩ later).returned) ∧
      (∀ job, ((q.enqueueJob job).1 = -1 ↔ q.line.length = queuesize) ∧
        ((q.enqueueJob job).1 = 0 → (q.enqueueJob job).2.waiting = q.waiting ++ [job])) ∧
      q.queueAvail ≤ queuesize ∧ q.line.length ≤ queuesize ∧ q.queueAvail = queuesize - q.line.length ∧
      q.nextIdx = (q.lastIdx + q.line.length) % queuesize := by
  intro s q
  obtain ⟨h,hsize,_⟩ := (init_inLine nthreads queuesize).run calls
  have hqueuesize : q.queuesize = queuesize := hsize.trans (JobQueue.create_queuesize queuesize)
  have hle := h.wf.avail
  have hlen : q.line.length = queuesize - q.queueAvail := by
    rw [JobQueue.line_length,JobQueue.used,hqueuesize]
  have havail : q.queueAvail ≤ queuesize := hqueuesize ▸ hle
  refine ⟨⟨h.queued_eq,h.distinct⟩,JobQueue.dequeueJob_waiting h.wf,fun job hjob jobs => ?_,fun job => ?_,havail,
    by omega,by omega,?_⟩
  · obtain ⟨hline,hr,hd,hcompleted,_⟩ := h.cancel_waiting hjob jobs
    refine ⟨⟨fun hmem => (h.not_returned hmem).2 hjob,hr⟩,hcompleted,hd,fun later => ?_⟩
    obtain ⟨hlater,_,hkeep⟩ := hline.run later
    exact (hlater.not_returned (hkeep job (hr.symm ▸ List.mem_append_right _ (List.mem_singleton_self _)))).1
  · by_cases ha : q.queueAvail = 0
    · have hrefuse : q.enqueueJob job = (-1,q) := if_pos ha
      rw [hrefuse]
      exact ⟨⟨fun _ => by omega,fun _ => rfl⟩,fun hc => absurd hc (by decide : ¬ (-1 : ℤ) = 0)⟩
    · have hrc : (q.enqueueJob job).1 = 0 := by rw [JobQueue.enqueueJob_eq ha]
      rw [hrc]
      refine ⟨⟨fun hc => absurd hc (by decide),fun hfull => ?_⟩,fun _ => JobQueue.waiting_enqueueJob h.wf ha job⟩
      omega
  · have hnext := h.wf.next
    rw [JobQueue.line_length,← hqueuesize]
    exact hnext

end LibIrcBot.ThreadPool
