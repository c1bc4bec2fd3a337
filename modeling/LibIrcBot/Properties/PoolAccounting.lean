import LibIrcBot.Threads.ThreadPool

/-! # Where the jobs of the thread pool are

Every job that the pool accepts is in one slot of the queue, at one worker, or retired. A
worker that has no job leaves none waiting in the queue when it becomes idle, and a job is
only queued while all workers are busy, so that some worker is busy while a job waits.
-/
namespace LibIrcBot.ThreadPool

variable {pool : ThreadPool} {i : ℕ} {job : JobId} {panicked : List JobId}

theorem count_snoc (job j : JobId) (l : List JobId) :
    (l ++ [job]).count j = l.count j + if some job = some j then 1 else 0 := by simp [List.count_singleton]

def workers (pool : ThreadPool) (job : JobId) : ℕ := pool.threads.countP (·.job = some job)

def Busy (pool : ThreadPool) : Prop := ∃ t ∈ pool.threads, t.job.isSome

/-- Each job is accounted for; `panicked` are those destroyed without an event, and `retiring` is a job whose event
`finished` is being raised, and which is still in its place. -/
structure Accounts (panicked : List JobId) (retiring : Option JobId) (pool : ThreadPool) : Prop where
  wf : pool.queue.Wf
  workers : pool.threads ≠ []
  place : ∀ j, pool.queue.slots j + pool.workers j + (pool.ghost.raised.count j + panicked.count j) =
    pool.ghost.accepted.count j + if retiring = some j then 1 else 0
  accepted : ∀ j, pool.ghost.accepted.count j ≤ 1
  destroyed : ∀ j, pool.ghost.destroyed.count j + (if retiring = some j then 1 else 0) =
    pool.ghost.raised.count j + panicked.count j
  started : ∀ j, pool.ghost.started.count j + pool.queue.slots j ≤ pool.ghost.accepted.count j

def NoneStranded (pool : ThreadPool) : Prop := (∃ j, 0 < pool.queue.slots j) → pool.Busy

theorem availableThread_spec (h : pool.availableThread = some i) : ∃ t, pool.threads[i]? = some t ∧ t.job = none := by
  obtain ⟨hlt,hjob,_⟩ := List.findIdx?_eq_some_iff_getElem.mp h
  exact ⟨_,List.getElem?_eq_getElem hlt,by simpa using hjob⟩

theorem workers_start (h : ∃ t, pool.threads[i]? = some t ∧ t.job = none) (j : JobId) :
    (pool.startThreadJob i job).workers j = pool.workers j + if job = j then 1 else 0 := by
  obtain ⟨t,ht,hnone⟩ := h
  obtain ⟨hlt,hget⟩ := List.getElem?_eq_some_iff.mp ht
  rw [workers,workers,startThreadJob,List.countP_set hlt,hget,hnone]
  simp

theorem busy_start (h : ∃ t, pool.threads[i]? = some t ∧ t.job = none) : (pool.startThreadJob i job).Busy := by
  obtain ⟨t,ht,_⟩ := h
  obtain ⟨hlt,_⟩ := List.getElem?_eq_some_iff.mp ht
  exact ⟨⟨some job,true⟩,List.mem_set hlt _,rfl⟩

/-- The pool refuses the job, starts it on an idle worker, or queues it. -/
theorem submit_cases (mainthread : Bool) (job : JobId) : pool.submit mainthread job = pool ∨ (pool.Owned job ∧
    ((∃ i t, pool.threads[i]? = some t ∧ t.job = none ∧ pool.submit mainthread job =
      { pool.startThreadJob i job with ghost.accepted := pool.ghost.accepted ++ [job] }) ∨
    (pool.queue.queueAvail ≠ 0 ∧ (mainthread → pool.availableThread = none) ∧ pool.submit mainthread job =
      { pool with queue := (pool.queue.enqueueJob job).2, ghost.accepted := pool.ghost.accepted ++ [job] }))) := by
  unfold submit
  by_cases ho : pool.Owned job
  · rw [if_pos ho,enqueue]
    cases hi : if mainthread then pool.availableThread else none with
    | some i =>
      have hidle : pool.availableThread = some i := by
        split at hi
        · exact hi
        · cases hi
      obtain ⟨t,ht,hnone⟩ := availableThread_spec hidle
      exact .inr ⟨ho,.inl ⟨i,t,ht,hnone,rfl⟩⟩
    | none =>
      by_cases ha : pool.queue.queueAvail = 0
      · refine .inl ?_
        simp [JobQueue.enqueueJob,ha]
      · refine .inr ⟨ho,.inr ⟨ha,fun hm => ?_,?_⟩⟩
        · rwa [if_pos hm] at hi
        · simp [JobQueue.enqueueJob,ha]
  · exact .inl (if_neg ho)

theorem busy_of_none_available (hne : pool.threads ≠ []) (h : pool.availableThread = none) : pool.Busy := by
  obtain ⟨t,ht⟩ := List.exists_mem_of_ne_nil _ hne
  have hall := List.findIdx?_eq_none_iff.mp h t ht
  exact ⟨t,ht,by simpa [Option.isSome_iff_ne_none] using hall⟩

namespace Accounts
variable {retiring : Option JobId}

theorem createJob (h : Accounts panicked retiring pool) (timeoutTicks : ℤ) : Accounts panicked retiring (pool.createJob timeoutTicks) :=
  { h with }

theorem submit (h : Accounts panicked retiring pool) (mainthread : Bool) (job : JobId) :
    Accounts panicked retiring (pool.submit mainthread job) := by
  rcases submit_cases mainthread job with he | ⟨ho,⟨i,t,ht,hnone,he⟩ | ⟨ha,_,he⟩⟩ <;> rw [he]
  · exact h
  all_goals
    have hzero : pool.ghost.accepted.count job = 0 := List.count_eq_zero.mpr ho.2
    have haccepted : ∀ j, (pool.ghost.accepted ++ [job]).count j =
        pool.ghost.accepted.count j + if job = j then 1 else 0 := fun j => by simp [List.count_singleton]
    have hone : ∀ j, (pool.ghost.accepted ++ [job]).count j ≤ 1 := by
      intro j
      have hj := h.accepted j
      rw [haccepted]
      split
      · next he =>
        subst he
        omega
      · exact hj
  · have hworkers : ∀ j, (pool.startThreadJob i job).workers j = pool.workers j + if job = j then 1 else 0 :=
      workers_start ⟨t,ht,hnone⟩
    refine ⟨h.wf,?_,fun j => ?_,hone,h.destroyed,fun j => ?_⟩
    · simpa [startThreadJob] using h.workers
    · have hj := h.place j
      have hw := hworkers j
      change _ + (pool.startThreadJob i job).workers j + _ = (pool.ghost.accepted ++ [job]).count j + _
      rw [hw,haccepted]
      change pool.queue.slots j + _ + (pool.ghost.raised.count j + panicked.count j) = _
      omega
    · have hj := h.started j
      change (pool.ghost.started ++ [job]).count j + pool.queue.slots j ≤ (pool.ghost.accepted ++ [job]).count j
      rw [haccepted,List.count_append,List.count_singleton]
      by_cases he : job = j <;> simp [he] <;> omega
  · have hslots := JobQueue.enqueueJob_slots h.wf ha job
    refine ⟨h.wf.enqueue ha job,h.workers,fun j => ?_,hone,h.destroyed,fun j => ?_⟩
    · have hj := h.place j
      change (pool.queue.enqueueJob job).2.slots j + pool.workers j + (pool.ghost.raised.count j + panicked.count j) =
        (pool.ghost.accepted ++ [job]).count j + _
      rw [hslots,haccepted]
      omega
    · have hj := h.started j
      change pool.ghost.started.count j + (pool.queue.enqueueJob job).2.slots j ≤ (pool.ghost.accepted ++ [job]).count j
      rw [hslots,haccepted]
      omega

end Accounts

theorem NoneStranded.submit (h : pool.NoneStranded) (hne : pool.threads ≠ []) (job : JobId) :
    (pool.submit true job).NoneStranded := by
  rcases submit_cases true job with he | ⟨ho,⟨i,t,ht,hnone,he⟩ | ⟨ha,hbusy,he⟩⟩ <;> rw [he]
  · exact h
  · exact fun _ => busy_start ⟨t,ht,hnone⟩
  · exact fun _ => busy_of_none_available hne (hbusy rfl)

/-! ## Retiring a job -/

/-- A worker that has a job keeps it while handlers submit jobs. -/
theorem submit_thread {t : Thread} (ht : pool.threads[i]? = some t) (hjob : t.job = some job) (mainthread : Bool)
    (new : JobId) : (pool.submit mainthread new).threads[i]? = some t := by
  rcases submit_cases mainthread new with he | ⟨_,⟨k,u,hu,hnone,he⟩ | ⟨_,_,he⟩⟩ <;> rw [he]
  · exact ht
  · have hne : k ≠ i := by
      rintro rfl
      rw [ht] at hu
      cases hu
      rw [hjob] at hnone
      cases hnone
    exact (List.getElem?_set_ne hne).trans ht
  · exact ht

/-- A slot that holds a job keeps it while handlers submit jobs. -/
theorem submit_slot (hwf : pool.queue.Wf) {k : ℕ} (hk : pool.queue.jobQueue[k]?.join = some job) (mainthread : Bool)
    (new : JobId) : (pool.submit mainthread new).queue.jobQueue[k]?.join = some job := by
  rcases submit_cases mainthread new with he | ⟨_,⟨_,_,_,_,he⟩ | ⟨ha,_,he⟩⟩ <;> rw [he]
  · exact hk
  · exact hk
  · have hne : pool.queue.nextIdx ≠ k := by
      rintro rfl
      rw [hwf.next_empty ha] at hk
      cases hk
    rw [JobQueue.enqueueJob_eq ha,List.getElem?_set_ne hne]
    exact hk

/-- What every submission keeps, the event `finished` keeps. -/
theorem raiseFinished_invariant {I : ThreadPool → Prop} (hI : ∀ t new, I t → I (t.submit true new))
    (h : I { pool with ghost.raised := pool.ghost.raised ++ [job] }) (jobs : List JobId) :
    I (pool.raiseFinished job jobs) :=
  List.foldlRecOn jobs _ h fun t ht new _ => hI t new ht

namespace Accounts

theorem raised (h : Accounts panicked none pool) (job : JobId) :
    Accounts panicked (some job) { pool with ghost.raised := pool.ghost.raised ++ [job] } := by
  refine ⟨h.wf,h.workers,fun j => ?_,h.accepted,fun j => ?_,h.started⟩
  · have hj := h.place j
    change pool.queue.slots j + pool.workers j + ((pool.ghost.raised ++ [job]).count j + panicked.count j) = pool.ghost.accepted.count j + _
    rw [count_snoc]
    simp at hj
    omega
  · have hj := h.destroyed j
    change pool.ghost.destroyed.count j + _ = (pool.ghost.raised ++ [job]).count j + panicked.count j
    rw [count_snoc]
    simp at hj
    omega

theorem raiseFinished (h : Accounts panicked none pool) (job : JobId) (jobs : List JobId) :
    Accounts panicked (some job) (pool.raiseFinished job jobs) :=
  raiseFinished_invariant (fun _ new ht => ht.submit true new) (h.raised job) jobs

/-- A job whose worker has panicked retires without an event. -/
theorem panics (h : Accounts panicked none pool) (job : JobId) : Accounts (panicked ++ [job]) (some job) pool := by
  refine { h with place := fun j => ?_, destroyed := fun j => ?_ }
  · have hj := h.place j
    rw [count_snoc]
    simp only [reduceCtorEq,if_false] at hj
    omega
  · have hj := h.destroyed j
    rw [count_snoc]
    simp only [reduceCtorEq,if_false] at hj
    omega

/-- The worker of a retiring job becomes idle. -/
theorem release (h : Accounts panicked (some job) pool) {running : Bool} (ht : pool.threads[i]? = some ⟨some job,running⟩) :
    Accounts panicked none { pool.destroyJob job with threads := pool.threads.set i ⟨none,false⟩ } := by
  obtain ⟨hlt,hget⟩ := List.getElem?_eq_some_iff.mp ht
  have hworkers : ∀ j, (pool.threads.set i ⟨none,false⟩).countP (·.job = some j) +
      (if some job = some j then 1 else 0) = pool.workers j := by
    intro j
    rw [List.countP_set hlt,hget]
    by_cases hj : job = j
    · subst hj
      have hpos : 0 < pool.threads.countP (·.job = some job) :=
        List.countP_pos_iff.mpr ⟨_,List.getElem_mem hlt,by simp [hget]⟩
      simp [ThreadPool.workers]
      omega
    · simp [hj,ThreadPool.workers]
  refine ⟨h.wf,?_,fun j => ?_,h.accepted,fun j => ?_,h.started⟩
  · simpa using h.workers
  · have hj := h.place j
    have hw := hworkers j
    change pool.queue.slots j + (pool.threads.set i ⟨none,false⟩).countP _ + (pool.ghost.raised.count j + panicked.count j) = _
    simp only [reduceCtorEq,if_false]
    change _ = pool.ghost.accepted.count j + 0
    omega
  · have hj := h.destroyed j
    change (pool.ghost.destroyed ++ [job]).count j + _ = pool.ghost.raised.count j + panicked.count j
    rw [count_snoc]
    simp only [reduceCtorEq,if_false]
    omega

/-- The slot of a retiring job becomes empty. -/
theorem clear (h : Accounts panicked (some job) pool) (hk : pool.queue.jobQueue[i]?.join = some job) :
    Accounts panicked none { pool.destroyJob job with queue := pool.queue.clear i } := by
  have hslots := JobQueue.clear_slots hk
  refine ⟨h.wf.clear i,h.workers,fun j => ?_,h.accepted,fun j => ?_,fun j => ?_⟩
  · have hj := h.place j
    have hs := hslots j
    change (pool.queue.clear i).slots j + pool.workers j + (pool.ghost.raised.count j + panicked.count j) =
      pool.ghost.accepted.count j + _
    simp only [reduceCtorEq,if_false,Option.some.injEq] at hj ⊢
    omega
  · have hj := h.destroyed j
    change (pool.ghost.destroyed ++ [job]).count j + _ = pool.ghost.raised.count j + panicked.count j
    rw [count_snoc]
    simp only [reduceCtorEq,if_false]
    omega
  · have hj := h.started j
    have hs := hslots j
    change pool.ghost.started.count j + (pool.queue.clear i).slots j ≤ pool.ghost.accepted.count j
    omega

/-- An idle worker is given the next job of the queue; if it stays idle, the queue is empty. -/
theorem startNext (h : Accounts panicked none pool) {t : Thread} (ht : pool.threads[i]? = some t) (hnone : t.job = none) :
    Accounts panicked none (pool.startNext i) ∧ (pool.startNext i).NoneStranded := by
  have hd := JobQueue.dequeueJob_spec h.wf
  unfold ThreadPool.startNext
  cases hq : pool.queue.dequeueJob with
  | mk next queue =>
    rw [hq] at hd
    have hslots : ∀ j, queue.slots j + (if next = some j then 1 else 0) = pool.queue.slots j := hd.slots
    cases next with
    | none =>
      have hzero : ∀ j, queue.slots j = 0 := by
        intro j
        have hj := hslots j
        rw [hd.empty rfl j] at hj
        omega
      refine ⟨⟨hd.wf,h.workers,fun j => ?_,h.accepted,h.destroyed,fun j => ?_⟩,fun ⟨j,hj⟩ => ?_⟩
      · have hj := hslots j
        simp only [reduceCtorEq,if_false,Nat.add_zero] at hj
        exact (congrArg (· + pool.workers j + (pool.ghost.raised.count j + panicked.count j)) hj).trans (h.place j)
      · have hj := hslots j
        simp only [reduceCtorEq,if_false,Nat.add_zero] at hj
        exact (congrArg (pool.ghost.started.count j + ·) hj).trans_le (h.started j)
      · exact absurd (hzero j) (Nat.ne_of_gt hj)
    | some next =>
      have hworkers : ∀ j, (ThreadPool.startThreadJob { pool with queue := queue } i next).workers j =
          ThreadPool.workers { pool with queue := queue } j + if next = j then 1 else 0 := workers_start ⟨t,ht,hnone⟩
      refine ⟨⟨hd.wf,?_,fun j => ?_,h.accepted,h.destroyed,fun j => ?_⟩,fun _ => busy_start ⟨t,ht,hnone⟩⟩
      · simpa [startThreadJob] using h.workers
      · have hj := h.place j
        have hs := hslots j
        have hw := hworkers j
        change queue.slots j + (ThreadPool.startThreadJob { pool with queue := queue } i next).workers j +
          (pool.ghost.raised.count j + panicked.count j) = pool.ghost.accepted.count j + _
        rw [hw]
        change queue.slots j + (pool.workers j + _) + _ = _
        simp only [Option.some.injEq] at hs
        omega
      · have hj := h.started j
        have hs := hslots j
        change (pool.ghost.started ++ [next]).count j + queue.slots j ≤ pool.ghost.accepted.count j
        rw [count_snoc]
        omega

end Accounts

/-! ## Runs -/

/-- What holds of the pool between any two steps. -/
structure Orderly (pool : ThreadPool) : Prop extends Accounts [] none pool where
  noneStranded : pool.NoneStranded

namespace Orderly

theorem initial (h : pool.Initial) : Orderly pool := by
  obtain ⟨n,hthreads⟩ := h.threads
  obtain ⟨queuesize,hqueue⟩ := h.queue
  have hslots : ∀ j, pool.queue.slots j = 0 := fun j => hqueue ▸ JobQueue.create_slots queuesize j
  have hworkers : ∀ j, pool.workers j = 0 := fun j => by simp [workers,hthreads]
  refine ⟨⟨hqueue ▸ JobQueue.create_wf queuesize,?_,fun j => ?_,fun j => ?_,fun j => ?_,fun j => ?_⟩,fun ⟨j,hj⟩ => ?_⟩
  · simp [hthreads]
  · simp [hslots,hworkers,h.ghost]
  · simp [h.ghost]
  · simp [h.ghost]
  · simp [hslots,h.ghost]
  · exact absurd (hslots j) (Nat.ne_of_gt hj)

theorem submit (h : Orderly pool) (job : JobId) : Orderly (pool.submit true job) :=
  ⟨h.toAccounts.submit true job,h.noneStranded.submit h.workers job⟩

/-- A job that is running keeps its own worker busy. -/
theorem submitFrom (h : Orderly pool) (i : ℕ) (job : JobId) (hrun : ∀ t ∈ pool.threads, t.running → t.job.isSome) :
    Orderly (pool.submitFrom i job) := by
  unfold ThreadPool.submitFrom
  split
  · next hr =>
    refine ⟨h.toAccounts.submit false job,fun _ => ?_⟩
    cases ht : pool.threads[i]? with
    | none => simp [ht] at hr
    | some t =>
      have hsome : t.job.isSome := hrun t (List.mem_of_getElem? ht) (by simpa [ht] using hr)
      obtain ⟨old,hold⟩ := Option.isSome_iff_exists.mp hsome
      exact ⟨t,List.mem_of_getElem? (submit_thread ht hold false job),hsome⟩
  · exact h

theorem threadJobDone (h : Orderly pool) (i : ℕ) (jobs : List JobId) : Orderly (pool.threadJobDone i jobs) := by
  unfold ThreadPool.threadJobDone
  split
  · next job ht =>
    -- The handlers find the worker still busy with the retiring job.
    have hraise := @raiseFinished_invariant pool job
      (fun t => Accounts [] (some job) t ∧ t.threads[i]? = some ⟨some job,false⟩)
      (fun t new hi => ⟨hi.1.submit true new,submit_thread hi.2 rfl true new⟩) ⟨h.toAccounts.raised job,ht⟩ jobs
    obtain ⟨hlt,_⟩ := List.getElem?_eq_some_iff.mp hraise.2
    have hnext := (hraise.1.release hraise.2).startNext (i := i) (t := ⟨none,false⟩) (List.getElem?_set_self hlt) rfl
    exact ⟨hnext.1,hnext.2⟩
  · exact h

theorem cancel (h : Orderly pool) (job : JobId) (jobs : List JobId) : Orderly (pool.cancel job jobs) := by
  unfold ThreadPool.cancel
  split
  · exact ⟨{ h.toAccounts with },h.noneStranded⟩
  · split
    · next k hk =>
      have hraise := @raiseFinished_invariant (pool.cancelJob job) job
        (fun t => (Accounts [] (some job) t ∧ t.NoneStranded) ∧ t.queue.jobQueue[k]?.join = some job)
        (fun t new hi => ⟨⟨hi.1.1.submit true new,hi.1.2.submit hi.1.1.workers new⟩,
          submit_slot hi.1.1.wf hi.2 true new⟩)
        ⟨⟨Accounts.raised (show Accounts [] none (pool.cancelJob job) from { h.toAccounts with }) job,h.noneStranded⟩,
          JobQueue.findSlot_found hk⟩ jobs
      refine ⟨hraise.1.1.clear hraise.2,?_⟩
      rintro ⟨j,hj⟩
      have hle := Nat.le_of_add_right_le (JobQueue.clear_slots hraise.2 j).le
      exact hraise.1.2 ⟨j,hj.trans_le hle⟩
    · exact h

end Orderly

def Assigned (pool : ThreadPool) : Prop := ∀ t ∈ pool.threads, t.running → t.job.isSome

namespace Assigned

theorem start (h : pool.Assigned) (i : ℕ) (job : JobId) : (pool.startThreadJob i job).Assigned := by
  intro t ht hr
  rcases List.mem_or_eq_of_mem_set ht with ht | rfl
  · exact h t ht hr
  · rfl

theorem submit (h : pool.Assigned) (mainthread : Bool) (job : JobId) : (pool.submit mainthread job).Assigned := by
  rcases submit_cases mainthread job with he | ⟨_,⟨i,_,_,_,he⟩ | ⟨_,_,he⟩⟩ <;> rw [he]
  · exact h
  · exact h.start i job
  · exact h

theorem raiseFinished (h : pool.Assigned) (job : JobId) (jobs : List JobId) : (pool.raiseFinished job jobs).Assigned :=
  raiseFinished_invariant (I := Assigned) (fun _ new ht => ht.submit true new) h jobs

theorem step (h : pool.Assigned) (l : Label) : (step l pool).Assigned := by
  cases l with
  | create timeoutTicks => exact h
  | enqueue job => exact h.submit true job
  | enqueueFrom i job =>
    change (if _ then _ else _ : ThreadPool).Assigned
    split
    · exact h.submit false job
    · exact h
  | complete i =>
    intro t ht hr
    obtain ⟨k,hk⟩ := List.mem_iff_getElem?.mp ht
    change (pool.threads.modify i fun t => { t with running := false })[k]? = some t at hk
    rw [List.getElem?_modify] at hk
    obtain ⟨u,hu,rfl⟩ := Option.map_eq_some_iff.mp hk
    by_cases he : i = k
    · simp [he] at hr
    · simp only [he,if_false] at hr ⊢
      exact h u (List.mem_of_getElem? hu) hr
  | threadJobDone i jobs =>
    change (ThreadPool.threadJobDone pool i jobs).Assigned
    unfold ThreadPool.threadJobDone
    split
    · next job _ =>
      have hidle : Assigned { (pool.raiseFinished job jobs).destroyJob job with
          threads := (pool.raiseFinished job jobs).threads.set i ⟨none,false⟩ } := by
        intro t ht hr
        rcases List.mem_or_eq_of_mem_set ht with ht | rfl
        · exact h.raiseFinished job jobs t ht hr
        · cases hr
      change (startNext _ i).Assigned
      unfold startNext
      dsimp only
      split
      · exact start hidle i _
      · exact hidle
    · exact h
  | checkThreadJobs =>
    exact List.foldlRecOn pool.threads _ h fun u hu t _ => by
      unfold checkThreadJob
      split
      · dsimp only
        split <;> exact hu
      · exact hu
  | cancel job jobs =>
    change (ThreadPool.cancel pool job jobs).Assigned
    unfold ThreadPool.cancel
    split
    · exact h
    · split
      · exact raiseFinished (show (pool.cancelJob job).Assigned from h) job jobs
      · exact h

end Assigned

/-- The timer of the jobs changes nothing but the jobs themselves. -/
theorem checkThreadJobs_shape (pool : ThreadPool) : ∃ jobs, pool.checkThreadJobs = { pool with jobs := jobs } := by
  refine List.foldlRecOn (motive := fun t => ∃ jobs, t = { pool with jobs := jobs }) pool.threads _ ⟨pool.jobs,rfl⟩ ?_
  rintro _ ⟨jobs,rfl⟩ t _
  unfold checkThreadJob
  split
  · dsimp only
    split <;> exact ⟨_,rfl⟩
  · exact ⟨_,rfl⟩

theorem complete_workers (pool : ThreadPool) (i : ℕ) (j : JobId) : (pool.complete i).workers j = pool.workers j := by
  have hjobs : (pool.complete i).threads.map Thread.job = pool.threads.map Thread.job := by
    refine List.ext_getElem? fun k => ?_
    simp only [complete,List.getElem?_map,List.getElem?_modify]
    cases pool.threads[k]? with
    | none => rfl
    | some t =>
      simp only [Option.map_some]
      split <;> rfl
  have hcount : ∀ l : List Thread, l.countP (·.job = some j) = (l.map Thread.job).count (some j) := by
    intro l
    rw [List.count,List.countP_map]
    refine List.countP_congr fun t _ => ?_
    simp
  rw [workers,workers,hcount,hcount,hjobs]

theorem Accounts.complete (h : Accounts panicked none pool) (i : ℕ) : Accounts panicked none (pool.complete i) := by
  have hlen : (pool.complete i).threads.length = pool.threads.length := List.length_modify ..
  refine { h with workers := ?_, place := fun j => ?_ }
  · exact fun hnil => h.workers (List.length_eq_zero_iff.mp (hlen ▸ hnil ▸ rfl))
  · exact (congrArg (pool.queue.slots j + · + (pool.ghost.raised.count j + panicked.count j)) (complete_workers pool i j)).trans
      (h.place j)

theorem Orderly.step (h : Orderly pool) (hrun : pool.Assigned) (l : Label) : Orderly (step l pool) := by
  cases l with
  | create timeoutTicks => exact ⟨h.toAccounts.createJob timeoutTicks,h.noneStranded⟩
  | enqueue job => exact h.submit job
  | enqueueFrom i job => exact h.submitFrom i job hrun
  | complete i =>
    refine ⟨h.toAccounts.complete i,fun hs => ?_⟩
    obtain ⟨t,ht,hsome⟩ := h.noneStranded hs
    obtain ⟨job,hjob⟩ := Option.isSome_iff_exists.mp hsome
    have hpos : 0 < (pool.complete i).workers job :=
      (complete_workers pool i job).symm ▸ List.countP_pos_iff.mpr ⟨t,ht,by simpa using hjob⟩
    obtain ⟨u,hu,hjob⟩ := List.countP_pos_iff.mp hpos
    exact ⟨u,hu,by simp [of_decide_eq_true hjob]⟩
  | threadJobDone i jobs => exact h.threadJobDone i jobs
  | checkThreadJobs =>
    obtain ⟨jobs,he⟩ := checkThreadJobs_shape pool
    change Orderly pool.checkThreadJobs
    rw [he]
    exact ⟨{ h.toAccounts with },h.noneStranded⟩
  | cancel job jobs => exact h.cancel job jobs

theorem Reachable.orderly (h : pool.Reachable) : Orderly pool := by
  have hboth := h.invariant (I := fun t => Orderly t ∧ t.Assigned) (fun t ht => ⟨.initial ht,?_⟩) ?_
  · exact hboth.1
  · intro u hu hr
    obtain ⟨n,hthreads⟩ := ht.threads
    rw [hthreads] at hu
    rw [List.eq_of_mem_replicate hu] at hr
    cases hr
  · rintro l s t ⟨hs,hrun⟩ _ he
    cases he
    exact ⟨hs.step hrun l,hrun.step l⟩

/-- Every accepted job is in exactly one place, a slot of the queue, a worker, or retired with its
event raised once and itself destroyed once; it is started at most once; and while a job waits in
the queue, some worker has a job. -/
theorem jobs_accounted (h : pool.Reachable) :
    (∀ job ∈ pool.ghost.accepted, pool.queue.slots job + pool.workers job + pool.ghost.raised.count job = 1 ∧
      pool.ghost.destroyed.count job = pool.ghost.raised.count job ∧ pool.ghost.started.count job ≤ 1) ∧
    ((∃ job, 0 < pool.queue.slots job) → ∃ t ∈ pool.threads, t.job.isSome) := by
  have ho := h.orderly
  refine ⟨fun job hmem => ?_,ho.noneStranded⟩
  have hone : pool.ghost.accepted.count job = 1 :=
    Nat.le_antisymm (ho.accepted job) (List.count_pos_iff.mpr hmem)
  have hplace := ho.place job
  have hdestroyed := ho.destroyed job
  have hstarted := ho.started job
  simp only [reduceCtorEq,if_false,List.count_nil] at hplace hdestroyed
  exact ⟨by omega,by omega,by omega⟩

/-- One worker has a job, a second job waits, and a third one, which the first has submitted, was
cancelled. -/
def contended : ThreadPool := after [.create 30,.create 30,.create 30,.enqueue 0,.enqueue 1,.enqueueFrom 0 2,.cancel 2 []]
  (init 1 2)

theorem jobs_accounted_contended : contended.Reachable ∧ contended.ghost.accepted = [0,1,2] ∧
    (contended.queue.slots 2 + contended.workers 2 + contended.ghost.raised.count 2 = 1) ∧
    ∃ t ∈ contended.threads, t.job.isSome := by
  have hr : contended.Reachable := Reachable.after (.start (init_initial 0 2)) _
  have hall := jobs_accounted hr
  exact ⟨hr,by decide,(hall.1 2 (by decide)).1,hall.2 ⟨1,by decide⟩⟩

end LibIrcBot.ThreadPool
