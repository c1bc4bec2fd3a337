import LibIrcBot.Threads.Submitters
import LibIrcBot.Properties.PoolAccounting

/-! # Jobs that the pool refuses

The pool refuses a job when no worker is idle, or the submitter is a worker, and the queue is
full. A refused job is in no place of the pool, and nobody destroys it. Neither does anybody release
the argument of a job that has panicked, or that the pool still has when it is shut down.
-/
namespace LibIrcBot
open CString ThreadPool

namespace ThreadPool
variable {pool : ThreadPool} {job : JobId}

def capacity (mainthread : Bool) (pool : ThreadPool) : ℕ :=
  (if mainthread then pool.threads.countP (·.job.isNone) else 0) + pool.queue.queueAvail

/-- What a submission does to the logs; the pool accepts a job as long as there is room. -/
structure Submits (mainthread : Bool) (job : JobId) (pool pool' : ThreadPool) : Prop where
  njobs : pool'.njobs = pool.njobs
  raised : pool'.ghost.raised = pool.ghost.raised
  accepted : pool'.ghost.accepted = pool.ghost.accepted ++ if 0 < capacity mainthread pool then [job] else []
  capacity : pool'.capacity mainthread = pool.capacity mainthread - 1

theorem submit_submits (ho : pool.Owned job) (mainthread : Bool) :
    Submits mainthread job pool (pool.submit mainthread job) := by
  have hidle : ∀ {i}, (if mainthread then pool.availableThread else none) = some i →
      mainthread = true ∧ ∃ t, pool.threads[i]? = some t ∧ t.job = none := by
    intro i hi
    split at hi
    · next hm => exact ⟨hm,availableThread_spec hi⟩
    · cases hi
  unfold submit
  rw [if_pos ho,enqueue]
  cases hi : if mainthread then pool.availableThread else none with
  | some i =>
    obtain ⟨hm,t,ht,hnone⟩ := hidle hi
    obtain ⟨hlt,hget⟩ := List.getElem?_eq_some_iff.mp ht
    have hpos : 0 < pool.threads.countP (·.job.isNone) :=
      List.countP_pos_iff.mpr ⟨t,List.mem_of_getElem? ht,by simp [hnone]⟩
    have hset : (pool.threads.set i ⟨some job,true⟩).countP (·.job.isNone) = pool.threads.countP (·.job.isNone) - 1 := by
      rw [List.countP_set hlt,hget]
      simp [hnone]
    refine ⟨rfl,rfl,?_,?_⟩
    · have hcap : 0 < pool.capacity mainthread := by
        rw [ThreadPool.capacity,if_pos hm]
        exact Nat.lt_add_right _ hpos
      rw [if_pos hcap]
      rfl
    · simp only [startThreadJob,ThreadPool.capacity,hm,if_true,hset]
      omega
  | none =>
    have hzero : (if mainthread then pool.threads.countP (·.job.isNone) else 0) = 0 := by
      cases mainthread with
      | false => rfl
      | true =>
        have hall := List.findIdx?_eq_none_iff.mp hi
        exact List.countP_eq_zero.mpr fun t ht => by simpa [Option.isSome_iff_ne_none] using hall t ht
    by_cases ha : pool.queue.queueAvail = 0
    · refine ⟨?_,?_,?_,?_⟩ <;> simp [JobQueue.enqueueJob,ha,ThreadPool.capacity,hzero]
    · refine ⟨?_,?_,?_,?_⟩ <;> simp [JobQueue.enqueueJob,ha,ThreadPool.capacity,hzero,Nat.pos_of_ne_zero]

end ThreadPool

namespace Submitters
variable {s : Submitters} {retiring ending : Option JobId} {i : ℕ} {job : JobId}

/-- The jobs and the events are accounted for; `retiring` is a job whose event `finished` is being
raised, and `ending` one whose argument is then still to be destroyed. -/
structure Held (retiring ending : Option JobId) (s : Submitters) : Prop where
  accounts : Accounts s.panicked retiring s.pool
  created : ∀ j ∈ s.pool.ghost.accepted, j < s.pool.njobs
  carried : ∀ e < s.nevents, ∃ j < s.pool.njobs, ∃ hdl, s.args j = .handler hdl e
  single : ∀ i < s.pool.njobs, ∀ j < s.pool.njobs, ∀ hdl hdl' e, s.args i = .handler hdl e →
    s.args j = .handler hdl' e → i = j
  event : ∀ j < s.pool.njobs, ∀ hdl e, s.args j = .handler hdl e → e < s.nevents ∧
    s.destroyedEvents.count e + (if ending = some j then 1 else 0) = s.pool.ghost.raised.count j
  fresh : ∀ e ∈ s.destroyedEvents, e < s.nevents

theorem submits (h : ∀ j ∈ s.pool.ghost.accepted, j < s.pool.njobs) (mainthread : Bool) (arg : JobArg) (timeoutTicks : ℤ) :
    Submits mainthread s.pool.njobs (s.pool.createJob timeoutTicks) (s.submit mainthread arg timeoutTicks).pool :=
  have howned : (s.pool.createJob timeoutTicks).Owned s.pool.njobs :=
    ⟨Nat.lt_succ_self _,fun hmem => absurd (h _ hmem) (Nat.lt_irrefl _)⟩
  submit_submits howned mainthread

namespace Held

/-- A job that is new has not been raised. -/
theorem raised_new (h : Held none none s) : s.pool.ghost.raised.count s.pool.njobs = 0 := by
  have hplace := h.accounts.place s.pool.njobs
  have hzero : s.pool.ghost.accepted.count s.pool.njobs = 0 :=
    List.count_eq_zero.mpr fun hmem => absurd (h.created _ hmem) (Nat.lt_irrefl _)
  simp only [reduceCtorEq,if_false] at hplace
  omega

theorem accepted_mem (h : Held retiring ending s) (mainthread : Bool) (arg : JobArg) (timeoutTicks : ℤ) {j : JobId}
    (hj : j ∈ (s.submit mainthread arg timeoutTicks).pool.ghost.accepted) : j < s.pool.njobs + 1 := by
  rw [(submits h.created mainthread arg timeoutTicks).accepted] at hj
  rcases List.mem_append.mp hj with hj | hj
  · exact Nat.lt_succ_of_lt (h.created j hj)
  · split at hj
    · rw [List.mem_singleton.mp hj]
      exact Nat.lt_succ_self _
    · cases hj

theorem args_old (arg : JobArg) {j : JobId} (hj : j < s.pool.njobs) :
    Function.update s.args s.pool.njobs arg j = s.args j := Function.update_of_ne (Nat.ne_of_lt hj) _ _

theorem submitLog (h : Held retiring ending s) (mainthread : Bool) (level : IBLogLevel) (message : Bytes) (timeoutTicks : ℤ) :
    Held retiring ending (s.submit mainthread (.log level message) timeoutTicks) := by
  have hs := submits h.created mainthread (.log level message) timeoutTicks
  have hn : (s.submit mainthread (.log level message) timeoutTicks).pool.njobs = s.pool.njobs + 1 := hs.njobs
  -- The new job carries no event.
  have hold : ∀ j < s.pool.njobs + 1, ∀ hdl e,
      Function.update s.args s.pool.njobs (.log level message) j = .handler hdl e →
        j < s.pool.njobs ∧ s.args j = .handler hdl e := by
    intro j hj hdl e harg
    rcases Nat.lt_succ_iff_lt_or_eq.mp hj with hj | rfl
    · rw [args_old _ hj] at harg
      exact ⟨hj,harg⟩
    · rw [Function.update_self] at harg
      cases harg
  refine ⟨(h.accounts.createJob timeoutTicks).submit mainthread _,fun j hj => hn ▸ h.accepted_mem _ _ _ hj,fun e he => ?_,
    fun i hi j hj hdl hdl' e hei hej => ?_,fun j hj hdl e harg => ?_,h.fresh⟩
  · obtain ⟨j,hj,hdl,harg⟩ := h.carried e he
    exact ⟨j,hn ▸ Nat.lt_succ_of_lt hj,hdl,(args_old _ hj).trans harg⟩
  · rw [hn] at hi hj
    obtain ⟨hi,hei⟩ := hold i hi hdl e hei
    obtain ⟨hj,hej⟩ := hold j hj hdl' e hej
    exact h.single i hi j hj hdl hdl' e hei hej
  · rw [hn] at hj
    obtain ⟨hj,harg⟩ := hold j hj hdl e harg
    rw [hs.raised]
    exact h.event j hj hdl e harg

theorem logMsg (h : Held retiring ending s) (mainthread : Bool) (level : IBLogLevel) (message : Bytes) :
    Held retiring ending (s.logMsg mainthread level message) := by
  unfold Submitters.logMsg
  split
  · split
    · exact h.submitLog mainthread level message 8
    · exact { h with }
  · exact h

theorem executeHandler (h : Held none none s) (hdl : IrcBotEventHandler) (e : IrcBotEvent) :
    Held none none (s.executeHandler hdl e) := by
  have hs : Submits true s.pool.njobs (s.pool.createJob 30) (s.executeHandler hdl e).pool :=
    submits h.created true (.handler hdl s.nevents) 30
  have hn : (s.executeHandler hdl e).pool.njobs = s.pool.njobs + 1 := hs.njobs
  have hnew : s.destroyedEvents.count s.nevents = 0 :=
    List.count_eq_zero.mpr fun hmem => absurd (h.fresh _ hmem) (Nat.lt_irrefl _)
  have hold : ∀ j < s.pool.njobs + 1, ∀ hdl' e',
      Function.update s.args s.pool.njobs (.handler hdl s.nevents) j = .handler hdl' e' →
        (j < s.pool.njobs ∧ s.args j = .handler hdl' e' ∧ e' < s.nevents) ∨ (j = s.pool.njobs ∧ e' = s.nevents) := by
    intro j hj hdl' e' harg
    rcases Nat.lt_succ_iff_lt_or_eq.mp hj with hj | rfl
    · rw [args_old _ hj] at harg
      exact .inl ⟨hj,harg,(h.event j hj hdl' e' harg).1⟩
    · rw [Function.update_self] at harg
      cases harg
      exact .inr ⟨rfl,rfl⟩
  refine ⟨(h.accounts.createJob 30).submit true _,fun j hj => hn ▸ h.accepted_mem true (.handler hdl s.nevents) 30 hj,fun e' he => ?_,
    fun i hi j hj hdl₁ hdl₂ e' hei hej => ?_,fun j hj hdl' e' harg => ?_,fun e' he => Nat.lt_succ_of_lt (h.fresh e' he)⟩
  · rcases Nat.lt_succ_iff_lt_or_eq.mp he with he | rfl
    · obtain ⟨j,hj,hdl',harg⟩ := h.carried e' he
      exact ⟨j,hn ▸ Nat.lt_succ_of_lt hj,hdl',(args_old _ hj).trans harg⟩
    · exact ⟨s.pool.njobs,hn ▸ Nat.lt_succ_self _,hdl,Function.update_self ..⟩
  · rw [hn] at hi hj
    rcases hold i hi hdl₁ e' hei with ⟨hi,hei,hlt⟩ | ⟨rfl,rfl⟩
    · rcases hold j hj hdl₂ e' hej with ⟨hj,hej,_⟩ | ⟨_,rfl⟩
      · exact h.single i hi j hj hdl₁ hdl₂ e' hei hej
      · exact absurd hlt (Nat.lt_irrefl _)
    · rcases hold j hj hdl₂ _ hej with ⟨_,_,hlt⟩ | ⟨rfl,_⟩
      · exact absurd hlt (Nat.lt_irrefl _)
      · rfl
  · rw [hn] at hj
    rw [hs.raised]
    change _ ∧ s.destroyedEvents.count e' + _ = s.pool.ghost.raised.count j
    rcases hold j hj hdl' e' harg with ⟨hj,harg,hlt⟩ | ⟨rfl,rfl⟩
    · exact ⟨Nat.lt_succ_of_lt hlt,(h.event j hj hdl' e' harg).2⟩
    · rw [hnew,h.raised_new]
      exact ⟨Nat.lt_succ_self _,rfl⟩

/-- What is known of a worker with a job, and of the argument of the job, while lines are logged. -/
theorem logLines (h : Held retiring ending s) {t : Thread} (ht : s.pool.threads[i]? = some t) (hjob : t.job = some job)
    (hlt : job < s.pool.njobs) (lines : List (IBLogLevel × Bytes)) {u : Submitters}
    (hu : lines.foldl (fun self line => self.logMsg true line.1 line.2) s = u) :
    Held retiring ending u ∧ u.pool.threads[i]? = some t ∧ job < u.pool.njobs ∧ u.args job = s.args job := by
  subst hu
  refine List.foldlRecOn (motive := fun u => Held retiring ending u ∧ u.pool.threads[i]? = some t ∧
    job < u.pool.njobs ∧ u.args job = s.args job) lines _ ⟨h,ht,hlt,rfl⟩ ?_
  rintro u ⟨hu,hthread,hlt,harg⟩ line _
  refine ⟨hu.logMsg true line.1 line.2,?_⟩
  unfold Submitters.logMsg
  split
  · split
    · refine ⟨submit_thread (show (u.pool.createJob 8).threads[i]? = some t from hthread) hjob true u.pool.njobs,?_,(args_old _ hlt).trans harg⟩
      rw [(submits hu.created true (.log line.1 line.2) 8).njobs]
      exact Nat.lt_succ_of_lt hlt
    · exact ⟨hthread,hlt,harg⟩
  · exact ⟨hthread,hlt,harg⟩

theorem destroyBotEvent (h : Held retiring (some job) s) (hlt : job < s.pool.njobs) {hdl : IrcBotEventHandler} {e : EventId}
    (harg : s.args job = .handler hdl e) : Held retiring none (s.destroyBotEvent e) := by
  refine { h with event := fun j hj hdl' e' hj' => ?_, fresh := fun e' he' => ?_ }
  · obtain ⟨he,hcount⟩ := h.event j hj hdl' e' hj'
    refine ⟨he,?_⟩
    change (s.destroyedEvents ++ [e]).count e' + _ = s.pool.ghost.raised.count j
    rw [← hcount,count_snoc]
    have hiff : e = e' ↔ job = j := by
      refine ⟨fun heq => h.single job hlt j hj hdl hdl' e harg (heq ▸ hj'),?_⟩
      rintro rfl
      have hsame : JobArg.handler hdl e = .handler hdl' e' := harg.symm.trans hj'
      cases hsame
      rfl
    simp [hiff]
  · rcases List.mem_append.mp he' with he' | he'
    · exact h.fresh e' he'
    · rw [List.mem_singleton.mp he']
      exact (h.event job hlt hdl e harg).1

/-- The job of a worker was created. -/
theorem assigned (h : Held none none s) {running : Bool} (ht : s.pool.threads[i]? = some ⟨some job,running⟩) :
    job < s.pool.njobs := by
  have hpos : 0 < s.pool.workers job := List.countP_pos_iff.mpr ⟨_,List.mem_of_getElem? ht,by simp⟩
  have hplace := h.accounts.place job
  simp only [reduceCtorEq,if_false] at hplace
  exact h.created job (List.count_pos_iff.mp (by omega))

/-- The job retires, and its argument is still to be destroyed. -/
theorem raised (h : Held none none s) : Held (some job) (some job) { s with pool.ghost.raised := s.pool.ghost.raised ++ [job] } := by
  refine { h with accounts := h.accounts.raised job, event := fun j hj hdl e harg => ?_ }
  obtain ⟨he,hcount⟩ := h.event j hj hdl e harg
  refine ⟨he,?_⟩
  change _ = (s.pool.ghost.raised ++ [job]).count j
  rw [count_snoc,← hcount]
  simp

/-- The event of a job that retires is destroyed. -/
theorem raiseFinished (h : Held none none s) {running : Bool} (ht : s.pool.threads[i]? = some ⟨some job,running⟩)
    (lines : List (IBLogLevel × Bytes)) : Held (some job) none (s.raiseFinished job lines) ∧
      (s.raiseFinished job lines).pool.threads[i]? = some ⟨some job,running⟩ := by
  have hlt := h.assigned ht
  have haccounts := h.accounts.raised job
  unfold Submitters.raiseFinished
  dsimp only
  split
  · next hdl e harg =>
    obtain ⟨hlines,hthread,hlt,hsame⟩ := h.raised.logLines ht rfl hlt _ rfl
    exact ⟨hlines.destroyBotEvent hlt (hsame.trans harg),hthread⟩
  · next level message harg =>
    refine ⟨{ h with accounts := haccounts, event := fun j hj hdl e hj' => ?_ },ht⟩
    obtain ⟨he,hcount⟩ := h.event j hj hdl e hj'
    have hne : job ≠ j := by
      rintro rfl
      rw [harg] at hj'
      cases hj'
    refine ⟨he,hcount.trans ?_⟩
    change _ = (s.pool.ghost.raised ++ [job]).count j
    rw [count_snoc]
    simp [hne]

/-- A step of the pool alone, which neither creates nor retires a job. -/
theorem withPool (h : Held retiring none s) {retiring' : Option JobId} {pool : ThreadPool}
    (haccounts : Accounts s.panicked retiring' pool)
    (hn : pool.njobs = s.pool.njobs) (haccepted : pool.ghost.accepted = s.pool.ghost.accepted)
    (hraised : pool.ghost.raised = s.pool.ghost.raised) : Held retiring' none { s with pool := pool } where
  accounts := haccounts
  created := fun j hj => hn ▸ h.created j (haccepted ▸ hj)
  carried := fun e he => hn ▸ h.carried e he
  single := fun i hi j hj => h.single i (hn ▸ hi) j (hn ▸ hj)
  event := fun j hj hdl e harg => hraised ▸ h.event j (hn ▸ hj) hdl e harg
  fresh := h.fresh

theorem initial (h : s.Initial) : Held none none s where
  accounts := h.panicked.symm ▸ (Orderly.initial h.pool).toAccounts
  created := fun j hj => by simp [h.pool.ghost] at hj
  carried := fun e he => absurd he (by simp [h.nevents])
  single := fun i hi => absurd hi (by simp [h.pool.njobs])
  event := fun j hj => absurd hj (by simp [h.pool.njobs])
  fresh := fun e he => by simp [h.destroyedEvents] at he

end Held
end Submitters

theorem ThreadPool.startNext_logs (pool : ThreadPool) (i : ℕ) : (pool.startNext i).njobs = pool.njobs ∧
    (pool.startNext i).ghost.accepted = pool.ghost.accepted ∧ (pool.startNext i).ghost.raised = pool.ghost.raised := by
  unfold startNext
  dsimp only
  split <;> exact ⟨rfl,rfl,rfl⟩

namespace Submitters
variable {s : Submitters} {i : ℕ} {job : JobId}

namespace Held

theorem retire (h : Held none none s) (ht : s.pool.threads[i]? = some ⟨some job,false⟩)
    (lines : List (IBLogLevel × Bytes)) : Held none none (s.retire i job lines) := by
  obtain ⟨hraise,ht⟩ := h.raiseFinished ht lines
  obtain ⟨hlt,_⟩ := List.getElem?_eq_some_iff.mp ht
  have hnext := (hraise.accounts.release ht).startNext (i := i) (t := ⟨none,false⟩) (List.getElem?_set_self hlt) rfl
  obtain ⟨hn,haccepted,hraised⟩ := ThreadPool.startNext_logs
    { (s.raiseFinished job lines).pool.destroyJob job with
      threads := (s.raiseFinished job lines).pool.threads.set i ⟨none,false⟩ } i
  exact hraise.withPool hnext.1 hn haccepted hraised

/-- The main thread writes the message of a panic itself. -/
theorem servicePanic_eq (s : Submitters) (msg : Bytes) : ∃ written, s.servicePanic msg =
    { s with log.logasync := false, running := false, written := written } := by
  unfold servicePanic Submitters.logMsg
  dsimp only
  split <;> exact ⟨_,rfl⟩

theorem jobPanicked (h : Held none none s) (ht : s.pool.threads[i]? = some ⟨some job,false⟩) (msg : Bytes) :
    Held none none (s.jobPanicked i job msg) := by
  obtain ⟨written,he⟩ := servicePanic_eq { s with
    pool := { s.pool.destroyJob job with threads := s.pool.threads.set i ⟨none,false⟩ }
    panicked := s.panicked ++ [job] } msg
  rw [Submitters.jobPanicked,he]
  exact { h with accounts := (h.accounts.panics job).release ht }

theorem threadJobDone (h : Held none none s) (i : ℕ) (lines : List (IBLogLevel × Bytes)) :
    Held none none (s.threadJobDone i lines) := by
  unfold Submitters.threadJobDone
  split
  · next ht =>
    split
    · exact h.jobPanicked ht _
    · exact h.retire ht lines
  · exact h

/-- Every step but the shutdown of the pool. -/
theorem step (h : Held none none s) (l : Label) (hl : l ≠ .threadPoolDone) : Held none none (Submitters.step l s) := by
  cases l with
  | event hdl e =>
    change Held none none (if _ then _ else _)
    split
    · exact h.executeHandler hdl e
    · exact h
  | log level message => exact h.logMsg true level message
  | logFrom i level message =>
    change Held none none (if _ then _ else _)
    split
    · exact h.logMsg false level message
    · exact h
  | complete i => exact h.withPool (h.accounts.complete i) rfl rfl rfl
  | panicFrom i msg =>
    change Held none none (s.panicFrom i msg)
    unfold Submitters.panicFrom
    split
    · exact { h.withPool (h.accounts.complete i) rfl rfl rfl with }
    · exact h
  | threadJobDone i lines =>
    change Held none none (if _ then _ else _)
    split
    · exact h.threadJobDone i lines
    · exact h
  | checkThreadJobs =>
    obtain ⟨jobs,he⟩ := checkThreadJobs_shape s.pool
    change Held none none (if _ then { s with pool := s.pool.checkThreadJobs } else s)
    rw [he]
    split
    · exact h.withPool { h.accounts with } rfl rfl rfl
    · exact h
  | configure log => exact { h with }
  | leave => exact { h with }
  | threadPoolDone => exact absurd rfl hl

end Held

/-! ## When every job is accepted -/

def AllAccepted (s : Submitters) : Prop := ∀ j < s.pool.njobs, j ∈ s.pool.ghost.accepted

def InPool (s : Submitters) (job : JobId) : Prop := 0 < s.pool.queue.slots job + s.pool.workers job

/-- Each job is in the pool or destroyed, and each event is destroyed once, or not yet and a job in
the pool carries it. -/
structure Kept (s : Submitters) : Prop where
  jobs : ∀ j < s.pool.njobs, s.InPool j ∨ s.pool.ghost.destroyed.count j = 1
  events : ∀ e < s.nevents, s.destroyedEvents.count e = 1 ∨
    (s.destroyedEvents.count e = 0 ∧ ∃ j hdl, s.args j = .handler hdl e ∧ s.InPool j)

def Harmless (s : Submitters) : Prop := ∀ j ∈ s.panicked, ∀ hdl e, s.args j ≠ .handler hdl e

/-- The places of a job add up. -/
theorem Held.place (h : Held none none s) (j : JobId) : s.pool.queue.slots j + s.pool.workers j +
    (s.pool.ghost.raised.count j + s.panicked.count j) = s.pool.ghost.accepted.count j := by
  simpa using h.accounts.place j

theorem Held.destroyed (h : Held none none s) (j : JobId) :
    s.pool.ghost.destroyed.count j = s.pool.ghost.raised.count j + s.panicked.count j := by
  simpa using h.accounts.destroyed j

theorem Held.destroyedEvent (h : Held none none s) (hj : job < s.pool.njobs) {hdl : IrcBotEventHandler} {e : EventId}
    (harg : s.args job = .handler hdl e) : s.destroyedEvents.count e = s.pool.ghost.raised.count job := by
  simpa using (h.event job hj hdl e harg).2

theorem Held.kept_iff (h : Held none none s) : s.Kept ↔ s.AllAccepted ∧ s.Harmless := by
  refine ⟨fun hk => ⟨fun j hj => ?_,fun j hmem hdl e harg => ?_⟩,fun ⟨ha,hharm⟩ => ⟨fun j hj => ?_,fun e he => ?_⟩⟩
  · have hp := h.place j
    have hd := h.destroyed j
    refine List.count_pos_iff.mp ?_
    rcases hk.jobs j hj with hin | hone
    · have hin : 0 < s.pool.queue.slots j + s.pool.workers j := hin
      omega
    · omega
  -- The event of a job that has panicked is neither destroyed nor carried by a job of the pool.
  · have hp := h.place j
    have hpos := List.count_pos_iff.mpr hmem
    have hone := h.accounts.accepted j
    have hj := h.created j (List.count_pos_iff.mp (by omega))
    have hcount := h.destroyedEvent hj harg
    rcases hk.events e (h.event j hj hdl e harg).1 with he | ⟨_,k,hdl',hk',hin⟩
    · omega
    · have hin : 0 < s.pool.queue.slots k + s.pool.workers k := hin
      have hplace := h.place k
      have hk := h.created k (List.count_pos_iff.mp (by omega))
      have hsame := h.single k hk j hj hdl' hdl e hk' harg
      subst hsame
      omega
  · have hp := h.place j
    have hd := h.destroyed j
    have hpos := List.count_pos_iff.mpr (ha j hj)
    have hone := h.accounts.accepted j
    by_cases hin : 0 < s.pool.queue.slots j + s.pool.workers j
    · exact .inl hin
    · exact .inr (by omega)
  · obtain ⟨j,hj,hdl,harg⟩ := h.carried e he
    have hcount := h.destroyedEvent hj harg
    have hp := h.place j
    have hpos := List.count_pos_iff.mpr (ha j hj)
    have hone := h.accounts.accepted j
    have hzero : s.panicked.count j = 0 := List.count_eq_zero.mpr fun hmem => hharm j hmem hdl e harg
    by_cases hin : 0 < s.pool.queue.slots j + s.pool.workers j
    · exact .inr ⟨by omega,j,hdl,harg,hin⟩
    · exact .inl (by omega)

theorem submit_allAccepted (h : ∀ j ∈ s.pool.ghost.accepted, j < s.pool.njobs) (mainthread : Bool) (arg : JobArg)
    (timeoutTicks : ℤ) : (s.submit mainthread arg timeoutTicks).AllAccepted ↔
      s.AllAccepted ∧ 0 < s.pool.capacity mainthread := by
  have hs := submits h mainthread arg timeoutTicks
  have hn : (s.submit mainthread arg timeoutTicks).pool.njobs = s.pool.njobs + 1 := hs.njobs
  have haccepted : (s.submit mainthread arg timeoutTicks).pool.ghost.accepted =
      s.pool.ghost.accepted ++ if 0 < s.pool.capacity mainthread then [s.pool.njobs] else [] := hs.accepted
  unfold AllAccepted
  rw [hn,haccepted]
  refine ⟨fun ha => ?_,fun ⟨ha,hpos⟩ j hj => ?_⟩
  · have hnot : s.pool.njobs ∉ s.pool.ghost.accepted := fun hmem => absurd (h _ hmem) (Nat.lt_irrefl _)
    refine ⟨fun j hj => ?_,?_⟩
    · rcases List.mem_append.mp (ha j (Nat.lt_succ_of_lt hj)) with hmem | hmem
      · exact hmem
      · split at hmem
        · exact absurd (List.mem_singleton.mp hmem) (Nat.ne_of_lt hj)
        · cases hmem
    · rcases List.mem_append.mp (ha _ (Nat.lt_succ_self _)) with hmem | hmem
      · exact absurd hmem hnot
      · split at hmem
        · assumption
        · cases hmem
  · rw [if_pos hpos]
    rcases Nat.lt_succ_iff_lt_or_eq.mp hj with hj | rfl
    · exact List.mem_append_left _ (ha j hj)
    · exact List.mem_append_right _ (List.mem_singleton.mpr rfl)

def RoomFor (mainthread : Bool) (level : IBLogLevel) (s : Submitters) : Prop :=
  s.log.passes level → (s.log.logasync && s.active) → 0 < s.pool.capacity mainthread

theorem Held.logMsg_allAccepted {retiring ending : Option JobId} (h : Held retiring ending s) (mainthread : Bool)
    (level : IBLogLevel) (message : Bytes) : (s.logMsg mainthread level message).AllAccepted ↔
      s.AllAccepted ∧ s.RoomFor mainthread level := by
  unfold Submitters.logMsg RoomFor
  split
  · next hp =>
    split
    · next ha => simpa [hp,ha] using submit_allAccepted h.created mainthread (.log level message) 8
    · next ha => simp [ha,AllAccepted]
  · next hp => simp [hp]

def RoomForLines (lines : List (IBLogLevel × Bytes)) (s : Submitters) : Prop :=
  (s.log.logasync && s.active) → lines.countP (s.log.passes ·.1) ≤ s.pool.capacity true

theorem Held.logLines_allAccepted {retiring ending : Option JobId} (h : Held retiring ending s)
    (lines : List (IBLogLevel × Bytes)) :
    (lines.foldl (fun self line => self.logMsg true line.1 line.2) s).AllAccepted ↔ s.AllAccepted ∧ s.RoomForLines lines := by
  induction lines generalizing s with
  | nil => simp [RoomForLines]
  | cons line lines ih =>
    have hstep := h.logMsg_allAccepted true line.1 line.2
    rw [List.foldl_cons,ih (h.logMsg true line.1 line.2),hstep,and_assoc]
    refine and_congr_right fun _ => ?_
    unfold RoomFor RoomForLines Submitters.logMsg
    by_cases hp : s.log.passes line.1
    · rw [if_pos hp]
      by_cases ha : (s.log.logasync && s.active) = true
      · have hcap := (submits h.created true (.log line.1 line.2) 8).capacity
        change (s.submit true (.log line.1 line.2) 8).pool.capacity true = s.pool.capacity true - 1 at hcap
        have hlog : (s.submit true (.log line.1 line.2) 8).log = s.log := rfl
        have hactive : (s.submit true (.log line.1 line.2) 8).active = s.active := rfl
        simp only [ha,if_true,hlog,hactive,hp,hcap,List.countP_cons,true_implies]
        omega
      · simp [ha]
    · simp [hp]

/-- There is room for every job that the step submits, and the argument of no event goes with a job: no job with an
event has panicked when it is taken back, and the pool has none when it is shut down, nor a job at a worker. -/
def Room : Label → Submitters → Prop
  | .event _ _, s => s.running → 0 < s.pool.capacity true
  | .log level _, s => s.RoomFor true level
  | .logFrom i level _, s => (s.pool.threads[i]?.map Thread.running).getD false → s.RoomFor false level
  | .threadJobDone i lines, s => s.running → ∀ job hdl e, s.pool.threads[i]? = some ⟨some job,false⟩ →
      s.args job = .handler hdl e → s.panicmsg job = none ∧ s.RoomForLines (s.finishedLines job lines)
  | .threadPoolDone, s => s.drained → (∀ t ∈ s.pool.threads, t.job = none) ∧
      ∀ job hdl e, some job ∈ s.pool.queue.jobQueue → s.args job ≠ .handler hdl e
  | _, _ => True

theorem startNext_allAccepted (pool : ThreadPool) (i : ℕ) : AllAccepted { s with pool := pool.startNext i } ↔
    ∀ j < pool.njobs, j ∈ pool.ghost.accepted := by
  obtain ⟨hn,haccepted,_⟩ := pool.startNext_logs i
  unfold AllAccepted
  rw [hn,haccepted]

theorem Held.raiseFinished_allAccepted (h : Held none none s) (job : JobId) (lines : List (IBLogLevel × Bytes)) :
    (s.raiseFinished job lines).AllAccepted ↔ s.AllAccepted ∧ ∀ hdl e, s.args job = .handler hdl e →
      s.RoomForLines (s.finishedLines job lines) := by
  unfold Submitters.raiseFinished
  dsimp only
  split
  · next hdl e harg =>
    have hraised : Held (some job) (some job) { s with pool.ghost.raised := s.pool.ghost.raised ++ [job] } := h.raised
    have hlines := hraised.logLines_allAccepted (s.finishedLines job lines)
    refine hlines.trans (and_congr_right fun _ => ⟨fun hroom _ _ _ => hroom,fun hroom => hroom hdl e harg⟩)
  · next level message harg =>
    refine ⟨fun ha => ⟨ha,fun hdl e he => ?_⟩,fun ha => ha.1⟩
    exact absurd (harg.symm.trans he) (by simp)

/-- What a step leaves of the jobs that are there. -/
structure Keeps (s t : Submitters) : Prop where
  panicked : t.panicked = s.panicked
  args : ∀ j < s.pool.njobs, t.args j = s.args j
  njobs : s.pool.njobs ≤ t.pool.njobs

namespace Keeps

theorem refl (s : Submitters) : s.Keeps s := ⟨rfl,fun _ _ => rfl,le_rfl⟩

theorem trans {t u : Submitters} (h : s.Keeps t) (h' : t.Keeps u) : s.Keeps u :=
  ⟨h'.panicked.trans h.panicked,fun j hj => (h'.args j (hj.trans_le h.njobs)).trans (h.args j hj),h.njobs.trans h'.njobs⟩

theorem submit (s : Submitters) (mainthread : Bool) (arg : JobArg) (timeoutTicks : ℤ) :
    s.Keeps (s.submit mainthread arg timeoutTicks) := by
  refine ⟨rfl,fun j hj => Held.args_old arg hj,?_⟩
  change s.pool.njobs ≤ ((s.pool.createJob timeoutTicks).submit mainthread s.pool.njobs).njobs
  rcases submit_cases mainthread s.pool.njobs with he | ⟨_,⟨_,_,_,_,he⟩ | ⟨_,_,he⟩⟩ <;> rw [he] <;>
    exact Nat.le_succ _

theorem logMsg (s : Submitters) (mainthread : Bool) (level : IBLogLevel) (message : Bytes) :
    s.Keeps (s.logMsg mainthread level message) := by
  unfold Submitters.logMsg
  split
  · split
    · exact .submit s mainthread _ 8
    · exact { refl s with }
  · exact refl s

theorem logLines (s : Submitters) (lines : List (IBLogLevel × Bytes)) :
    s.Keeps (lines.foldl (fun self line => self.logMsg true line.1 line.2) s) :=
  List.foldlRecOn (motive := s.Keeps) lines _ (refl s) fun u hu line _ => hu.trans (logMsg u true line.1 line.2)

theorem retire (s : Submitters) (i : ℕ) (job : JobId) (lines : List (IBLogLevel × Bytes)) : s.Keeps (s.retire i job lines) := by
  have hraise : s.Keeps (s.raiseFinished job lines) := by
    unfold Submitters.raiseFinished
    dsimp only
    split
    · next hdl e harg =>
      have hlines := logLines { s with pool.ghost.raised := s.pool.ghost.raised ++ [job] } (s.finishedLines job lines)
      exact ⟨hlines.panicked,hlines.args,hlines.njobs⟩
    · exact { refl s with }
  obtain ⟨hn,_⟩ := ThreadPool.startNext_logs { (s.raiseFinished job lines).pool.destroyJob job with
    threads := (s.raiseFinished job lines).pool.threads.set i ⟨none,false⟩ } i
  exact ⟨hraise.panicked,hraise.args,hraise.njobs.trans_eq hn.symm⟩

theorem harmless {t : Submitters} (hk : s.Keeps t) (h : Held none none s) (hs : s.Harmless) : t.Harmless := by
  intro j hmem hdl e
  rw [hk.panicked] at hmem
  have hpos := List.count_pos_iff.mpr hmem
  have hplace := h.place j
  rw [hk.args j (h.created j (List.count_pos_iff.mp (by omega)))]
  exact hs j hmem hdl e

end Keeps

theorem Held.retire_allAccepted (h : Held none none s) (i : ℕ) (job : JobId) (lines : List (IBLogLevel × Bytes)) :
    (s.retire i job lines).AllAccepted ↔ s.AllAccepted ∧ ∀ hdl e, s.args job = .handler hdl e →
      s.RoomForLines (s.finishedLines job lines) :=
  (startNext_allAccepted _ i).trans (h.raiseFinished_allAccepted job lines)

/-- A job that has panicked is not refused, but its event is lost. -/
theorem jobPanicked_careful (i : ℕ) (job : JobId) (msg : Bytes) (ha : s.AllAccepted) (hs : s.Harmless) :
    (s.jobPanicked i job msg).AllAccepted ∧
      ((s.jobPanicked i job msg).Harmless ↔ ∀ hdl e, s.args job ≠ .handler hdl e) := by
  obtain ⟨written,he⟩ := Held.servicePanic_eq { s with
    pool := { s.pool.destroyJob job with threads := s.pool.threads.set i ⟨none,false⟩ }
    panicked := s.panicked ++ [job] } msg
  rw [jobPanicked,he]
  refine ⟨ha,fun hharm => hharm job (List.mem_append_right _ (List.mem_singleton.mpr rfl)),fun hno j hj => ?_⟩
  rcases List.mem_append.mp hj with hj | hj
  · exact hs j hj
  · rw [List.mem_singleton.mp hj]
    exact hno

/-- A step other than the shutdown of the pool refuses no job and loses no event if and only if there is room. -/
theorem Held.step_careful (h : Held none none s) (ha : s.AllAccepted) (hs : s.Harmless) (l : Label)
    (hl : l ≠ .threadPoolDone) : (Submitters.step l s).AllAccepted ∧ (Submitters.step l s).Harmless ↔ Room l s := by
  cases l with
  | event hdl e =>
    change (if _ then _ else _ : Submitters).AllAccepted ∧ (if _ then _ else _ : Submitters).Harmless ↔ (_ → _)
    split
    · next hrun =>
      let t : Submitters := { s with events := Function.update s.events s.nevents e, nevents := s.nevents + 1 }
      have haccept := submit_allAccepted (s := t) h.created true (.handler hdl s.nevents) 30
      have hkeeps : s.Keeps (s.executeHandler hdl e) :=
        (show s.Keeps t from { Keeps.refl s with }).trans (.submit t true (.handler hdl s.nevents) 30)
      rw [and_iff_left (hkeeps.harmless h hs)]
      exact haccept.trans ⟨fun hroom _ => hroom.2,fun hroom => ⟨ha,hroom hrun⟩⟩
    · next hrun => simp [hrun,ha,hs]
  | log level message =>
    exact (and_iff_left ((Keeps.logMsg s true level message).harmless h hs)).trans
      ((h.logMsg_allAccepted true level message).trans (and_iff_right ha))
  | logFrom i level message =>
    change (if _ then _ else _ : Submitters).AllAccepted ∧ (if _ then _ else _ : Submitters).Harmless ↔ (_ → _)
    split
    · next hrun =>
      rw [and_iff_left ((Keeps.logMsg s false level message).harmless h hs),h.logMsg_allAccepted]
      simp [hrun,ha]
    · next hrun => simp [hrun,ha,hs]
  | complete i => exact iff_of_true ⟨ha,hs⟩ trivial
  | panicFrom i msg =>
    change (s.panicFrom i msg).AllAccepted ∧ (s.panicFrom i msg).Harmless ↔ True
    unfold Submitters.panicFrom
    split <;> exact iff_of_true ⟨ha,hs⟩ trivial
  | threadJobDone i lines =>
    change (if _ then _ else _ : Submitters).AllAccepted ∧ (if _ then _ else _ : Submitters).Harmless ↔ (_ → _)
    split
    · next hrun =>
      rw [imp_iff_right hrun]
      unfold Submitters.threadJobDone
      split
      · next job ht =>
        have hsame : ∀ {p : JobId → IrcBotEventHandler → EventId → Prop}, (∀ job' hdl e,
            s.pool.threads[i]? = some ⟨some job',false⟩ → p job' hdl e) ↔ ∀ hdl e, p job hdl e := by
          refine ⟨fun hall hdl e => hall job hdl e ht,fun hall job' hdl e hjob => ?_⟩
          rw [ht] at hjob
          cases hjob
          exact hall hdl e
        rw [hsame]
        split
        · next msg hmsg =>
          obtain ⟨haccept,hharm⟩ := jobPanicked_careful i job msg ha hs
          rw [and_iff_right haccept,hharm]
          simp [hmsg]
        · next hmsg =>
          rw [and_iff_left ((Keeps.retire s i job lines).harmless h hs),h.retire_allAccepted,and_iff_right ha]
          simp [hmsg]
      · next hno => exact iff_of_true ⟨ha,hs⟩ fun job _ _ ht => absurd ht (hno job)
    · next hrun => exact iff_of_true ⟨ha,hs⟩ fun hr => absurd hr hrun
  | checkThreadJobs =>
    obtain ⟨jobs,he⟩ := checkThreadJobs_shape s.pool
    change (if _ then { s with pool := s.pool.checkThreadJobs } else s : Submitters).AllAccepted ∧
      (if _ then { s with pool := s.pool.checkThreadJobs } else s : Submitters).Harmless ↔ True
    rw [he]
    split <;> exact iff_of_true ⟨ha,hs⟩ trivial
  | configure log => exact iff_of_true ⟨ha,hs⟩ trivial
  | leave => exact iff_of_true ⟨ha,hs⟩ trivial
  | threadPoolDone => exact absurd rfl hl

/-! ## The end of the pool -/

theorem threadPoolDone_destroyed (s : Submitters) (j : JobId) :
    s.threadPoolDone.pool.ghost.destroyed.count j = s.pool.ghost.destroyed.count j + s.pool.queue.slots j := by
  have hcount : (s.pool.queue.jobQueue.filterMap id).count j = s.pool.queue.slots j := by
    rw [List.count_filterMap]
    rfl
  rw [threadPoolDone,List.count_append,hcount]

theorem not_inPool_done (s : Submitters) (j : JobId) : ¬ s.threadPoolDone.InPool j := Nat.lt_irrefl 0

/-- The shutdown of the pool keeps all jobs and events if and only if no worker has a job and no event waits. -/
theorem Held.threadPoolDone_kept (h : Held none none s) (ha : s.AllAccepted) (hs : s.Harmless) :
    s.threadPoolDone.Kept ↔ (∀ t ∈ s.pool.threads, t.job = none) ∧
      ∀ job hdl e, some job ∈ s.pool.queue.jobQueue → s.args job ≠ .handler hdl e := by
  have haccepted : ∀ j < s.pool.njobs, s.pool.ghost.accepted.count j = 1 := fun j hj =>
    Nat.le_antisymm (h.accounts.accepted j) (List.count_pos_iff.mpr (ha j hj))
  refine ⟨fun hk => ⟨fun t ht => ?_,fun job hdl e hmem harg => ?_⟩,fun ⟨hidle,hwait⟩ => ⟨fun j hj => .inr ?_,fun e he => .inl ?_⟩⟩
  · cases hjob : t.job with
    | none => rfl
    | some job =>
      have hworkers : 0 < s.pool.workers job := List.countP_pos_iff.mpr ⟨t,ht,by simp [hjob]⟩
      have hplace := h.place job
      have hone := h.accounts.accepted job
      have hlt := h.created job (List.count_pos_iff.mp (by omega))
      have hd := h.destroyed job
      rcases hk.jobs job hlt with hin | hin
      · exact absurd hin (s.not_inPool_done job)
      · rw [s.threadPoolDone_destroyed] at hin
        omega
  · have hslots : 0 < s.pool.queue.slots job := List.count_pos_iff.mpr hmem
    have hplace := h.place job
    have hone := h.accounts.accepted job
    have hlt := h.created job (List.count_pos_iff.mp (by omega))
    have hcount := h.destroyedEvent hlt harg
    rcases hk.events e (h.event job hlt hdl e harg).1 with he | ⟨_,k,_,_,hin⟩
    · have he : s.destroyedEvents.count e = 1 := he
      omega
    · exact absurd hin (s.not_inPool_done k)
  · have hworkers : s.pool.workers j = 0 := List.countP_eq_zero.mpr fun t ht => by simp [hidle t ht]
    have hplace := h.place j
    have hd := h.destroyed j
    have hone := haccepted j hj
    rw [s.threadPoolDone_destroyed]
    omega
  · obtain ⟨j,hj,hdl,harg⟩ := h.carried e he
    have hworkers : s.pool.workers j = 0 := List.countP_eq_zero.mpr fun t ht => by simp [hidle t ht]
    have hslots : s.pool.queue.slots j = 0 := List.count_eq_zero.mpr fun hmem => hwait j hdl e hmem harg
    have hpanicked : s.panicked.count j = 0 := List.count_eq_zero.mpr fun hmem => hs j hmem hdl e harg
    have hplace := h.place j
    have hone := haccepted j hj
    have hcount := h.destroyedEvent hj harg
    change s.destroyedEvents.count e = 1
    omega

structure Over (s : Submitters) : Prop where
  running : s.running = false
  active : s.active = false
  threads : s.pool.threads = []
  kept : s.Kept

theorem Over.logMsg (h : s.Over) (mainthread : Bool) (level : IBLogLevel) (message : Bytes) :
    (s.logMsg mainthread level message).Over := by
  have hsync : ¬ (s.log.logasync && s.active) = true := by simp [h.active]
  unfold Submitters.logMsg
  rw [if_neg hsync]
  split
  · exact { h with kept := { h.kept with } }
  · exact h

/-- Nothing is lost any more. -/
theorem Over.step (h : s.Over) (l : Label) : (Submitters.step l s).Over ∧ Room l s := by
  have hnone : ∀ i : ℕ, s.pool.threads[i]? = none := by simp [h.threads]
  cases l with
  | event hdl e => simp [Submitters.step,Room,h.running,h]
  | log level message => exact ⟨h.logMsg true level message,by simp [Room,RoomFor,h.active]⟩
  | logFrom i level message => simp [Submitters.step,Submitters.logFrom,Room,hnone,h]
  | complete i =>
    have hthreads : s.pool.threads.modify i (fun t => { t with running := false }) = s.pool.threads := by
      rw [h.threads,List.modify_nil]
    rw [Submitters.step,ThreadPool.complete,hthreads]
    exact ⟨h,trivial⟩
  | panicFrom i msg => simp [Submitters.step,Submitters.panicFrom,Room,hnone,h]
  | threadJobDone i lines => simp [Submitters.step,Room,h.running,h]
  | checkThreadJobs => simp [Submitters.step,Room,h.running,h]
  | configure log => exact ⟨{ h with kept := { h.kept with } },trivial⟩
  | leave => exact ⟨{ h with running := rfl, kept := { h.kept with } },trivial⟩
  | threadPoolDone => simp [Submitters.step,drained,Room,h.active,h]

/-- A step keeps all jobs and events if and only if there is room. -/
theorem Held.step_kept (h : Held none none s) (ha : s.AllAccepted) (hs : s.Harmless) (l : Label) :
    (Submitters.step l s).Kept ↔ Room l s := by
  by_cases hl : l = .threadPoolDone
  · subst hl
    rw [Submitters.step,Room]
    split
    · next hd => rw [h.threadPoolDone_kept ha hs,imp_iff_right hd]
    · next hd => exact iff_of_true (h.kept_iff.mpr ⟨ha,hs⟩) fun hd' => absurd hd' hd
  · exact (h.step l hl).kept_iff.trans (h.step_careful ha hs l hl)

/-- What holds of every state before the first job or event is lost. -/
theorem held_or_over (h : s.Reached Room) : (Held none none s ∧ s.AllAccepted ∧ s.Harmless) ∨ s.Over := by
  refine Transitions.Reaches.invariant (I := fun s => (Held none none s ∧ s.AllAccepted ∧ s.Harmless) ∨ s.Over)
    (fun t ht => .inl ⟨.initial ht,?_,?_⟩) ?_ h
  · exact fun j hj => absurd hj (by simp [ht.pool.njobs])
  · exact fun j hj => absurd hj (by simp [ht.panicked])
  · rintro l s t (⟨hs,ha,hharm⟩ | hover) hroom he
    · cases he
      by_cases hl : l = .threadPoolDone
      · subst hl
        have hkept := (hs.step_kept ha hharm .threadPoolDone).mpr hroom
        rw [step] at hkept ⊢
        by_cases hd : s.drained
        · rw [if_pos hd] at hkept ⊢
          rw [drained,Bool.and_eq_true,Bool.and_eq_true,Bool.not_eq_true'] at hd
          exact .inr ⟨hd.1.1,rfl,rfl,hkept⟩
        · rw [if_neg hd]
          exact .inl ⟨hs,ha,hharm⟩
      · exact .inl ⟨hs.step l hl,(hs.step_careful ha hharm l hl).mpr hroom⟩
    · cases he
      exact .inr (hover.step l).1

/-- As long as there is room for every job, no event goes with a job that panics, and the pool is only shut down
while no job is at a worker and no event waits, every job and every event is kept; and the first step at which this
is not so loses one. -/
theorem jobs_kept (h : s.Reached Room) : s.Kept ∧ ∀ l, (step l s).Kept ↔ Room l s := by
  rcases held_or_over h with ⟨hs,ha,hharm⟩ | hover
  · exact ⟨hs.kept_iff.mpr ⟨ha,hharm⟩,hs.step_kept ha hharm⟩
  · exact ⟨hover.kept,fun l => iff_of_true (hover.step l).1.kept (hover.step l).2⟩

/-- A worker runs a handler, and a second handler waits in the only slot of the queue. -/
def full : Submitters := step (.event handler event) (step (.event handler event) (init 1 1 ⟨true,.L_INFO,false,true⟩))
where
  handler : IrcBotEventHandler := ⟨0,none,none,none,.IBET_PRIVMSG⟩
  event : IrcBotEvent := ⟨none,none,none,none,.IBET_PRIVMSG⟩

theorem full_reached : full.Reached Room := by
  refine .next (.next (.start (init_initial 0 1 _)) ?_ rfl) ?_ rfl
  · change _ → 0 < _
    decide
  · change _ → 0 < _
    decide

theorem jobs_kept_full : full.Reached Room ∧ full.Kept ∧ ¬(step (.log .L_INFO []) full).Kept := by
  have hall := jobs_kept full_reached
  refine ⟨full_reached,hall.1,fun hkept => ?_⟩
  have hroom : full.RoomFor true .L_INFO := (hall.2 (.log .L_INFO [])).mp hkept
  exact absurd (hroom (by decide) (by decide)) (by decide)

/-- The event of the third handler is in no place, and is never destroyed. -/
theorem third_event_lost : ¬ ∀ s : Submitters, s.Reached (fun _ _ => True) → s.Kept := by
  intro hall
  have hreached : (step (.event full.handler full.event) full).Reached (fun _ _ => True) :=
    .next (.next (.next (.start (init_initial 0 1 _)) trivial rfl) trivial rfl) trivial rfl
  rcases (hall _ hreached).jobs 2 (by decide) with hin | hone
  · exact absurd hin (by unfold InPool; decide)
  · exact absurd hone (by decide)

end Submitters
end LibIrcBot
