import LibIrcBot.Threads.PoolSize

/-! # Options that size the pool safely

The guards of `ThreadPool_init` keep its products small, but nothing keeps a divisor from being zero or
a size from being negative. The options with which both sizes are right are described exactly.
-/
namespace LibIrcBot.IBThreadOpts

/-- Both sizes are computed and positive, and those that are derived keep their limits. -/
structure Safe (opts : IBThreadOpts) (ncpu : Int64) (n q : ℤ) : Prop where
  sizes : opts.sizes ncpu = .ok (n,q)
  threads : 1 ≤ n
  queue : 1 ≤ q
  maxThreads : opts.nThreads.toInt = 0 → 1 ≤ ncpu.toInt → n ≤ opts.maxThreads.toInt
  maxQueue : opts.queueLen.toInt = 0 → q ≤ max opts.maxQueueLen.toInt opts.minQueueLen.toInt

def count (opts : IBThreadOpts) (ncpu : Int64) : ℤ :=
  if opts.nThreads.toInt ≠ 0 then opts.nThreads.toInt
  else if ncpu.toInt < 1 then opts.defNThreads.toInt
  else if 0 < opts.nPerCpu.toInt ∧ opts.nPerCpu.toInt * ncpu.toInt ≤ opts.maxThreads.toInt then
    opts.nPerCpu.toInt * ncpu.toInt
  else opts.maxThreads.toInt

/-- The fixed number of threads is positive, or the default where the processors are unknown, or else the maximum,
with some number of threads for each processor. -/
def SomeThreads (opts : IBThreadOpts) (ncpu : Int64) : Prop :=
  if opts.nThreads.toInt ≠ 0 then 1 ≤ opts.nThreads.toInt
  else if ncpu.toInt < 1 then 1 ≤ opts.defNThreads.toInt
  else 1 ≤ opts.maxThreads.toInt ∧ opts.nPerCpu.toInt ≠ 0

/-- The fixed length of the queue is positive, or the maximum, with some number of entries for each thread. With a
negative maximum the minimum is taken where the negative number of entries for all threads is not less. -/
def SomeQueue (opts : IBThreadOpts) (n : ℤ) : Prop :=
  if opts.queueLen.toInt ≠ 0 then 1 ≤ opts.queueLen.toInt
  else opts.qLenPerThread.toInt ≠ 0 ∧ (1 ≤ opts.maxQueueLen.toInt ∨
    1 ≤ opts.minQueueLen.toInt ∧ opts.qLenPerThread.toInt < 0 ∧
      opts.maxQueueLen.toInt ≤ opts.qLenPerThread.toInt * n ∧
      ¬ (opts.maxQueueLen.toInt = INT_MIN ∧ opts.qLenPerThread.toInt = -1))

variable (opts : IBThreadOpts) (ncpu : Int64)

theorem threads_iff {n : ℤ} : opts.threads ncpu = .ok n ∧ 1 ≤ n ↔ SomeThreads opts ncpu ∧ n = count opts ncpu := by
  unfold threads SomeThreads count
  by_cases hfix : opts.nThreads.toInt ≠ 0
  · simp only [if_pos hfix]
    constructor
    · rintro ⟨hn,hpos⟩
      cases hn
      exact ⟨hpos,rfl⟩
    · rintro ⟨hpos,rfl⟩
      exact ⟨rfl,hpos⟩
  simp only [if_neg hfix]
  by_cases hcpu : ncpu.toInt < 1
  · simp only [if_pos hcpu,if_neg (show ¬ ncpu.toInt ≥ 1 by omega)]
    constructor
    · rintro ⟨hn,hpos⟩
      cases hn
      exact ⟨hpos,rfl⟩
    · rintro ⟨hpos,rfl⟩
      exact ⟨rfl,hpos⟩
  obtain ⟨hl,hu⟩ := range opts.maxThreads
  have hone : 1 ≤ ncpu.toInt := by omega
  simp only [if_neg hcpu,if_pos (show ncpu.toInt ≥ 1 from hone),scaled_eq hl hu hone]
  generalize opts.maxThreads.toInt = top at *
  generalize opts.nPerCpu.toInt = per at *
  generalize ncpu.toInt = cpus at *
  have hpos : 0 < per → 0 < per * cpus := fun hp => Int.mul_pos hp hone
  have hneg : per < 0 → per * cpus < 0 := fun hp => Int.mul_neg_of_neg_of_pos hp hone
  by_cases hz : per = 0
  · simp [hz]
  rw [if_neg hz]
  by_cases hc : top = INT_MIN ∧ per = -1
  · rw [if_pos hc]
    simp [hc.1,INT_MIN]
  rw [if_neg hc]
  by_cases hb : Below top per cpus
  · rw [if_pos hb]
    unfold Below at hb
    constructor
    · rintro ⟨hn,hle⟩
      have hn := Except.ok.inj hn
      rw [if_pos (by omega)]
      exact ⟨by omega,hn.symm⟩
    · rintro ⟨⟨htop,_⟩,rfl⟩
      rw [if_pos (by omega)]
      exact ⟨rfl,by omega⟩
  · rw [if_neg hb]
    unfold Below at hb
    rw [if_neg (by omega)]
    constructor
    · rintro ⟨hn,hle⟩
      have hn := Except.ok.inj hn
      exact ⟨by omega,hn.symm⟩
    · rintro ⟨⟨htop,_⟩,rfl⟩
      exact ⟨rfl,htop⟩

/-- A count from the processors keeps the maximum. -/
theorem count_le (hfix : opts.nThreads.toInt = 0) (hcpu : 1 ≤ ncpu.toInt) : count opts ncpu ≤ opts.maxThreads.toInt := by
  rw [count,if_neg (by simpa using hfix),if_neg (by omega)]
  split
  · next h => exact h.2
  · exact Int.le_refl _

theorem queue_iff {n : ℤ} (hn : 1 ≤ n) : (∃ q, opts.queuesize n = .ok q ∧ 1 ≤ q ∧
      (opts.queueLen.toInt = 0 → q ≤ max opts.maxQueueLen.toInt opts.minQueueLen.toInt)) ↔ SomeQueue opts n := by
  rw [queuesize_eq opts hn]
  unfold SomeQueue
  by_cases hfix : opts.queueLen.toInt ≠ 0
  · rw [if_pos hfix,if_pos hfix]
    constructor
    · rintro ⟨q,hq,hpos,_⟩
      cases hq
      exact hpos
    · intro hpos
      exact ⟨_,rfl,hpos,fun h => absurd h hfix⟩
  rw [if_neg hfix,if_neg hfix]
  obtain ⟨hl,hu⟩ := range opts.maxQueueLen
  generalize opts.maxQueueLen.toInt = top at *
  generalize opts.qLenPerThread.toInt = per at *
  generalize opts.minQueueLen.toInt = least at *
  have hpos : 0 < per → 0 < per * n := fun hp => Int.mul_pos hp hn
  have hneg : per < 0 → per * n < 0 := fun hp => Int.mul_neg_of_neg_of_pos hp hn
  by_cases hz : per = 0
  · simp [hz]
  rw [if_neg hz]
  by_cases hc : top = INT_MIN ∧ per = -1
  · rw [if_pos hc]
    simp [hc.1,hc.2,INT_MIN]
  rw [if_neg hc]
  by_cases hb : Below top per n
  · rw [if_pos hb]
    unfold Below at hb
    constructor
    · rintro ⟨q,hq,hle,_⟩
      have hq := Except.ok.inj hq
      exact ⟨hz,by omega⟩
    · rintro ⟨_,hsome⟩
      exact ⟨_,rfl,by omega,fun _ => by omega⟩
  · rw [if_neg hb]
    unfold Below at hb
    constructor
    · rintro ⟨q,hq,hle,_⟩
      have hq := Except.ok.inj hq
      exact ⟨hz,by omega⟩
    · rintro ⟨_,hsome⟩
      exact ⟨_,rfl,by omega,fun _ => by omega⟩

theorem sizes_eq {n q : ℤ} : opts.sizes ncpu = .ok (n,q) ↔ opts.threads ncpu = .ok n ∧ opts.queuesize n = .ok q := by
  unfold sizes
  cases hn : opts.threads ncpu with
  | error fault => simp [bind,Except.bind]
  | ok n' =>
    cases hq : opts.queuesize n' with
    | error fault =>
      simp only [bind,Except.bind,hq,reduceCtorEq,Except.ok.injEq,false_iff,not_and]
      rintro rfl
      rw [hq]
      simp
    | ok q' =>
      simp only [bind,Except.bind,hq,Except.ok.injEq,Prod.mk.injEq]
      constructor
      · rintro ⟨rfl,rfl⟩
        exact ⟨rfl,hq⟩
      · rintro ⟨rfl,hq'⟩
        exact ⟨rfl,Except.ok.inj (hq.symm.trans hq')⟩

/-- The options and the number of processors make a safe pool exactly if they ask for some threads and for some
entries of the queue. -/
theorem safe_sizes_iff : (∃ n q, Safe opts ncpu n q) ↔ SomeThreads opts ncpu ∧ SomeQueue opts (count opts ncpu) := by
  constructor
  · rintro ⟨n,q,hsizes,hn,hq,_,hmax⟩
    obtain ⟨hthreads,hqueue⟩ := (sizes_eq opts ncpu).mp hsizes
    obtain ⟨hsome,rfl⟩ := (threads_iff opts ncpu).mp ⟨hthreads,hn⟩
    exact ⟨hsome,(queue_iff opts hn).mp ⟨q,hqueue,hq,hmax⟩⟩
  · rintro ⟨hthreads,hqueue⟩
    obtain ⟨hok,hn⟩ := (threads_iff opts ncpu).mpr ⟨hthreads,rfl⟩
    obtain ⟨q,hq,hone,hmax⟩ := (queue_iff opts hn).mpr hqueue
    exact ⟨_,q,(sizes_eq opts ncpu).mpr ⟨hok,hq⟩,hn,hone,count_le opts ncpu,hmax⟩

/-- The initial options are safe for every number of processors. -/
theorem threadOpts_safe (ncpu : Int64) : SomeThreads threadOpts ncpu ∧ SomeQueue threadOpts (count threadOpts ncpu) := by
  constructor
  · unfold SomeThreads
    rw [if_neg (by decide)]
    split <;> decide
  · unfold SomeQueue
    rw [if_neg (by decide)]
    exact ⟨by decide,.inl (by decide)⟩

/-- No threads for each processor: the quotient is computed all the same. -/
theorem no_threads_per_cpu : { threadOpts with nPerCpu := 0 }.sizes 4 = .error .divByZero ∧
    ¬ ∃ n q, Safe { threadOpts with nPerCpu := 0 } 4 n q := by
  have hfault : { threadOpts with nPerCpu := 0 }.sizes 4 = .error .divByZero := by decide
  refine ⟨hfault,?_⟩
  rintro ⟨n,q,h⟩
  exact absurd (hfault.symm.trans h.sizes) (by simp)

end LibIrcBot.IBThreadOpts
