import LibIrcBot.Foundations.CString
import Mathlib.Data.Int.Notation
import Mathlib.Algebra.Order.Ring.Int
import Mathlib.Tactic.Linarith

/-! # The sizes of the thread pool

`ThreadPool_init` computes the number of threads and the length of the queue from the options and the
number of processors. A division by zero and a result that is no `int` are faults.
-/
namespace LibIrcBot

/-- The options, which the setters of `ircbot.c` store without a check. -/
structure IBThreadOpts where
  nThreads : Int32
  maxThreads : Int32
  nPerCpu : Int32
  defNThreads : Int32
  queueLen : Int32
  maxQueueLen : Int32
  minQueueLen : Int32
  qLenPerThread : Int32
deriving DecidableEq, Repr

def threadOpts : IBThreadOpts where
  nThreads := 0
  maxThreads := 128
  nPerCpu := 2
  defNThreads := 8
  queueLen := 0
  maxQueueLen := 1024
  minQueueLen := 64
  qLenPerThread := 2

namespace IBThreadOpts

inductive ArithFault where
  | divByZero
  | overflow
deriving DecidableEq, Repr

def INT_MIN : ℤ := -2147483648
def INT_MAX : ℤ := 2147483647

/-- A result of type `int`. -/
def int (n : ℤ) : Except ArithFault ℤ := if INT_MIN ≤ n ∧ n ≤ INT_MAX then .ok n else .error .overflow

/-- `/` on `int`. -/
def div (a b : ℤ) : Except ArithFault ℤ := if b = 0 then .error .divByZero else int (a.tdiv b)

/-- `per * n`, or `max` where the quotient of `max` by `per` is less than `n`. -/
def scaled (max per n : ℤ) : Except ArithFault ℤ := do
  let quotient ← div max per
  if n ≤ quotient then int (per * n) else .ok max

/-- `nthreads`, with the result of `sysconf (_SC_NPROCESSORS_CONF)`. -/
def threads (opts : IBThreadOpts) (ncpu : Int64) : Except ArithFault ℤ :=
  if opts.nThreads.toInt ≠ 0 then .ok opts.nThreads.toInt
  else if ncpu.toInt ≥ 1 then scaled opts.maxThreads.toInt opts.nPerCpu.toInt ncpu.toInt
  else .ok opts.defNThreads.toInt

def queuesize (opts : IBThreadOpts) (nthreads : ℤ) : Except ArithFault ℤ :=
  if opts.queueLen.toInt ≠ 0 then .ok opts.queueLen.toInt
  else do
    let quotient ← div opts.maxQueueLen.toInt opts.qLenPerThread.toInt
    if nthreads ≤ quotient then do
      let queuesize ← int (opts.qLenPerThread.toInt * nthreads)
      .ok (if queuesize < opts.minQueueLen.toInt then opts.minQueueLen.toInt else queuesize)
    else .ok opts.maxQueueLen.toInt

def sizes (opts : IBThreadOpts) (ncpu : Int64) : Except ArithFault (ℤ × ℤ) := do
  let nthreads ← opts.threads ncpu
  let queuesize ← opts.queuesize nthreads
  .ok (nthreads,queuesize)

theorem range (n : Int32) : INT_MIN ≤ n.toInt ∧ n.toInt ≤ INT_MAX := by
  have hl := n.le_toInt
  have hu := n.toInt_lt
  unfold INT_MIN INT_MAX
  omega

theorem int_ok {n : ℤ} (hl : INT_MIN ≤ n) (hu : n ≤ INT_MAX) : int n = .ok n := if_pos ⟨hl,hu⟩

/-- A positive number is at most a quotient if the product is on the same side of the dividend. -/
theorem le_tdiv_iff {n a b : ℤ} (hn : 1 ≤ n) :
    n ≤ a.tdiv b ↔ (0 < b ∧ b * n ≤ a) ∨ (b < 0 ∧ a ≤ b * n) := by
  have hpos : ∀ {a b : ℤ}, 0 < b → (n ≤ a.tdiv b ↔ b * n ≤ a) := by
    intro a b hb
    rcases Int.le_total 0 a with ha | ha
    · rw [Int.tdiv_eq_ediv_of_nonneg ha,Int.le_ediv_iff_mul_le hb,Int.mul_comm]
    · have hq : 0 ≤ (-a).tdiv b := Int.tdiv_nonneg (by omega) (Int.le_of_lt hb)
      rw [Int.neg_tdiv] at hq
      have hp : 0 < b * n := Int.mul_pos hb hn
      constructor <;> intro h <;> omega
  rcases Int.lt_trichotomy b 0 with hb | rfl | hb
  · have h := hpos (a := -a) (b := -b) (by omega)
    rw [Int.neg_tdiv_neg,Int.neg_mul] at h
    rw [h]
    constructor
    · intro hle
      exact .inr ⟨hb,by omega⟩
    · rintro (⟨hb',_⟩ | ⟨_,hle⟩) <;> omega
  · simp
    omega
  · rw [hpos hb]
    constructor
    · intro hle
      exact .inl ⟨hb,hle⟩
    · rintro (⟨_,hle⟩ | ⟨hb',_⟩) <;> omega

/-- The quotient is an `int`, apart from one. -/
theorem div_eq {a b : ℤ} (hl : INT_MIN ≤ a) (hu : a ≤ INT_MAX) :
    div a b = if b = 0 then .error .divByZero else if a = INT_MIN ∧ b = -1 then .error .overflow
      else .ok (a.tdiv b) := by
  unfold div int INT_MIN INT_MAX
  unfold INT_MIN at hl
  unfold INT_MAX at hu
  have hhigh := le_tdiv_iff (n := 2147483648) (a := a) (b := b) (by omega)
  have hlow := le_tdiv_iff (n := 2147483649) (a := a) (b := -b) (by omega)
  rw [Int.tdiv_neg] at hlow
  by_cases hb : b = 0
  · rw [if_pos hb,if_pos hb]
  · rw [if_neg hb,if_neg hb]
    by_cases hc : a = -2147483648 ∧ b = -1
    · rw [if_pos hc,if_neg (by omega)]
    · rw [if_neg hc,if_pos (by omega)]

def Below (max per n : ℤ) : Prop := (0 < per ∧ per * n ≤ max) ∨ (per < 0 ∧ max ≤ per * n)

instance (max per n : ℤ) : Decidable (Below max per n) := inferInstanceAs (Decidable (_ ∨ _))

/-- A product within the guard is an `int`. -/
theorem int_of_below {max per n : ℤ} (hl : INT_MIN ≤ max) (hu : max ≤ INT_MAX) (hn : 1 ≤ n) (h : Below max per n) :
    int (per * n) = .ok (per * n) := by
  unfold INT_MIN at hl
  unfold INT_MAX at hu
  rcases h with ⟨hp,hle⟩ | ⟨hp,hle⟩
  · have hpos : 0 < per * n := Int.mul_pos hp hn
    exact int_ok (by unfold INT_MIN; omega) (by unfold INT_MAX; omega)
  · have hneg : per * n < 0 := Int.mul_neg_of_neg_of_pos hp hn
    exact int_ok (by unfold INT_MIN; omega) (by unfold INT_MAX; omega)

theorem scaled_eq {max per n : ℤ} (hl : INT_MIN ≤ max) (hu : max ≤ INT_MAX) (hn : 1 ≤ n) :
    scaled max per n = if per = 0 then .error .divByZero else if max = INT_MIN ∧ per = -1 then .error .overflow
      else .ok (if Below max per n then per * n else max) := by
  unfold scaled
  rw [div_eq hl hu]
  by_cases hz : per = 0
  · rw [if_pos hz,if_pos hz]
    rfl
  · rw [if_neg hz,if_neg hz]
    by_cases hc : max = INT_MIN ∧ per = -1
    · rw [if_pos hc,if_pos hc]
      rfl
    · rw [if_neg hc,if_neg hc]
      change (if n ≤ max.tdiv per then _ else _) = _
      by_cases hb : Below max per n
      · rw [if_pos ((le_tdiv_iff hn).mpr hb),if_pos hb,int_of_below hl hu hn hb]
      · rw [if_neg (fun hle => hb ((le_tdiv_iff hn).mp hle)),if_neg hb]

theorem queuesize_eq (opts : IBThreadOpts) {n : ℤ} (hn : 1 ≤ n) :
    opts.queuesize n = if opts.queueLen.toInt ≠ 0 then .ok opts.queueLen.toInt
      else if opts.qLenPerThread.toInt = 0 then .error .divByZero
      else if opts.maxQueueLen.toInt = INT_MIN ∧ opts.qLenPerThread.toInt = -1 then .error .overflow
      else .ok (if Below opts.maxQueueLen.toInt opts.qLenPerThread.toInt n then
        max (opts.qLenPerThread.toInt * n) opts.minQueueLen.toInt else opts.maxQueueLen.toInt) := by
  obtain ⟨hl,hu⟩ := range opts.maxQueueLen
  unfold queuesize
  by_cases hq : opts.queueLen.toInt ≠ 0
  · rw [if_pos hq,if_pos hq]
  · rw [if_neg hq,if_neg hq,div_eq hl hu]
    by_cases hz : opts.qLenPerThread.toInt = 0
    · rw [if_pos hz,if_pos hz]
      rfl
    · rw [if_neg hz,if_neg hz]
      by_cases hc : opts.maxQueueLen.toInt = INT_MIN ∧ opts.qLenPerThread.toInt = -1
      · rw [if_pos hc,if_pos hc]
        rfl
      · rw [if_neg hc,if_neg hc]
        change (if n ≤ opts.maxQueueLen.toInt.tdiv opts.qLenPerThread.toInt then _ else _) = _
        by_cases hb : Below opts.maxQueueLen.toInt opts.qLenPerThread.toInt n
        · rw [if_pos ((le_tdiv_iff hn).mpr hb),if_pos hb,int_of_below hl hu hn hb]
          change Except.ok (if _ < _ then _ else _) = _
          congr 1
          split <;> omega
        · rw [if_neg (fun hle => hb ((le_tdiv_iff hn).mp hle)),if_neg hb]

end IBThreadOpts
end LibIrcBot
