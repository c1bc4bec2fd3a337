import LibIrcBot.Daemon.Moves

/-! # Who has the lock on a pidfile

In all runs, however the launches are interleaved, a process has the exclusive lock on a file where `daemon_run` has
taken it and not closed the file, and nowhere else. So no two processes have it on one file, and a process that
waits for it has none.
-/
namespace LibIrcBot.Daemon
open Transitions

variable {H H' : Host} {F F' : PidFiles} {P Q : Process} {p o i c : ℕ} {a : Answer} {k l : Phase}
  {name : Option String} {pf : Option ℕ} {label : Label}

def Phase.owned : Phase → Option ℕ
  | .fork1 pf | .closeParent pf | .setsid pf | .fork2 pf | .printPid pf _ | .writePid pf _ | .closePid pf _
  | .chdir pf | .main pf | .closeMain pf _ => pf
  | _ => none

/-- The phases at which a process can have the lock on a file. -/
def Phase.MayOwn (k : Phase) (i : ℕ) : Prop := k.owned = some i ∨ k = .done (some i)

@[simp] theorem mayOwn_done : (Phase.done pf).MayOwn i ↔ pf = some i := by
  constructor
  · rintro (h | h)
    · cases h
    · cases h
      rfl
  · rintro rfl
    exact .inr rfl

theorem GivesUp.owned (h : GivesUp pf k) (hm : k.MayOwn i) : pf = some i := by
  cases h with
  | wait1 | wait2 => exact hm.elim nofun nofun
  | _ => exact hm.elim id nofun

theorem Passes.owned (h : Passes p a F name k l) (hl : l.owned = some i) : k.owned = some i := by
  cases h with
  | givesUp => cases hl
  | _ => exact hl

theorem Passes.mayOwn (h : Passes p a F name k l) (hk : k.MayOwn i) : l.MayOwn i := by
  cases h with
  | givesUp hg => exact mayOwn_done.mpr (hg.owned hk)
  | _ => exact hk.elim .inl nofun

theorem Takes.owned (h : Takes i k l) : (∀ j, ¬ k.MayOwn j) ∧ l.owned = some i := by
  cases h <;>
  · refine ⟨?_,rfl⟩
    rintro j (hj | hj) <;> cases hj

theorem Closes.owned {j : ℕ} (h : Closes i k l) : l.owned = none ∧ (k.MayOwn j → j = i) := by
  cases h <;>
  · refine ⟨rfl,?_⟩
    rintro (hj | hj) <;> cases hj <;> rfl

theorem Unlinks.owned (h : Unlinks k l) : (∀ j, ¬ k.MayOwn j) ∧ l.owned = none := by
  cases h <;>
  · refine ⟨?_,rfl⟩
    rintro j (hj | hj) <;> cases hj

/-- What a process owns behind a step is what its phase says. -/
theorem Move.owned (h : Move p a F name k l F') (hown : ∀ i, k.owned = some i → F.Owns p i)
    (hmay : ∀ i, F.Owns p i → k.MayOwn i) :
    (∀ i, l.owned = some i → F'.Owns p i) ∧ ∀ i, F'.Owns p i → l.MayOwn i := by
  cases h with
  | passes hp => exact ⟨fun i hl => hown i (hp.owned hl),fun i ho => hp.mayOwn (hmay i ho)⟩
  | reads hl =>
    refine ⟨nofun,fun j ho => ?_⟩
    have := hmay j (Files.owns_of_lock_shared hl ho)
    simp [Phase.MayOwn,Phase.owned] at this
  | @takes i _ _ _ hl ht =>
    refine ⟨fun j hj => ?_,fun j ho => ?_⟩
    · cases ht.owned.2.symm.trans hj
      exact Files.owns_of_lock hl
    · by_cases hj : j = i
      · rw [hj]
        exact .inl ht.owned.2
      · exact absurd (hmay j ((Files.lock_keeps hl (.inr hj)).mp ho)) (ht.owned.1 j)
  | closes hc =>
    refine ⟨fun j hj => ?_,fun j ho => ?_⟩
    · rw [(hc.owned (j := j)).1] at hj
      cases hj
    · obtain ⟨ho,hne⟩ := Files.close_owns.mp ho
      exact absurd (hc.owned.2 (hmay j ho)) (hne.resolve_left (fun h => h rfl))
  | unlinks _ hu =>
    refine ⟨fun j hj => ?_,fun j ho => absurd (hmay j ho) (hu.owned.1 j)⟩
    rw [hu.owned.2] at hj
    cases hj
  | creates =>
    refine ⟨nofun,fun j ho => ?_⟩
    have := hmay j (Files.create_owns.mp ho)
    simp [Phase.MayOwn,Phase.owned] at this
  | prints => exact ⟨fun j hj => hown j hj,fun j ho => (hmay j ho).elim .inl nofun⟩

/-- The locks of the others stay. -/
theorem Move.others (h : Move p a F name k l F') (hne : o ≠ p) : F'.Owns o i ↔ F.Owns o i := by
  cases h with
  | reads hl => exact Files.lock_keeps hl (.inl hne)
  | takes hl _ => exact Files.lock_keeps hl (.inl hne)
  | closes _ =>
    rw [Files.close_owns]
    exact and_iff_left (.inl hne)
  | creates _ => exact Files.create_owns
  | _ => rfl

/-- Who comes to own a file is the only one. -/
theorem Move.gains (h : Move p a F name k l F') (ho : F'.Owns p i) (hno : ¬ F.Owns p i) (hne : o ≠ p) : ¬ F.Owns o i := by
  cases h with
  | reads hl => exact absurd (Files.owns_of_lock_shared hl ho) hno
  | @takes j _ _ _ hl _ =>
    by_cases hj : i = j
    · subst hj
      exact Files.not_owns_of_lock hl hne
    · exact absurd ((Files.lock_keeps hl (.inr hj)).mp ho) hno
  | closes _ => exact absurd (Files.close_owns.mp ho).1 hno
  | creates _ => exact absurd (Files.create_owns.mp ho) hno
  | _ => exact absurd ho hno

/-- The locks and the phases agree, and the names stand for different files. -/
structure Ledger (H : Host) : Prop where
  owner : ∀ {o i}, H.files.Owns o i → ∃ P, H.procs o = some P ∧ P.phase.MayOwn i
  held : ∀ {o P i}, H.procs o = some P → P.phase.owned = some i → H.files.Owns o i
  exclusive : ∀ {o q i}, H.files.Owns o i → H.files.Owns q i → o = q
  named : H.files.Distinct
  listed : ∀ {o P}, H.procs o = some P → o ∈ H.pids

theorem Move.distinct (h : Move p a F name k l F') (hF : F.Distinct) : F'.Distinct := by
  cases h with
  | reads hl => exact Files.lock_distinct hl hF
  | takes hl _ => exact Files.lock_distinct hl hF
  | unlinks _ _ => exact hF.unlink
  | creates _ => exact hF.create
  | _ => exact ⟨hF.bounded,hF.injective⟩

/-- A process that can call `daemon_run` has no lock. -/
theorem Ledger.free (h : Ledger H) (hp : H.free p) : ¬ H.files.Owns p i := by
  intro ho
  obtain ⟨P,hP,hm⟩ := h.owner ho
  rw [Host.free,hP] at hp
  dsimp only at hp
  split at hp
  · next hphase =>
    rw [hphase] at hm
    exact hm.elim nofun nofun
  · cases hp

theorem Ledger.initial (h : H.Initial) : Ledger H where
  owner ho := by rw [Files.Owns,h.locks] at ho; cases ho
  held hp _ := by rw [h.procs] at hp; cases hp
  exclusive ho _ := by rw [Files.Owns,h.locks] at ho; cases ho
  named := h.named
  listed hp := by rw [h.procs] at hp; cases hp

/-- A process changes its own locks and goes to a phase that says what it owns then, or ends. -/
theorem Ledger.update {G : PidFiles} {Q : Option Process} (h : Ledger H)
    (hothers : ∀ {o i}, o ≠ p → (G.Owns o i ↔ H.files.Owns o i))
    (hgains : ∀ {o i}, G.Owns p i → o ≠ p → ¬ H.files.Owns o i) (hnamed : G.Distinct)
    (hown : ∀ P, Q = some P → ∀ i, P.phase.owned = some i → G.Owns p i)
    (hmay : ∀ i, G.Owns p i → ∃ P, Q = some P ∧ P.phase.MayOwn i) : Ledger ({ H with files := G }.set p Q) where
  owner {o i} ho := by
    by_cases hop : o = p
    · subst hop
      obtain ⟨P,hP,hm⟩ := hmay i ho
      exact ⟨P,(Host.set_self _).trans hP,hm⟩
    · obtain ⟨P,hP,hm⟩ := h.owner ((hothers hop).mp ho)
      exact ⟨P,(Host.set_other _ hop).trans hP,hm⟩
  held {o P i} hP hi := by
    by_cases hop : o = p
    · subst hop
      exact hown P ((Host.set_self _).symm.trans hP) i hi
    · exact (hothers hop).mpr (h.held ((Host.set_other _ hop).symm.trans hP) hi)
  exclusive {o q i} ho hq := by
    by_cases hop : o = p <;> by_cases hqp : q = p
    · rw [hop,hqp]
    · subst hop
      exact absurd ((hothers hqp).mp hq) (hgains ho hqp)
    · subst hqp
      exact absurd ((hothers hop).mp ho) (hgains hq hop)
    · exact h.exclusive ((hothers hop).mp ho) ((hothers hqp).mp hq)
  named := hnamed
  listed {o P} hP := by
    by_cases hop : o = p
    · exact hop ▸ List.mem_cons_self
    · exact List.mem_cons_of_mem _ (h.listed ((Host.set_other _ hop).symm.trans hP))

/-- A process that keeps its locks goes to a phase that says what it owns. -/
theorem Ledger.set (h : Ledger H) (hown : ∀ i, Q.phase.owned = some i → H.files.Owns p i)
    (hmay : ∀ i, H.files.Owns p i → Q.phase.MayOwn i) : Ledger (H.set p (some Q)) :=
  h.update (G := H.files) (fun _ => Iff.rfl) (fun ho hne hq => hne (h.exclusive hq ho)) h.named
    (fun P hP => by cases hP; exact hown) (fun i ho => ⟨Q,rfl,hmay i ho⟩)

theorem Ledger.move (h : Ledger H) (hP : H.procs p = some P) (hm : Move p a H.files name P.phase Q.phase F') :
    Ledger ({ H with files := F' }.set p (some Q)) := by
  have hmay : ∀ i, H.files.Owns p i → P.phase.MayOwn i := by
    intro i ho
    obtain ⟨P',hP',hm⟩ := h.owner ho
    cases hP.symm.trans hP'
    exact hm
  have hnext := hm.owned (fun i => h.held hP) hmay
  refine h.update (fun hne => hm.others hne) (fun {o i} ho hne hq => ?_) (hm.distinct h.named) ?_ ?_
  · by_cases hp : H.files.Owns p i
    · exact hne (h.exclusive hq hp)
    · exact hm.gains ho hp hne hq
  · intro P' hP'
    cases hP'
    exact hnext.1
  · exact fun i ho => ⟨Q,rfl,hnext.2 i ho⟩

theorem Forks.owned {kc : Phase} (h : Forks c pf k l kc) : l.owned = k.owned ∧ (k.MayOwn i → l.MayOwn i) ∧
    kc.owned = none := by
  cases h <;> exact ⟨rfl,fun h => h.elim .inl nofun,rfl⟩

theorem Ledger.step (h : Ledger H) (hs : Host.step label H = .ok H') : Ledger H' := by
  cases label with
  | launch p pidfile =>
    obtain ⟨hp,_,rfl⟩ := Host.launch_inv hs
    refine h.set (fun i hi => ?_) fun i ho => absurd ho (h.free hp)
    cases pidfile <;> cases hi
  | leave p =>
    obtain ⟨_,rfl⟩ := Host.leave_inv hs
    exact h.update (fun hne => Files.leave_owns.trans (and_iff_left hne))
      (fun ho => absurd rfl (Files.leave_owns.mp ho).2) ⟨h.named.bounded,h.named.injective⟩ nofun
      fun i ho => absurd rfl (Files.leave_owns.mp ho).2
  | call p a =>
    obtain ⟨P,Q,hP,_,⟨hm,hH⟩ | ⟨c,pf,C,hc,_,_,hf,rfl⟩⟩ := Host.call_cases hs
    · rw [hH]
      exact h.move hP hm
    · have hp : Ledger (H.set p (some Q)) := by
        refine h.set (fun i hi => h.held hP (hf.owned (i := i).1 ▸ hi)) fun i ho => ?_
        obtain ⟨P',hP',hm⟩ := h.owner ho
        cases hP.symm.trans hP'
        exact hf.owned.2.1 hm
      refine hp.set (fun i hi => ?_) fun i ho => ?_
      · rw [(hf.owned (i := i)).2.2] at hi
        cases hi
      · obtain ⟨P',hP',_⟩ := h.owner ho
        rw [hc] at hP'
        cases hP'

/-- In every run the locks and the phases agree. -/
theorem Ledger.reachable {C : Label → Host → Prop} (h : Reaches Host.step C Host.Initial H) : Ledger H :=
  h.invariant (fun _ => .initial) fun _ _ _ hl _ hs => hl.step hs

def Phase.waits : Phase → Bool
  | .wait1 _ | .wait2 _ => true
  | _ => false

/-- Without a process there are no locks, and a process that waits has none, shared ones included. -/
def Host.Unburdened (H : Host) : Prop :=
  ∀ p, (∀ P, H.procs p = some P → P.phase.waits = true) → ∀ lock ∈ H.files.locks, lock.owner ≠ p

/-- A process only takes locks for itself. -/
theorem Move.locks (h : Move p a F name k l F') : ∀ lock ∈ F'.locks, lock ∈ F.locks ∨ lock.owner = p := by
  intro lock hlock
  cases h with
  | reads hl =>
    rw [(Files.lock_eq_some.mp hl).2] at hlock
    rcases List.mem_cons.mp hlock with rfl | hlock
    · exact .inr rfl
    · exact .inl (List.mem_filter.mp hlock).1
  | takes hl _ =>
    rw [(Files.lock_eq_some.mp hl).2] at hlock
    rcases List.mem_cons.mp hlock with rfl | hlock
    · exact .inr rfl
    · exact .inl (List.mem_filter.mp hlock).1
  | closes _ => exact .inl (List.mem_filter.mp hlock).1
  | creates _ =>
    rw [Files.create_locks] at hlock
    exact .inl hlock
  | _ => exact .inl hlock

/-- A process waits on when it has waited, and has not touched the files. -/
theorem Move.waits (h : Move p a F name k l F') (hl : l.waits = true) : k.waits = true ∧ F' = F := by
  cases h with
  | passes hp => cases hp <;> first | exact ⟨hl,rfl⟩ | cases hl
  | takes _ ht => cases ht <;> cases hl
  | closes hc => cases hc <;> cases hl
  | unlinks _ hu => cases hu <;> cases hl
  | _ => cases hl

theorem Forks.waits {kc : Phase} (h : Forks c pf k l kc) : l.waits = false := by
  cases h <;> rfl

theorem Host.Unburdened.set {G : PidFiles} {Q : Option Process} (h : H.Unburdened)
    (hothers : ∀ lock ∈ G.locks, lock ∈ H.files.locks ∨ lock.owner = p)
    (hown : (∀ P, Q = some P → P.phase.waits = true) → ∀ lock ∈ G.locks, lock.owner ≠ p) :
    ({ H with files := G }.set p Q).Unburdened := by
  intro q hq lock hlock
  by_cases hqp : q = p
  · subst hqp
    exact hown (fun P hP => hq P ((Host.set_self _).trans hP)) lock hlock
  · rcases hothers lock hlock with hold | hown
    · exact h q (fun P hP => hq P ((Host.set_other _ hqp).trans hP)) lock hold
    · exact fun he => hqp (he.symm.trans hown)

theorem Host.Unburdened.step (h : H.Unburdened) (hs : Host.step label H = .ok H') : H'.Unburdened := by
  cases label with
  | launch p pidfile =>
    obtain ⟨_,_,rfl⟩ := Host.launch_inv hs
    refine h.set (G := H.files) (fun _ hl => .inl hl) fun hq => ?_
    have := hq _ rfl
    cases pidfile <;> cases this
  | leave p =>
    obtain ⟨_,rfl⟩ := Host.leave_inv hs
    refine h.set (fun lock hl => .inl (List.mem_filter.mp hl).1) fun _ lock hl => ?_
    simpa using (List.mem_filter.mp hl).2
  | call p a =>
    obtain ⟨P,Q,hP,_,⟨hm,hH⟩ | ⟨c,pf,C,hc,_,_,hf,rfl⟩⟩ := Host.call_cases hs
    · rw [hH]
      refine h.set hm.locks fun hq => ?_
      obtain ⟨hwait,hF⟩ := hm.waits (hq Q rfl)
      rw [hF]
      refine h p fun P' hP' => ?_
      cases hP.symm.trans hP'
      exact hwait
    · have hp : (H.set p (some Q)).Unburdened := by
        refine h.set (G := H.files) (fun _ hl => .inl hl) fun hq => ?_
        have := hq Q rfl
        rw [hf.waits] at this
        cases this
      refine hp.set (G := H.files) (fun _ hl => .inl hl) fun _ => h c fun P' hP' => ?_
      rw [hc] at hP'
      cases hP'

/-- In every run, a process that waits for a lock has none itself: what it waits for is a process that does not wait. -/
theorem Host.Unburdened.reachable {C : Label → Host → Prop} (h : Reaches Host.step C Host.Initial H) : H.Unburdened :=
  h.invariant (fun H hi p _ lock hlock => by rw [hi.locks] at hlock; cases hlock) fun _ _ _ hl _ hs => hl.step hs

end LibIrcBot.Daemon
