import LibIrcBot.Daemon.Model

/-! # What a step of a launch can do

The calls of `daemon_run`, sorted by what they do to the files: most leave them as they are, some take or give up a
lock, remove the name, make a file or write to one. All that follows goes by these cases.
-/
namespace LibIrcBot.Daemon

/-- The ways to give up once the file is locked. -/
inductive GivesUp (pf : Option ℕ) : Phase → Prop where
  | fork1 : GivesUp pf (.fork1 pf)
  | wait1 : GivesUp pf (.wait1 pf)
  | setsid : GivesUp pf (.setsid pf)
  | fork2 : GivesUp pf (.fork2 pf)
  | wait2 : GivesUp pf (.wait2 pf)
  | chdir : GivesUp pf (.chdir pf)

/-- The steps without an effect on the files. -/
inductive Passes (p : ℕ) (a : Answer) (F : PidFiles) (name : Option String) : Phase → Phase → Prop where
  | found {n : String} {i : ℕ} : name = some n → F.named n = some i → Passes p a F name .fopenRead (.getLock i)
  | missing : a = .fail → Passes p a F name .fopenRead .fopenWrite
  | lockInfo (i : ℕ) : Passes p a F name (.getLock i) (.returned EXIT_FAILURE)
  | unlocked {i : ℕ} : F.blocker p .shared i = none → Passes p a F name (.getLock i) (.setRead i)
  | locked {i o : ℕ} : F.blocker p .shared i = some o → Passes p a F name (.getLock i) (.scan i o)
  | readLocked (i : ℕ) : a = .fail → Passes p a F name (.setRead i) (.getLockAgain i)
  | lockedAgain (i o : ℕ) : Passes p a F name (.getLockAgain i) (.scan i o)
  | scanned (i o : ℕ) : Passes p a F name (.scan i o) (.closeRefused i)
  | cannotRemove (i : ℕ) : Passes p a F name (.unlinkStale i) (.returned EXIT_FAILURE)
  | cannotOpen : Passes p a F name .fopenWrite (.returned EXIT_FAILURE)
  | writeLocked (i : ℕ) : Passes p a F name (.setWrite i) (.closeUnlocked i)
  | relay (rc : ℤ) : Passes p a F name .relay (.returned rc)
  | interrupted1 (pf : Option ℕ) : Passes p a F name (.wait1 pf) (.wait1 pf)
  | interrupted2 (pf : Option ℕ) : Passes p a F name (.wait2 pf) (.wait2 pf)
  | setsid (pf : Option ℕ) : Passes p a F name (.setsid pf) (.fork2 pf)
  | printPid (pf : Option ℕ) (child : ℕ) : Passes p a F name (.printPid pf child) (.writePid pf child)
  | chdir (pf : Option ℕ) : Passes p a F name (.chdir pf) (.main pf)
  | main {pf : Option ℕ} {rc : ℤ} : a = .code rc → Passes p a F name (.main pf) (.closeMain pf rc)
  | unlinkMain (rc : ℤ) : Passes p a F name (.unlinkMain rc) (.returned rc)
  | givesUp {pf : Option ℕ} {k : Phase} : GivesUp pf k → Passes p a F name k (.done pf)
  -- without a pidfile
  | closeParent : Passes p a F name (.closeParent none) .relay
  | wait1 : Passes p a F name (.wait1 none) (.setsid none)
  | writePid (child : ℕ) : Passes p a F name (.writePid none child) (.closePid none child)
  | closePid (child : ℕ) : Passes p a F name (.closePid none child) (.returned EXIT_SUCCESS)
  | wait2 : Passes p a F name (.wait2 none) (.chdir none)
  | closeMain (rc : ℤ) : Passes p a F name (.closeMain none rc) (.unlinkMain rc)
  | done : Passes p a F name (.done none) (.returned EXIT_FAILURE)

/-- The steps that take the exclusive lock on a file. -/
inductive Takes (i : ℕ) : Phase → Phase → Prop where
  | setWrite : Takes i (.setWrite i) (.fork1 (some i))
  | wait1 : Takes i (.wait1 (some i)) (.setsid (some i))
  | wait2 : Takes i (.wait2 (some i)) (.chdir (some i))

inductive Closes (i : ℕ) : Phase → Phase → Prop where
  | stale : Closes i (.closeStale i) .fopenWrite
  | refused : Closes i (.closeRefused i) (.returned EXIT_FAILURE)
  | unlocked : Closes i (.closeUnlocked i) (.returned EXIT_FAILURE)
  | parent : Closes i (.closeParent (some i)) .relay
  | pid (child : ℕ) : Closes i (.closePid (some i) child) (.returned EXIT_SUCCESS)
  | main (rc : ℤ) : Closes i (.closeMain (some i) rc) (.unlinkMain rc)
  | done : Closes i (.done (some i)) (.returned EXIT_FAILURE)

inductive Unlinks : Phase → Phase → Prop where
  | stale (i : ℕ) : Unlinks (.unlinkStale i) (.closeStale i)
  | main (rc : ℤ) : Unlinks (.unlinkMain rc) (.returned rc)

/-- The steps of a process that starts no other one. -/
inductive Move (p : ℕ) (a : Answer) (F : PidFiles) (name : Option String) : Phase → Phase → PidFiles → Prop where
  | passes {k l : Phase} : Passes p a F name k l → Move p a F name k l F
  | reads {i : ℕ} {G : PidFiles} : F.lock p .shared i = some G → Move p a F name (.setRead i) (.unlinkStale i) G
  | takes {i : ℕ} {G : PidFiles} {k l : Phase} : F.lock p .exclusive i = some G → Takes i k l → Move p a F name k l G
  | closes {i : ℕ} {k l : Phase} : Closes i k l → Move p a F name k l (F.close p i)
  | unlinks {n : String} {k l : Phase} : name = some n → Unlinks k l → Move p a F name k l (F.unlink n)
  | creates {n : String} : name = some n → Move p a F name .fopenWrite (.setWrite (F.create n).1) (F.create n).2
  | prints {i child n : ℕ} : a = .write n →
      Move p a F name (.writePid (some i) child) (.closePid (some i) child) (F.write i ((pidLine child).take n))

inductive Forks (c : ℕ) (pf : Option ℕ) : Phase → Phase → Phase → Prop where
  | fork1 : Forks c pf (.fork1 pf) (.closeParent pf) (.wait1 pf)
  | fork2 : Forks c pf (.fork2 pf) (.printPid pf c) (.wait2 pf)

variable {H H' : Host} {F F' : PidFiles} {P : Process} {p : ℕ} {k : Call} {a : Answer} {r : Result}

def Call.fails : Call → Bool
  | .fopenRead _ | .fopenWrite _ | .getlk _ | .setlk _ _ | .setlkw _ | .unlink _ | .fork | .other => true
  | _ => false

/-- What a call returns and does to the files. -/
inductive Effect (p : ℕ) (a : Answer) (F : PidFiles) : Call → Result → PidFiles → Prop where
  | opened {name : String} {pf : ℕ} : F.named name = some pf → Effect p a F (.fopenRead name) (.opened pf) F
  | created (name : String) : Effect p a F (.fopenWrite name) (.opened (F.create name).1) (F.create name).2
  | closed (pf : ℕ) : Effect p a F (.fclose pf) .ok (F.close p pf)
  | owner (pf : ℕ) : Effect p a F (.getlk pf) (.owner (F.blocker p .shared pf)) F
  | locked {mode : LockMode} {pf : ℕ} {G : PidFiles} :
      F.lock p mode pf = some G → Effect p a F (.setlk mode pf) .ok G
  | granted {pf : ℕ} {G : PidFiles} : F.lock p .exclusive pf = some G → Effect p a F (.setlkw pf) .ok G
  | interrupted (pf : ℕ) : Effect p a F (.setlkw pf) .interrupted F
  | unlinked (name : String) : Effect p a F (.unlink name) .ok (F.unlink name)
  | scanned (pf : ℕ) : Effect p a F (.fscanf pf) (.scanned (scanInt (F.text pf))) F
  | printed (pf : ℕ) (cs : Bytes) : Effect p a F (.fprintf pf cs) .ok F
  | written {pf : ℕ} {cs : Bytes} {n : ℕ} : a = .write n → Effect p a F (.write pf cs) .ok (F.write pf (cs.take n))
  | forked (child : ℕ) : Effect p a F .fork (.child child) F
  | ended {rc : ℤ} : a = .code rc → Effect p a F .dmain (.code rc) F
  | relayed (rc : ℤ) : Effect p a F .relay (.code rc) F
  | passed : Effect p a F .other .ok F
  | stepped : Effect p a F .step .ok F
  | failed {k : Call} : a = .fail → k.fails = true → Effect p a F k .failed F

theorem kernel_effect (h : kernel p k a F = some (r,F')) : Effect p a F k r F' := by
  cases k <;> cases a <;> simp only [kernel,reduceCtorEq,Option.some.injEq,Prod.mk.injEq,
    Option.map_eq_some_iff] at h
  case fopenRead.succeed =>
    obtain ⟨_,hn,rfl,rfl⟩ := h
    exact .opened hn
  case setlk.succeed =>
    obtain ⟨_,hl,rfl,rfl⟩ := h
    exact .locked hl
  case setlkw.succeed =>
    obtain ⟨_,hl,rfl,rfl⟩ := h
    exact .granted hl
  case unlink.succeed =>
    split at h
    · cases h
    · cases h
      exact .unlinked _
  all_goals
    obtain ⟨rfl,rfl⟩ := h
    first
    | exact .failed rfl rfl
    | exact .written rfl
    | exact .ended rfl
    | constructor

/-- The calls move a process as described. -/
theorem Effect.move (h : Effect p a F k r F') (hc : P.call = some k) (hr : ∀ c, r ≠ .child c) :
    Move p a F P.pidfile P.phase (P.next r).phase F' := by
  obtain ⟨pidfile,phase,reports⟩ := P
  cases phase with
  | fopenRead =>
    cases pidfile <;> cases hc
    cases h with
    | opened hn => exact .passes (.found rfl hn)
    | failed ha => exact .passes (.missing ha)
  | getLock pf =>
    cases hc
    cases h with
    | owner =>
      cases hb : F.blocker p .shared pf with
      | none => exact .passes (.unlocked hb)
      | some o => exact .passes (.locked hb)
    | failed => exact .passes (.lockInfo pf)
  | setRead pf =>
    cases hc
    cases h with
    | locked hl => exact .reads hl
    | failed ha => exact .passes (.readLocked pf ha)
  | getLockAgain pf =>
    cases hc
    cases h <;> exact .passes (.lockedAgain pf _)
  | unlinkStale pf =>
    cases pidfile <;> cases hc
    cases h with
    | unlinked name => exact .unlinks rfl (.stale pf)
    | failed => exact .passes (.cannotRemove pf)
  | closeStale pf =>
    cases hc
    cases h with
    | closed => exact .closes .stale
    | failed _ hf => cases hf
  | scan pf owner =>
    cases hc
    cases h with
    | scanned => exact .passes (.scanned pf owner)
    | failed _ hf => cases hf
  | closeRefused pf =>
    cases hc
    cases h with
    | closed => exact .closes .refused
    | failed _ hf => cases hf
  | fopenWrite =>
    cases pidfile <;> cases hc
    cases h with
    | created name => exact .creates rfl
    | failed => exact .passes .cannotOpen
  | setWrite pf =>
    cases hc
    cases h with
    | locked hl => exact .takes hl .setWrite
    | failed => exact .passes (.writeLocked pf)
  | closeUnlocked pf =>
    cases hc
    cases h with
    | closed => exact .closes .unlocked
    | failed _ hf => cases hf
  | fork1 pf =>
    cases hc
    cases h with
    | forked c => exact absurd rfl (hr c)
    | failed => exact .passes (.givesUp .fork1)
  | closeParent pf =>
    cases pf <;> cases hc
    · cases h with
      | stepped => exact .passes .closeParent
      | failed _ hf => cases hf
    · cases h with
      | closed pf => exact .closes .parent
      | failed _ hf => cases hf
  | relay =>
    cases hc
    cases h with
    | relayed rc => exact .passes (.relay rc)
    | failed _ hf => cases hf
  | wait1 pf =>
    cases pf <;> cases hc
    · cases h with
      | stepped => exact .passes .wait1
      | failed => exact .passes (.givesUp .wait1)
    · cases h with
      | granted hl => exact .takes hl .wait1
      | interrupted pf => exact .passes (.interrupted1 _)
      | failed => exact .passes (.givesUp .wait1)
  | setsid pf =>
    cases hc
    cases h with
    | passed => exact .passes (.setsid pf)
    | failed => exact .passes (.givesUp .setsid)
  | fork2 pf =>
    cases hc
    cases h with
    | forked c => exact absurd rfl (hr c)
    | failed => exact .passes (.givesUp .fork2)
  | printPid pf child =>
    cases pf <;> cases hc
    · cases h with
      | stepped => exact .passes (.printPid none child)
      | failed _ hf => cases hf
    · cases h with
      | printed => exact .passes (.printPid _ child)
      | failed _ hf => cases hf
  | writePid pf child =>
    cases pf <;> cases hc
    · cases h with
      | stepped => exact .passes (.writePid child)
      | failed _ hf => cases hf
    · cases h with
      | written ha => exact .prints ha
      | failed _ hf => cases hf
  | closePid pf child =>
    cases pf <;> cases hc
    · cases h with
      | stepped => exact .passes (.closePid child)
      | failed _ hf => cases hf
    · cases h with
      | closed pf => exact .closes (.pid child)
      | failed _ hf => cases hf
  | wait2 pf =>
    cases pf <;> cases hc
    · cases h with
      | stepped => exact .passes .wait2
      | failed => exact .passes (.givesUp .wait2)
    · cases h with
      | granted hl => exact .takes hl .wait2
      | interrupted pf => exact .passes (.interrupted2 _)
      | failed => exact .passes (.givesUp .wait2)
  | chdir pf =>
    cases hc
    cases h with
    | passed => exact .passes (.chdir pf)
    | failed => exact .passes (.givesUp .chdir)
  | main pf =>
    cases hc
    cases h with
    | ended ha => exact .passes (.main ha)
    | failed _ hf => cases hf
  | closeMain pf rc =>
    cases pf <;> cases hc
    · cases h with
      | stepped => exact .passes (.closeMain rc)
      | failed _ hf => cases hf
    · cases h with
      | closed pf => exact .closes (.main rc)
      | failed _ hf => cases hf
  | unlinkMain rc =>
    cases pidfile <;> cases hc
    · cases h with
      | stepped => exact .passes (.unlinkMain rc)
      | failed _ hf => cases hf
    · cases h with
      | unlinked name => exact .unlinks rfl (.main rc)
      | failed => exact .passes (.unlinkMain rc)
  | done pf =>
    cases pf <;> cases hc
    · cases h with
      | stepped => exact .passes .done
      | failed _ hf => cases hf
    · cases h with
      | closed pf => exact .closes .done
      | failed _ hf => cases hf
  | returned rc => cases hc

/-- A fork leaves the files as they are. -/
theorem Effect.fork {c : ℕ} (h : Effect p a F k (.child c) F') (hc : P.call = some k) :
    F' = F ∧ ∃ pf, Forks c pf P.phase (P.next (.child c)).phase (P.next .inChild).phase := by
  cases h
  obtain ⟨pidfile,phase,reports⟩ := P
  refine ⟨rfl,?_⟩
  cases phase
  case fork1 pf => exact ⟨pf,.fork1⟩
  case fork2 pf => exact ⟨pf,.fork2⟩
  case closeParent pf => cases pf <;> cases hc
  case wait1 pf => cases pf <;> cases hc
  case printPid pf child => cases pf <;> cases hc
  case writePid pf child => cases pf <;> cases hc
  case closePid pf child => cases pf <;> cases hc
  case wait2 pf => cases pf <;> cases hc
  case closeMain pf rc => cases pf <;> cases hc
  case done pf => cases pf <;> cases hc
  all_goals cases pidfile <;> cases hc

@[simp] theorem Process.goto_phase (phase : Phase) : (P.goto phase).phase = phase := rfl
@[simp] theorem Process.goto_pidfile (phase : Phase) : (P.goto phase).pidfile = P.pidfile := rfl
@[simp] theorem Process.goto_reports (phase : Phase) : (P.goto phase).reports = P.reports := rfl
@[simp] theorem Process.log_pidfile (report : Report) : (P.log report).pidfile = P.pidfile := rfl
@[simp] theorem Process.log_reports (report : Report) : (P.log report).reports = P.reports ++ [report] := rfl

theorem Process.next_pidfile (P : Process) (r : Result) : (P.next r).pidfile = P.pidfile := by
  unfold next
  split <;> rfl

namespace Host

@[simp] theorem set_self (Q : Option Process) : (H.set p Q).procs p = Q := Function.update_self ..

theorem set_other {o : ℕ} (Q : Option Process) (hne : o ≠ p) : (H.set p Q).procs o = H.procs o :=
  Function.update_of_ne hne ..

theorem launch_inv {pidfile : Option String} (h : step (.launch p pidfile) H = .ok H') :
    H.free p ∧ p ≠ 0 ∧ H' = H.set p (some (.start pidfile)) := by
  rw [step] at h
  split at h
  · next hp => exact ⟨hp.1,hp.2,(Except.ok.inj h).symm⟩
  · cases h

theorem leave_inv (h : step (.leave p) H = .ok H') :
    H.procs p ≠ none ∧ H' = { H with files := H.files.leave p }.set p none := by
  rw [step] at h
  split at h
  · cases h
  · next hp => exact ⟨hp,(Except.ok.inj h).symm⟩

/-- A call of a process has an effect on the files, and the process goes on with its result. -/
theorem call_inv (h : step (.call p a) H = .ok H') :
    ∃ P k r F, H.procs p = some P ∧ P.call = some k ∧ Effect p a H.files k r F ∧
      { H with files := F }.resume p P r = some H' := by
  simp only [step,Option.bind_eq_bind] at h
  cases hP : H.procs p with
  | none => rw [hP] at h; cases h
  | some P =>
    cases hc : P.call with
    | none => rw [hP,Option.bind_some,hc] at h; cases h
    | some k =>
      cases hk : kernel p k a H.files with
      | none => rw [hP,Option.bind_some,hc,Option.bind_some,hk] at h; cases h
      | some rF =>
        rw [hP,Option.bind_some,hc,Option.bind_some,hk,Option.bind_some] at h
        refine ⟨P,k,rF.1,rF.2,rfl,hc,kernel_effect hk,?_⟩
        cases hn : { H with files := rF.2 }.resume p P rF.1 with
        | none => rw [hn] at h; cases h
        | some N =>
          rw [hn] at h
          cases h
          rfl

/-- A process moves, or it starts another one. -/
theorem call_cases (h : step (.call p a) H = .ok H') : ∃ P Q, H.procs p = some P ∧ Q.pidfile = P.pidfile ∧
    ((Move p a H.files P.pidfile P.phase Q.phase H'.files ∧ H' = { H with files := H'.files }.set p (some Q)) ∨
      ∃ c pf C, H.procs c = none ∧ c ≠ 0 ∧ C.pidfile = P.pidfile ∧ Forks c pf P.phase Q.phase C.phase ∧
        H' = (H.set p (some Q)).set c (some C)) := by
  obtain ⟨P,k,r,F,hP,hc,he,hn⟩ := call_inv h
  refine ⟨P,P.next r,hP,P.next_pidfile r,?_⟩
  unfold resume at hn
  split at hn
  · next c =>
    split at hn
    · next hfree =>
      cases hn
      obtain ⟨rfl,pf,hf⟩ := he.fork hc
      exact .inr ⟨c,pf,_,hfree.1,hfree.2,P.next_pidfile _,hf,rfl⟩
    · cases hn
  · next hne =>
    cases hn
    exact .inl ⟨he.move hc hne,rfl⟩

end Host
end LibIrcBot.Daemon
