import LibIrcBot.Daemon.Places

/-! # One daemon for a pidfile

While no launch overlaps another one with the same pidfile, or the end of a daemon, the outline of all launches is
kept by every step. What excludes a second daemon is that a lock is not granted while another process owns the file
that the name stands for.
-/
namespace LibIrcBot.Daemon
open Transitions

variable {H H' : Host} {F F' : PidFiles} {P Q P' : Process} {p q o i j c : ℕ} {a : Answer} {k l kc : Phase}
  {name : String} {strict : Prop} {label : Label}

/-! ## Orderly runs -/

/-- No other process with the pidfile is in a launch, or a daemon at its end. -/
def Host.Quiet (H : Host) (pidfile : Option String) (p : ℕ) : Prop :=
  ∀ q ∈ H.pids, q ≠ p → ∀ Q ∈ H.procs q, Q.pidfile = pidfile → Q.phase.Settled

instance (pidfile : Option String) : Decidable (H.Quiet pidfile p) := inferInstanceAs (Decidable (∀ _ ∈ _, _ → _))

def Label.Serial : Label → Host → Prop
  | .launch p pidfile, H => pidfile ≠ none → H.Quiet pidfile p
  | .call p _, H => ∀ P ∈ H.procs p, P.phase.stage = .run → P.pidfile ≠ none → H.Quiet P.pidfile p
  | .leave _, _ => True

instance : Decidable (label.Serial H) := by
  cases label <;> unfold Label.Serial <;> infer_instance

/-- A pidfile that exists can be opened, locking fails only because of other locks, and all is written. -/
def Answer.Smooth (F : PidFiles) (p : ℕ) : Option Call → Answer → Prop
  | some (.fopenRead name), .fail => F.named name = none
  | some (.setlk .shared pf), .fail => F.blocker p .shared pf ≠ none
  | some (.write _ cs), .write n => cs.length ≤ n
  | _, _ => True

instance (k : Option Call) : Decidable (a.Smooth F p k) := by
  unfold Answer.Smooth
  split <;> infer_instance

def Phase.isPrint : Phase → Bool
  | .printPid _ _ | .writePid _ _ => true
  | _ => false

/-- Nothing else fails, and the pid is written when a process ends. -/
def Label.Steady : Label → Host → Prop
  | .launch _ _, _ => True
  | .call p a, H => ∀ P ∈ H.procs p, a.Smooth H.files p P.call
  | .leave p, H => ∀ P ∈ H.procs p, P.phase.isPrint = false

instance : Decidable (label.Steady H) := by
  cases label <;> unfold Label.Steady <;> infer_instance

abbrev Host.Valid (strict : Prop) (H : Host) : Prop := (places strict).Valid H.files H.procs

/-! ## What two processes with one pidfile know -/

theorem unbound_of_fits (hf : k.fits none) : k.bound = none := by
  cases k
  case fork1 pf | closeParent pf | wait1 pf | setsid pf | fork2 pf | printPid pf _ | writePid pf _ | closePid pf _
    | wait2 pf | chdir pf | main pf | closeMain pf _ | done pf => exact Option.isNone_iff_eq_none.mp (Option.isSome_eq_false_iff.mp hf)
  all_goals first | rfl | cases hf

theorem same_file (V : H.Valid strict) (hP : H.procs p = some P) (hQ : H.procs q = some Q) (hname : P.pidfile = some name)
    (hsame : Q.pidfile = some name) (hi : P.phase.bound = some i) (hj : Q.phase.bound = some j) : j = i :=
  Option.some.inj (((V.holds hQ).bound hsame hj).symm.trans ((V.holds hP).bound hname hi))

/-- Two processes with one file have one pidfile. -/
theorem same_name (L : Ledger H) (V : H.Valid strict) (hP : H.procs p = some P) (hQ : H.procs q = some Q)
    (hname : P.pidfile = some name) (hi : P.phase.bound = some i) (hj : Q.phase.bound = some i) :
    Q.pidfile = some name := by
  cases hother : Q.pidfile with
  | none =>
    have hf := (V.holds hQ).fits
    rw [hother] at hf
    rw [unbound_of_fits hf] at hj
    cases hj
  | some other => rw [L.named.injective ((V.holds hP).bound hname hi) ((V.holds hQ).bound hother hj)]

/-- Two processes with one pidfile are at stages that go together. -/
theorem stages_beside (V : H.Valid strict) (hP : H.procs p = some P) (hQ : H.procs q = some Q) (hne : q ≠ p)
    (hname : P.pidfile = some name) (hsame : Q.pidfile = some name) : Beside strict p P.phase.stage q Q.phase.stage :=
  V.together hne.symm hP hQ (by rw [hname]; exact Option.some_ne_none _) (hname.trans hsame.symm)

/-- The stages at which a process with a pidfile owns its file. -/
theorem owned_of_stage (hf : k.fits (some name)) (hs : k.stage = .run ∨ k.stage = .parent ∨ ∃ c, k.stage = .printing c) :
    ∃ i, k.owned = some i := by
  cases k <;> simp [Phase.stage] at hs <;> exact Option.isSome_iff_exists.mp hf

/-- No lock is granted while another process with the pidfile owns the file. -/
theorem not_granted {mode : LockMode} (L : Ledger H) (V : H.Valid strict) (hP : H.procs p = some P)
    (hQ : H.procs q = some Q) (hne : q ≠ p) (hname : P.pidfile = some name) (hsame : Q.pidfile = some name)
    (hi : P.phase.bound = some i) (hlock : H.files.lock p mode i = some F')
    (hs : Q.phase.stage = .run ∨ Q.phase.stage = .parent ∨ ∃ c, Q.phase.stage = .printing c) : False := by
  have hf := (V.holds hQ).fits
  rw [hsame] at hf
  obtain ⟨j,hj⟩ := owned_of_stage hf hs
  have hij := same_file V hP hQ hname hsame hi (Phase.MayOwn.bound (.inl hj))
  exact Files.not_owns_of_lock hlock hne (hij ▸ L.held hQ hj)

/-! ## Stages behind a step -/

theorem Takes.bound (h : Takes i k l) : k.bound = some i ∧ l.bound = some i := by
  cases h <;> exact ⟨rfl,rfl⟩

/-- The stage that is reached goes with those of the other processes. -/
theorem Move.beside (L : Ledger H) (V : H.Valid strict) (hP : H.procs p = some P) (hQ : H.procs q = some Q)
    (hne : q ≠ p) (hname : P.pidfile = some name) (hsame : Q.pidfile = some name)
    (hm : Move p a H.files P.pidfile P.phase l F') (hserial : (Label.call p a).Serial H)
    (hsteady : strict → (Label.call p a).Steady H) : Beside strict p l.stage q Q.phase.stage := by
  have hb := stages_beside V hP hQ hne hname hsame
  have hfits := (V.holds hP).fits
  rw [hname] at hfits
  have hidle : ∀ {s : Stage}, Q.phase.stage = .idle → Beside strict p s q Q.phase.stage := fun h => .inr (.inl h)
  generalize hk : P.phase = k at hm hb hfits
  cases hm with
  | passes hp =>
    cases hp with
    | missing ha =>
      rcases hb.look with h | h
      · exact hidle h
      · by_cases hs : strict
        · -- a file that a daemon runs on can be opened
          have hfail := hsteady hs P hP
          simp only [Process.call,hk,hname,Option.map_some,ha,Answer.Smooth] at hfail
          have hf := (V.holds hQ).fits
          rw [hsame] at hf
          obtain ⟨j,hj⟩ := owned_of_stage hf (.inl h)
          rw [(V.holds hQ).bound hsame (Phase.MayOwn.bound (.inl hj))] at hfail
          cases hfail
        · rw [h]
          exact .inr (.inr (.inl (.make hs)))
    | chdir pf => exact hidle hb.alone
    | main ha =>
      have hrun : P.phase.stage = .run := by rw [hk]; rfl
      have hset := hserial P hP hrun (by rw [hname]; exact Option.some_ne_none _) q (L.listed hQ) hne Q hQ
        (hsame.trans hname.symm)
      rcases hb.run with h | h | ⟨_,h⟩
      · exact hidle h
      · rw [Phase.Settled,h] at hset
        exact absurd hset (by simp)
      · rw [Phase.Settled,h] at hset
        exact absurd hset (by simp)
    | givesUp hg =>
      cases hg with
      | wait1 =>
        rcases hb.child1 with h | h
        · exact hidle h
        · rw [h]
          exact .inr (.inr (.inr .done1))
      | wait2 =>
        rcases hb.child2 with h | h
        · exact hidle h
        · rw [h]
          exact .inr (.inr (.inr (.done2 p)))
      | _ => exact hidle hb.alone
    | wait1 => cases hfits
    | wait2 => cases hfits
    | lockInfo | cannotRemove | cannotOpen | relay | unlinkMain | closeParent | closePid | done => exact Beside.idle _
    | _ => exact hb
  | reads hl =>
    rcases hb.look with h | h
    · exact hidle h
    · exact (not_granted L V hP hQ hne hname hsame (by rw [hk]; rfl) hl (.inl h)).elim
  | takes hl ht =>
    have hi := ht.bound.1
    rw [← hk] at hi
    cases ht with
    | setWrite =>
      rcases hb.make with h | ⟨_,h⟩
      · exact hidle h
      · exact (not_granted L V hP hQ hne hname hsame hi hl (.inl h)).elim
    | wait1 =>
      rcases hb.child1 with h | h
      · exact hidle h
      · exact (not_granted L V hP hQ hne hname hsame hi hl (.inr (.inl h))).elim
    | wait2 =>
      rcases hb.child2 with h | h
      · exact hidle h
      · exact (not_granted L V hP hQ hne hname hsame hi hl (.inr (.inr ⟨p,h⟩))).elim
  | closes hc =>
    cases hc with
    | stale => exact hidle hb.sweep
    | main => exact hb
    | _ => exact Beside.idle _
  | unlinks _ hu =>
    cases hu with
    | stale => exact hb
    | main => exact Beside.idle _
  | creates => exact hb
  | prints => exact hb

/-! ## The process that steps -/

theorem GivesUp.fits {pf : Option ℕ} {pidfile : Option String} (h : GivesUp pf k) (hf : k.fits pidfile) :
    (Phase.done pf).fits pidfile := by
  cases h <;> exact hf

theorem GivesUp.bound {pf : Option ℕ} (h : GivesUp pf k) : k.bound = pf := by
  cases h <;> rfl

theorem Move.fits {pidfile : Option String} (h : Move p a F pidfile k l F') (hf : k.fits pidfile) : l.fits pidfile := by
  cases h with
  | passes hp =>
    cases hp with
    | givesUp hg => exact hg.fits hf
    | _ => first | exact hf | trivial
  | reads => exact hf
  | takes _ ht => cases ht <;> first | exact hf | exact hf.symm
  | closes hc => cases hc <;> first | exact hf | trivial
  | unlinks _ hu => cases hu <;> exact hf
  | creates => exact hf
  | prints => exact hf

/-- The name stands for the file at the phase that is reached. -/
theorem Move.bound (h : Move p a F P.pidfile P.phase l F') (hP : P.Holds strict F p) (hname : P.pidfile = some name)
    (hi : l.bound = some i) : F'.named name = some i := by
  have hold : ∀ {j}, P.phase.bound = some j → F.named name = some j := fun hj => hP.bound hname hj
  generalize hk : P.phase = k at h hold
  cases h with
  | passes hp =>
    cases hp with
    | found hn hf =>
      cases hi
      cases hn.symm.trans hname
      exact hf
    | givesUp hg =>
      exact hold (hg.bound.trans hi)
    | _ => first | exact hold hi | cases hi
  | reads => cases hi
  | takes hl ht =>
    rw [Files.lock_named hl]
    cases ht.bound.2.symm.trans hi
    exact hold ht.bound.1
  | closes hc => cases hc <;> cases hi
  | unlinks _ hu => cases hu <;> cases hi
  | creates hn =>
    cases hi
    cases hn.symm.trans hname
    exact Files.create_names_file
  | prints => exact hold hi

/-- Whoever has locked a file that a launch has found runs as a daemon and has written its pid. -/
theorem line_of_owner (L : Ledger H) (V : H.Valid strict) (hs : strict) (hP : H.procs p = some P)
    (hname : P.pidfile = some name) (hlook : P.phase.stage = .look) (hi : P.phase.bound = some i)
    (ho : H.files.Owns o i) (hne : o ≠ p) : H.files.text i = pidLine o := by
  obtain ⟨Q,hQ,hm⟩ := L.owner ho
  have hb := stages_beside V hP hQ hne hname (same_name L V hP hQ hname hi hm.bound)
  rw [hlook] at hb
  have hc := (V.holds hQ).content hs
  generalize Q.phase = k at hm hb hc
  rcases hb.look with h | h
  · rcases hm with hm | rfl
    · cases k <;> cases h <;> cases hm
    · cases h
  · cases k <;> cases h
    cases hm.bound
    exact hc

/-- The files are as the phase that is reached says. -/
theorem Move.content (L : Ledger H) (V : H.Valid strict) (hs : strict) (hP : H.procs p = some P)
    (hname : P.pidfile = some name) (hm : Move p a H.files P.pidfile P.phase l F')
    (hsteady : (Label.call p a).Steady H) : l.Content F' p := by
  have hc := (V.holds hP).content hs
  generalize hk : P.phase = k at hm hc
  cases hm with
  | passes hp =>
    cases hp with
    | unlocked hb => exact fun o hne ho => Files.blocker_isSome ho hne hb
    | @locked i o hb =>
      obtain ⟨ho,hne⟩ := Files.owns_of_blocker hb
      exact line_of_owner L V hs hP hname (by rw [hk]; rfl) (by rw [hk]; rfl) ho hne
    | readLocked i ha =>
      have hfail := hsteady P hP
      simp only [Process.call,hk,ha,Answer.Smooth] at hfail
      obtain ⟨o,ho⟩ := Option.ne_none_iff_exists'.mp hfail
      obtain ⟨ho,hne⟩ := Files.owns_of_blocker ho
      exact hc o hne ho
    | lockedAgain => exact hc.elim
    | givesUp => trivial
    | interrupted1 | interrupted2 => exact hc
    | setsid pf | chdir pf | printPid pf _ => cases pf <;> exact hc
    | _ => trivial
  | reads => trivial
  | takes hl ht =>
    cases ht with
    | setWrite | wait1 => exact (congrFun (Files.lock_text hl) _).trans hc
    | wait2 => exact (congrFun (Files.lock_text hl) _).trans (hc fun o hne => Files.not_owns_of_lock hl hne)
  | closes hcl => cases hcl <;> trivial
  | unlinks _ hu => cases hu <;> trivial
  | creates => exact Files.create_empty
  | prints ha =>
    have hlen := hsteady P hP
    simp only [Process.call,hk,Option.elim,ha,Answer.Smooth] at hlen
    rw [Phase.Content,List.take_of_length_le hlen]
    exact Files.write_empty hc

/-! ## The other processes -/

/-- The name of another process keeps its file. -/
theorem Move.named (V : H.Valid strict) (hP : H.procs p = some P) (hQ : H.procs q = some Q) (hne : q ≠ p)
    (hm : Move p a H.files P.pidfile P.phase l F') (hsame : Q.pidfile = some name) (hj : Q.phase.bound = some j) :
    F'.named name = some j := by
  have hold := (V.holds hQ).bound hsame hj
  -- the name is only taken from idle processes
  have hidle : ∀ {n}, P.pidfile = some n → (∀ t, Beside strict p P.phase.stage q t → t = .idle) → name ≠ n := by
    intro n hn hst he
    have hb := hst _ (stages_beside V hP hQ hne hn (he ▸ hsame))
    generalize Q.phase = k at hb hj
    cases k <;> cases hb <;> cases hj
  generalize P.phase = k at hm hidle
  cases hm with
  | passes | closes | prints => exact hold
  | reads hl => rw [Files.lock_named hl]; exact hold
  | takes hl => rw [Files.lock_named hl]; exact hold
  | unlinks hn hu =>
    rw [Files.unlink_named_other (hidle hn fun t ht => by cases hu <;> first | exact ht.sweep | exact ht.alone)]
    exact hold
  | @creates n hn =>
    by_cases he : name = n
    · subst he
      rw [(Files.create_named hold).2]
      exact hold
    · rw [Files.create_named_other he]
      exact hold

/-- What is in the file of another process stays, or its name is the same and it runs as a daemon or waits for the
lock. -/
theorem Move.text (L : Ledger H) (V : H.Valid strict) (hs : strict) (hP : H.procs p = some P) (hQ : H.procs q = some Q)
    (hne : q ≠ p) (hm : Move p a H.files P.pidfile P.phase l F') (hsame : Q.pidfile = some name)
    (hj : Q.phase.bound = some j) : F'.text j = H.files.text j ∨ ∃ child, P.phase = .writePid (some j) child := by
  have hnq := (V.holds hQ).bound hsame hj
  generalize hk : P.phase = k at hm
  cases hm with
  | passes | closes | unlinks => exact .inl rfl
  | reads hl => exact .inl (congrFun (Files.lock_text hl) j)
  | takes hl => exact .inl (congrFun (Files.lock_text hl) j)
  | @creates n hn =>
    refine .inl (Files.create_text fun he => ?_)
    by_cases hn' : name = n
    · have hb := stages_beside V hP hQ hne hn (hn' ▸ hsame)
      rw [hk] at hb
      rcases hb.make with h | ⟨h,_⟩
      · generalize Q.phase = k at h hj
        cases k <;> cases h <;> cases hj
      · exact h hs
    · exact L.named.create_ne hn' hnq he.symm
  | @prints i child n =>
    by_cases hij : j = i
    · subst hij
      exact .inr ⟨child,rfl⟩
    · exact .inl (Files.write_text hij)

/-- A process that keeps a daemon from the lock writes the pid of the daemon, or has written it. -/
theorem line_of_parent (L : Ledger H) (V : H.Valid strict) (hs : strict) (hP : H.procs p = some P)
    (hQ : H.procs q = some Q) (hne : q ≠ p) (hname : Q.pidfile = some name) (hwait : Q.phase = .wait2 (some j))
    (ho : H.files.Owns p j) : P.phase.isPrint = true ∨ (P.phase = .closePid (some j) q ∧ H.files.text j = pidLine q) := by
  obtain ⟨P',hP',hm⟩ := L.owner ho
  cases hP.symm.trans hP'
  have hb := stages_beside V hQ hP hne.symm hname (same_name L V hQ hP hname (by rw [hwait]; rfl) hm.bound)
  rw [hwait] at hb
  have hc := (V.holds hP).content hs
  generalize P.phase = k at hm hb hc
  rcases hb.child2 with h | h
  · cases k <;> cases h <;> rcases hm with hm | hm <;> cases hm
  · cases k <;> cases h
    · exact .inl rfl
    · exact .inl rfl
    · cases hm.bound
      exact .inr ⟨rfl,hc⟩

/-- Without a file to speak of, nothing is said of its contents. -/
theorem Phase.content_unbound (h : k.bound = none) : k.Content F p := by
  cases k <;> first | trivial | (cases h; trivial)

theorem Move.gains_takes (h : Move p a F P.pidfile k l F') (ho : F'.Owns p j) (hno : ¬ F.Owns p j) : Takes j k l := by
  cases h with
  | reads hl => exact absurd (Files.owns_of_lock_shared hl ho) hno
  | @takes i _ _ _ hl ht =>
    by_cases hj : j = i
    · exact hj ▸ ht
    · exact absurd ((Files.lock_keeps hl (.inr hj)).mp ho) hno
  | closes _ => exact absurd (Files.close_owns.mp ho).1 hno
  | creates _ => exact absurd (Files.create_owns.mp ho) hno
  | _ => exact absurd ho hno

/-- A process that writes the pid keeps its lock. -/
theorem Move.printing (h : Move p a F P.pidfile k l F') (hk : k.isPrint = true) (ho : F.Owns p j) : F'.Owns p j := by
  cases h with
  | passes => exact ho
  | prints => exact ho
  | reads | creates => cases hk
  | takes _ ht => cases ht <;> cases hk
  | closes hc => cases hc <;> cases hk
  | unlinks _ hu => cases hu <;> cases hk

/-- The files stay as the phases of the other processes say. -/
theorem Move.keeps_content (L : Ledger H) (V : H.Valid strict) (hs : strict) (hP : H.procs p = some P)
    (hQ : H.procs q = some Q) (hne : q ≠ p) (hm : Move p a H.files P.pidfile P.phase l F') : Q.phase.Content F' q := by
  cases hb : Q.phase.bound with
  | none => exact Phase.content_unbound hb
  | some j =>
    cases hname : Q.pidfile with
    | none =>
      have hf := (V.holds hQ).fits
      rw [hname] at hf
      rw [unbound_of_fits hf] at hb
      cases hb
    | some name =>
      have hothers : ∀ {o i}, o ≠ p → (F'.Owns o i ↔ H.files.Owns o i) := fun h => hm.others h
      have hc := (V.holds hQ).content hs
      rcases hm.text L V hs hP hQ hne hname hb with htext | ⟨child,hprint⟩
      · refine hc.frame (fun {i} hi => ?_) (fun {i} hi o ho hown => ?_) (fun {i} hi hno => ?_)
        · cases hb.symm.trans hi
          exact htext
        · by_cases hop : o = p
          · subst hop
            by_contra hold
            have ht := hm.gains_takes hown hold
            have hb' := stages_beside V hQ hP hne.symm hname (same_name L V hQ hP hname (by rw [hi]; rfl) ht.bound.1)
            rw [hi] at hb'
            generalize P.phase = k at ht hb'
            rcases hb'.look with h | h <;> cases ht <;> cases h
          · exact (hothers hop).mp hown
        · by_cases hp : H.files.Owns p i
          · refine .inr ?_
            rw [hi] at hb
            cases hb
            rw [htext]
            rcases line_of_parent L V hs hP hQ hne hname hi hp with hprint | ⟨_,hline⟩
            · exact absurd (hm.printing hprint hp) (hno p hne.symm)
            · exact hline
          · refine .inl fun o ho hown => ?_
            have hop : o ≠ p := fun he => hp (he ▸ hown)
            exact hno o ho ((hothers hop).mpr hown)
      · have hp : H.files.Owns p j := L.held hP (by rw [hprint]; rfl)
        have hb' := stages_beside V hP hQ hne (same_name L V hQ hP hname hb (by rw [hprint]; rfl)) hname
        rw [hprint] at hb'
        have hp' := hm.printing (by rw [hprint]; rfl) hp
        generalize Q.phase = k at hb hb'
        rcases hb'.printing with h | ⟨h,_⟩ | h
        · cases k <;> cases h <;> cases hb
        · cases k <;> cases h
          cases hb
          exact fun hno => absurd hp' (hno p hne.symm)
        · cases k <;> cases h
          trivial

/-! ## Every step keeps the outline -/

theorem Process.start_holds (pidfile : Option String) : (Process.start pidfile).Holds strict F p := by
  cases pidfile with
  | none => exact ⟨rfl,nofun,fun _ => trivial⟩
  | some name => exact ⟨rfl,nofun,fun _ => trivial⟩

theorem Valid.launch {pidfile : Option String} (L : Ledger H) (V : H.Valid strict)
    (hquiet : pidfile ≠ none → H.Quiet pidfile p) : (H.set p (some (.start pidfile))).Valid strict := by
  refine Outline.Valid.move V (Process.start_holds pidfile) fun q Q hne hQ => ⟨V.holds hQ,fun hsome hsame => ?_⟩
  cases pidfile with
  | none => exact absurd rfl hsome
  | some name =>
    rcases hquiet hsome q (L.listed hQ) hne Q hQ hsame.symm with h | h
    · exact .inr (.inl h)
    · rw [h]
      exact .inr (.inr (.inl .look))

theorem Valid.leaves (L : Ledger H) (V : H.Valid strict) (hP : H.procs p = some P)
    (hsteady : strict → (Label.leave p).Steady H) : ({ H with files := H.files.leave p }.set p none).Valid strict := by
  refine Outline.Valid.leave V fun q Q hne hQ => ⟨(V.holds hQ).fits,(V.holds hQ).bound,fun hs => ?_⟩
  refine ((V.holds hQ).content hs).frame (fun _ => rfl) (fun _ o _ ho => (Files.leave_owns.mp ho).1)
    fun {i} hi hno => ?_
  by_cases hp : H.files.Owns p i
  · cases hname : Q.pidfile with
    | none =>
      have hf := (V.holds hQ).fits
      rw [hname,hi] at hf
      cases hf
    | some name =>
      rcases line_of_parent L V hs hP hQ hne hname hi hp with hprint | ⟨_,hline⟩
      · exact absurd (hprint.symm.trans (hsteady hs P hP)) Bool.noConfusion
      · exact .inr hline
  · refine .inl fun o ho hown => hno o ho (Files.leave_owns.mpr ⟨hown,fun he => hp (he ▸ hown)⟩)

theorem Valid.moves (L : Ledger H) (V : H.Valid strict) (hP : H.procs p = some P) (hsame : P'.pidfile = P.pidfile)
    (hm : Move p a H.files P.pidfile P.phase P'.phase F') (hserial : (Label.call p a).Serial H)
    (hsteady : strict → (Label.call p a).Steady H) : ({ H with files := F' }.set p (some P')).Valid strict := by
  refine Outline.Valid.move V ⟨?_,?_,fun hs => ?_⟩ fun q Q hne hQ => ⟨⟨(V.holds hQ).fits,?_,fun hs => ?_⟩,?_⟩
  · rw [hsame]
    exact hm.fits (V.holds hP).fits
  · exact fun hname hi => hm.bound (V.holds hP) (hsame ▸ hname) hi
  · cases hname : P.pidfile with
    | none =>
      have hf := hm.fits (V.holds hP).fits
      rw [hname] at hf
      exact Phase.content_unbound (unbound_of_fits hf)
    | some name => exact hm.content L V hs hP hname (hsteady hs)
  · exact fun hname hj => hm.named V hP hQ hne hname hj
  · exact hm.keeps_content L V hs hP hQ hne
  · intro hsome he
    obtain ⟨name,hname⟩ := Option.ne_none_iff_exists'.mp hsome
    exact hm.beside L V hP hQ hne (hsame ▸ hname) (he ▸ hname) hserial hsteady

section Forks
variable {pf : Option ℕ}

theorem Forks.fits {pidfile : Option String} (h : Forks c pf k l kc) (hf : k.fits pidfile) :
    l.fits pidfile ∧ kc.fits pidfile := by
  cases h <;> exact ⟨hf,hf⟩

theorem Forks.bound (h : Forks c pf k l kc) : l.bound = k.bound ∧ kc.bound = k.bound := by
  cases h <;> exact ⟨rfl,rfl⟩

theorem Forks.alone (h : Forks c pf k l kc) : k.stage = .alone := by
  cases h <;> rfl

theorem Forks.pair (h : Forks c pf k l kc) : Pair strict c l.stage kc.stage := by
  cases h with
  | fork1 => exact .child1
  | fork2 => exact .child2

theorem Forks.content (h : Forks c pf k l kc) (hc : k.Content F p) (hown : ∀ {i}, k.owned = some i → F.Owns p i)
    (hne : p ≠ c) : l.Content F p ∧ kc.Content F c := by
  cases h with
  | fork1 => cases pf <;> exact ⟨hc,hc⟩
  | fork2 =>
    cases pf with
    | none => exact ⟨trivial,trivial⟩
    | some i => exact ⟨hc,fun hno => absurd (hown rfl) (hno p hne)⟩

end Forks

theorem Valid.forks {C : Process} {pf : Option ℕ} (L : Ledger H) (V : H.Valid strict) (hP : H.procs p = some P)
    (hc : H.procs c = none) (hsame : P'.pidfile = P.pidfile) (hchild : C.pidfile = P.pidfile)
    (hf : Forks c pf P.phase P'.phase C.phase) : ((H.set p (some P')).set c (some C)).Valid strict := by
  have hpc : p ≠ c := fun h => by rw [h,hc] at hP; cases hP
  have hold := V.holds hP
  have hidle : ∀ {q Q}, q ≠ p → H.procs q = some Q → P.pidfile ≠ none → P.pidfile = Q.pidfile → Q.phase.stage = .idle := by
    intro q Q hne hQ hsome he
    obtain ⟨name,hname⟩ := Option.ne_none_iff_exists'.mp hsome
    have hb := stages_beside V hP hQ hne hname (he ▸ hname)
    rw [hf.alone] at hb
    exact hb.alone
  refine Outline.Valid.fork V ⟨?_,?_,fun hs => ?_⟩ (fun q Q hne hQ => ⟨V.holds hQ,fun hsome he => ?_⟩)
    ⟨?_,?_,fun hs => ?_⟩ (fun _ _ => ?_) (fun q Q hne hQ hsome he => ?_)
  · exact hsame ▸ (hf.fits hold.fits).1
  · exact fun hname hi => hold.bound (hsame ▸ hname) (hf.bound.1 ▸ hi)
  · exact (hf.content (hold.content hs) (fun hi => L.held hP hi) hpc).1
  · exact .inr (.inl (hidle hne hQ (hsame ▸ hsome) (hsame ▸ he)))
  · exact hchild ▸ (hf.fits hold.fits).2
  · exact fun hname hi => hold.bound (hchild ▸ hname) (hf.bound.2 ▸ hi)
  · exact (hf.content (hold.content hs) (fun hi => L.held hP hi) hpc).2
  · exact .inr (.inr (.inr hf.pair))
  · exact .inr (.inl (hidle hne hQ (hchild ▸ hsome) (hchild ▸ he)))

theorem Valid.step (L : Ledger H) (V : H.Valid strict) (hserial : label.Serial H) (hsteady : strict → label.Steady H)
    (hs : Host.step label H = .ok H') : H'.Valid strict := by
  cases label with
  | launch p pidfile =>
    obtain ⟨_,_,rfl⟩ := Host.launch_inv hs
    exact Valid.launch L V hserial
  | leave p =>
    obtain ⟨hP,rfl⟩ := Host.leave_inv hs
    obtain ⟨P,hP⟩ := Option.ne_none_iff_exists'.mp hP
    exact Valid.leaves L V hP hsteady
  | call p a =>
    obtain ⟨P,Q,hP,hsame,⟨hm,hH⟩ | ⟨c,pf,C,hc,_,hchild,hf,rfl⟩⟩ := Host.call_cases hs
    · rw [hH]
      exact Valid.moves L V hP hsame hm hserial hsteady
    · exact Valid.forks L V hP hc hsame hchild hf

end LibIrcBot.Daemon
