import LibIrcBot.Daemon.Exclusion

/-! # What a pidfile says

While launches do not overlap, a daemon is the only one for its pidfile; the file of that name is its own, it has
the lock on it, and every other launch is turned away before it gets the lock. When nothing else fails, the file
has the pid of the daemon, and a launch that finds the file locked reads the pid of the one who locked it.
-/
namespace LibIrcBot.Daemon
open Transitions CString

variable {H H' : Host} {F F' : PidFiles} {P Q : Process} {p q o i j c : ℕ} {a : Answer} {k : Call} {r : Result}
  {name : String} {strict : Prop} {label : Label}

theorem digit_byte {d : Char} (h : d.isDigit) : (UInt8.ofNat d.toNat).toNat = d.toNat ∧ 0x30 ≤ d.toNat ∧ d.toNat ≤ 0x39 := by
  rw [Char.isDigit,Bool.and_eq_true,decide_eq_true_eq,decide_eq_true_eq] at h
  have hle : 0x30 ≤ d.toNat := h.1
  have hge : d.toNat ≤ 0x39 := h.2
  refine ⟨?_,hle,hge⟩
  rw [UInt8.toNat_ofNat',Nat.mod_eq_of_lt (by omega)]

theorem decimal_digits {n : ℕ} : ∀ b ∈ decimal n, isdigit b = true := by
  intro b hb
  obtain ⟨d,hd,rfl⟩ := List.mem_map.mp hb
  obtain ⟨hn,hl,hu⟩ := digit_byte (Nat.isDigit_of_mem_toDigits (by decide) (by decide) hd)
  rw [isdigit,Bool.and_eq_true,decide_eq_true_eq,decide_eq_true_eq,UInt8.le_iff_toNat_le,UInt8.le_iff_toNat_le,hn]
  exact ⟨hl,hu⟩

theorem decimal_ne_nil {n : ℕ} : decimal n ≠ [] := by
  simp [decimal,Nat.toDigits_ne_nil]

theorem atoi_decimal (n : ℕ) : atoi (decimal n) = n := by
  have hfold : ∀ (ds : List Char) (m : ℕ), (∀ d ∈ ds, d.isDigit) →
      (ds.map fun d => UInt8.ofNat d.toNat).foldl (fun n c => 10 * n + (c.toNat - 0x30)) m = Nat.ofDigitChars 10 ds m := by
    intro ds
    induction ds with
    | nil => intro m _; rfl
    | cons d ds ih =>
      intro m hd
      rw [List.map_cons,List.foldl_cons,(digit_byte (hd d List.mem_cons_self)).1,Nat.ofDigitChars_cons]
      exact ih _ fun e he => hd e (List.mem_cons_of_mem _ he)
  rw [atoi,decimal,hfold _ _ fun d hd => Nat.isDigit_of_mem_toDigits (by decide) (by decide) hd]
  exact Nat.ofDigitChars_ten_toDigits

theorem takeWhile_pidLine (n : ℕ) : (pidLine n).takeWhile isdigit = decimal n := by
  rw [pidLine,List.takeWhile_append_of_pos decimal_digits]
  simp [isdigit,LF]

theorem dropWhile_pidLine (n : ℕ) : (pidLine n).dropWhile isspace = pidLine n := by
  obtain ⟨d,ds,hd⟩ := List.exists_cons_of_ne_nil (decimal_ne_nil (n := n))
  have hdig : isdigit d = true := decimal_digits d (hd ▸ List.mem_cons_self)
  have hspace : ¬ isspace d = true := by
    rw [isdigit,Bool.and_eq_true,decide_eq_true_eq,decide_eq_true_eq,UInt8.le_iff_toNat_le] at hdig
    rw [isspace,Bool.or_eq_true,Bool.and_eq_true,decide_eq_true_eq,decide_eq_true_eq,decide_eq_true_eq,
      UInt8.le_iff_toNat_le,UInt8.le_iff_toNat_le,SPACE,← UInt8.toNat_inj]
    have h := hdig.1
    simp at h ⊢
    omega
  rw [pidLine,hd,List.cons_append,List.dropWhile_cons_of_neg hspace]

/-- `fscanf` reads the pid that `fprintf` has written. -/
theorem scanInt_pidLine (n : ℕ) : scanInt (pidLine n) = some (n : ℤ) := by
  have hsign : ∀ c s, pidLine n = c :: s → isdigit c = true := by
    intro c s h
    obtain ⟨d,ds,hd⟩ := List.exists_cons_of_ne_nil (decimal_ne_nil (n := n))
    rw [pidLine,hd,List.cons_append] at h
    cases h
    exact decimal_digits _ (hd ▸ List.mem_cons_self)
  rw [scanInt,dropWhile_pidLine]
  dsimp only
  split
  · next s h => exact absurd (hsign _ _ h) (by decide)
  · next s h => exact absurd (hsign _ _ h) (by decide)
  · rw [takeWhile_pidLine,if_neg decimal_ne_nil,atoi_decimal]
    rfl

/-- A process logs nothing, or one thing; a number that is not the pid of the one who has the lock is what was read. -/
theorem Process.next_reports (P : Process) (r : Result) : (P.next r).reports = P.reports ∨
    ∃ report, (P.next r).reports = P.reports ++ [report] ∧ ∀ pid owner, report = .disagree pid owner →
      ∃ i, P.phase = .scan i owner ∧ ∃ read, r = .scanned read ∧ read ≠ some (owner : ℤ) := by
  unfold next
  split
  all_goals first
    | exact .inl rfl
    | (refine .inr ⟨_,rfl,fun pid owner he => ?_⟩; cases he)
    | skip
  next i owner read hk =>
    refine .inr ⟨_,rfl,fun pid owner' he => ?_⟩
    split at he
    · cases he
    · next hne =>
      cases he
      exact ⟨i,hk,read,rfl,hne⟩

/-- No process has found another pid in the file than that of the one who has locked it. -/
def Host.Agrees (H : Host) : Prop := ∀ q Q, H.procs q = some Q → ∀ pid owner, Report.disagree pid owner ∉ Q.reports

theorem agrees_set (h : H.Agrees) (hQ : ∀ pid owner, Report.disagree pid owner ∉ Q.reports) :
    (H.set p (some Q)).Agrees := by
  intro q R hR
  by_cases hqp : q = p
  · subst hqp
    cases (Host.set_self _).symm.trans hR
    exact hQ
  · exact h q R ((Host.set_other _ hqp).symm.trans hR)

/-- In a run in which nothing else fails, what is read is the pid of the one who has the lock. -/
theorem agrees_step (V : H.Valid True) (h : H.Agrees) (hs : Host.step label H = .ok H') : H'.Agrees := by
  cases label with
  | launch p pidfile =>
    obtain ⟨_,_,rfl⟩ := Host.launch_inv hs
    exact agrees_set h fun _ _ => List.not_mem_nil
  | leave p =>
    obtain ⟨_,rfl⟩ := Host.leave_inv hs
    intro q Q hQ
    by_cases hqp : q = p
    · rw [hqp,Host.set_self] at hQ
      cases hQ
    · exact h q Q ((Host.set_other _ hqp).symm.trans hQ)
  | call p a =>
    obtain ⟨P,k,r,F,hP,hc,he,hn⟩ := Host.call_inv hs
    have hnext : ∀ r', (∀ read, r' = .scanned read → r' = r) →
        ∀ pid owner, Report.disagree pid owner ∉ (P.next r').reports := by
      intro r' hr' pid owner hmem
      rcases P.next_reports r' with hsame | ⟨report,hadd,hdis⟩
      · exact h p P hP pid owner (hsame ▸ hmem)
      · rw [hadd] at hmem
        rcases List.mem_append.mp hmem with hmem | hmem
        · exact h p P hP pid owner hmem
        · obtain ⟨i,hk,read,hread,hne⟩ := hdis pid owner (List.mem_singleton.mp hmem).symm
          have htext := (V.holds hP).content trivial
          rw [hk] at htext
          change H.files.text i = pidLine owner at htext
          rw [Process.call,hk] at hc
          cases hc
          rw [← hr' read hread,hread] at he
          cases he
          exact hne (by rw [htext,scanInt_pidLine])
    unfold Host.resume at hn
    split at hn
    · split at hn
      · cases hn
        refine agrees_set (agrees_set h (hnext _ ?_)) (hnext _ ?_) <;>
          · intro read hread
            cases hread
      · cases hn
    · cases hn
      exact agrees_set h (hnext _ fun _ _ => rfl)

def Label.Smooth (label : Label) (H : Host) : Prop := label.Serial H ∧ label.Steady H

instance : Decidable (label.Smooth H) := inferInstanceAs (Decidable (_ ∧ _))

theorem valid_serial (h : Reaches Host.step Label.Serial Host.Initial H) : H.Valid False := by
  have hall := h.invariant (I := fun H => Ledger H ∧ H.Valid False)
    (fun _ hi => ⟨.initial hi,.initial hi.procs⟩) fun _ _ _ hI hc hs => ⟨hI.1.step hs,Valid.step hI.1 hI.2 hc False.elim hs⟩
  exact hall.2

theorem valid_smooth (h : Reaches Host.step Label.Smooth Host.Initial H) : H.Valid True ∧ H.Agrees := by
  have hall := h.invariant (I := fun H => Ledger H ∧ H.Valid True ∧ H.Agrees)
    (fun _ hi => ⟨.initial hi,.initial hi.procs,fun q Q hQ => by rw [hi.procs] at hQ; cases hQ⟩)
    fun _ _ _ hI hc hs => ⟨hI.1.step hs,Valid.step hI.1 hI.2.1 hc.1 (fun _ => hc.2) hs,agrees_step hI.2.1 hI.2.2 hs⟩
  exact hall.2

/-- A process that runs has a file, and it owns it. -/
theorem running (L : Ledger H) (V : H.Valid strict) (hP : H.procs p = some P) (hname : P.pidfile = some name)
    (hrun : P.phase.stage = .run) : ∃ i, P.phase = .main (some i) ∧ H.files.named name = some i ∧ H.files.Owns p i := by
  have hf := (V.holds hP).fits
  have hb : ∀ {i}, P.phase.bound = some i → H.files.named name = some i := fun hi => (V.holds hP).bound hname hi
  have ho : ∀ {i}, P.phase.owned = some i → H.files.Owns p i := fun hi => L.held hP hi
  generalize P.phase = k at hrun hf hb ho
  cases k <;> cases hrun
  next pf =>
    rw [hname] at hf
    obtain ⟨i,rfl⟩ := Option.isSome_iff_exists.mp hf
    exact ⟨i,rfl,hb rfl,ho rfl⟩

/-- Without launches that overlap each other or the end of a daemon, a daemon has the lock on the file of its
name, and every other process with the pidfile only relays what a daemon prints, is through with `daemon_run`, or is
still in `openpidfile`, without a lock that would exclude the daemon. -/
theorem one_daemon (h : Reaches Host.step Label.Serial Host.Initial H) (hP : H.procs p = some P)
    (hname : P.pidfile = some name) (hrun : P.phase.stage = .run) :
    (∃ i, P.phase = .main (some i) ∧ H.files.named name = some i ∧ H.files.Owns p i) ∧
      ∀ q Q, q ≠ p → H.procs q = some Q → Q.pidfile = some name →
        (Q.phase.stage = .idle ∨ Q.phase.stage = .look ∨ Q.phase.stage = .make) ∧ ∀ i, ¬ H.files.Owns q i := by
  have L := Ledger.reachable h
  have V := valid_serial h
  refine ⟨running L V hP hname hrun,fun q Q hne hQ hsame => ?_⟩
  have hb := stages_beside V hP hQ hne hname hsame
  rw [hrun] at hb
  have hstage : Q.phase.stage = .idle ∨ Q.phase.stage = .look ∨ Q.phase.stage = .make :=
    hb.run.imp_right (Or.imp_right And.right)
  refine ⟨hstage,fun i ho => ?_⟩
  obtain ⟨Q',hQ',hm⟩ := L.owner ho
  cases hQ.symm.trans hQ'
  generalize Q.phase = k at hstage hm
  cases k <;> simp [Phase.stage] at hstage <;> rcases hm with hm | hm <;> cases hm

def Host.empty : Host := ⟨⟨fun _ => none,0,fun _ => [],[]⟩,fun _ => none,[]⟩

theorem Host.empty_initial : Host.empty.Initial := ⟨fun _ => rfl,rfl,nofun,nofun⟩

/-- A launch in which all calls succeed, but for opening a file that does not exist. -/
def launching (name : String) (p c d : ℕ) : List Label :=
  [.launch p (some name),.call p .fail,.call p .succeed,.call p .succeed,.call p (.fork c),.call p .succeed,
    .call c .succeed,.call c .succeed,.call c (.fork d),.call c .succeed,.call c (.write 10),.call c .succeed,
    .call d .succeed,.call d .succeed]

/-- The calls of a second launch until it has found the file locked. -/
def relaunching (name : String) (p : ℕ) : List Label :=
  [.launch p (some name),.call p .succeed,.call p .succeed]

theorem one_daemon_relaunch : ∃ (H : Host) (P : Process), H.procs 3 = some P ∧ P.phase = .main (some 0) ∧ H.files.named "pid" = some 0 ∧
    H.files.Owns 3 0 ∧ ∃ Q : Process, H.procs 4 = some Q ∧ Q.phase = .scan 0 3 ∧ ∀ i, ¬ H.files.Owns 4 i := by
  have hrun : (follow Host.step Label.Serial (launching "pid" 1 2 3 ++ relaunching "pid" 4) Host.empty).any fun H =>
      H.procs 3 = some ⟨some "pid",.main (some 0),[.background]⟩ ∧ H.procs 4 = some ⟨some "pid",.scan 0 3,[]⟩ := by
    decide
  obtain ⟨H,hH,hend⟩ := (Reaches.start Host.empty_initial).exists_follow hrun
  obtain ⟨hP,hQ⟩ := of_decide_eq_true hend
  obtain ⟨⟨i,hi,hn,ho⟩,hothers⟩ := one_daemon hH hP rfl rfl
  cases hi
  exact ⟨H,_,hP,rfl,hn,ho,_,hQ,rfl,(hothers 4 _ (by decide) hQ rfl).2⟩

theorem pidLine_injective (h : pidLine p = pidLine q) : p = q := by
  have hscan := scanInt_pidLine p
  rw [h,scanInt_pidLine] at hscan
  exact (Int.ofNat.inj (Option.some.inj hscan)).symm

/-- When nothing else fails, the file of a daemon has its pid, a launch that finds the file locked looks for that
pid in it, and no launch has ever found another one. -/
theorem pidfile_names_daemon (h : Reaches Host.step Label.Smooth Host.Initial H) : H.Agrees ∧
    ∀ p P name, H.procs p = some P → P.pidfile = some name → P.phase.stage = .run →
      ∃ i, H.files.named name = some i ∧ H.files.text i = pidLine p ∧
        ∀ q Q j o, H.procs q = some Q → Q.pidfile = some name → Q.phase = .scan j o → j = i ∧ o = p := by
  obtain ⟨V,hagree⟩ := valid_smooth h
  refine ⟨hagree,fun p P name hP hname hrun => ?_⟩
  obtain ⟨i,hphase,hnamed,_⟩ := running (Ledger.reachable h) V hP hname hrun
  have htext := (V.holds hP).content trivial
  rw [hphase] at htext
  refine ⟨i,hnamed,htext,fun q Q j o hQ hsame hscan => ?_⟩
  have hij : j = i := same_file V hP hQ hname hsame (by rw [hphase]; rfl) (by rw [hscan]; rfl)
  have hread := (V.holds hQ).content trivial
  rw [hscan,hij] at hread
  exact ⟨hij,pidLine_injective (hread.symm.trans htext)⟩

theorem pidfile_names_daemon_relaunch : ∃ H : Host, H.Agrees ∧ (∃ i, H.files.named "pid" = some i ∧
    H.files.text i = pidLine 3) ∧ ∃ Q : Process, H.procs 4 = some Q ∧ Q.phase = .closeRefused 0 ∧
      Q.reports = [.alreadyRunning 3] := by
  have hrun : (follow Host.step Label.Smooth (launching "pid" 1 2 3 ++ relaunching "pid" 4 ++ [Label.call 4 .succeed])
      Host.empty).any fun H => H.procs 3 = some ⟨some "pid",.main (some 0),[.background]⟩ ∧
        H.procs 4 = some ⟨some "pid",.closeRefused 0,[.alreadyRunning 3]⟩ := by decide
  obtain ⟨H,hH,hend⟩ := (Reaches.start Host.empty_initial).exists_follow hrun
  obtain ⟨hP,hQ⟩ := of_decide_eq_true hend
  obtain ⟨hagree,hnames⟩ := pidfile_names_daemon hH
  obtain ⟨i,hn,htext,_⟩ := hnames 3 _ "pid" hP rfl rfl
  exact ⟨H,hagree,⟨i,hn,htext⟩,_,hQ,rfl,rfl⟩

end LibIrcBot.Daemon
