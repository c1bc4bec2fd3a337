import LibIrcBot.Daemon.Model

/-! # What a launch prints and returns

A launch that waits reads from a pipe what the daemon writes to its standard error, in chunks of any size, and prints
it. The daemon writes there until `daemon_launched`; when its main function returns another result than success
before that, it writes a NUL at last, which is how the launch learns of it.
-/
namespace LibIrcBot.Daemon
open CString Transitions

inductive Target where
  | pipe | null | terminal
deriving DecidableEq, Repr

/-- How far the daemon has come: it is not there yet, prepares, is in its main function, has returned from it with
another result than success, is about to end, or has ended. -/
inductive Progress where
  | absent | prepares | main | failed | leaving | over
deriving DecidableEq, Repr

/-- The three processes of a launch from the first fork on. -/
structure Launch where
  pipe : Bytes
  /-- Whether the second process has the end of the pipe for writing. -/
  second : Bool
  daemon : Progress
  stderr : Target
  /-- Whether `daemon_launched` has a file to write to instead. -/
  outfd : Bool
  /-- What the first process has printed. -/
  printed : Bytes
  result : Option ℤ
  /-- What the daemon has written to the pipe, other than the NUL. -/
  said : Bytes
  /-- What the main function has returned, and where the daemon wrote its errors then. -/
  ended : Option (ℤ × Target)
  /-- Whether the daemon was killed between the return of its main function and the NUL. -/
  killed : Bool
deriving DecidableEq, Repr

namespace Launch

inductive Act where
  | fork2
  | secondEnds
  | enter (devnull : Bool)
  | say (cs : Bytes)
  | launched
  | ends (rc : ℤ)
  | tell
  | daemonEnds
  | read (n : ℕ)
  | eof
  | readFails
deriving DecidableEq, Repr

def open? (L : Launch) : Bool :=
  L.second || match L.daemon with
    | .prepares => true
    | .main | .failed | .leaving => L.stderr = .pipe
    | _ => false

/-- The main function has returned another result than success while the errors went to the pipe. -/
def failed (L : Launch) : Bool :=
  match L.ended with
  | some (rc,.pipe) => rc ≠ EXIT_SUCCESS
  | _ => false

/-- The NUL has been written to the pipe. -/
def told (L : Launch) : Bool := L.failed && !L.killed && L.daemon ≠ .failed

def relay (buf : Bytes) (L : Launch) : Launch :=
  if buf.getLast? = some NUL then { L with result := some EXIT_FAILURE, printed := L.printed ++ buf.dropLast }
  else { L with printed := L.printed ++ buf }

def daemon_launched (L : Launch) : Launch := if L.outfd then { L with stderr := .null, outfd := false } else L

def step : Act → Launch → Except Impossible Launch
  | .fork2, L => if L.second ∧ L.daemon = .absent then .ok { L with daemon := .prepares } else .error .impossible
  | .secondEnds, L => .ok { L with second := false }
  | .enter devnull, L =>
    if L.daemon = .prepares then .ok { L with daemon := .main, stderr := .pipe, outfd := devnull }
    else .error .impossible
  | .say cs, L =>
    if L.daemon = .main then
      .ok (if L.stderr = .pipe then { L with pipe := L.pipe ++ cs, said := L.said ++ cs } else L)
    else .error .impossible
  | .launched, L => if L.daemon = .main then .ok L.daemon_launched else .error .impossible
  | .ends rc, L =>
    if L.daemon = .main then
      .ok { L with daemon := if rc = EXIT_SUCCESS then .leaving else .failed, ended := some (rc,L.stderr) }
    else .error .impossible
  | .tell, L =>
    if L.daemon = .failed then
      .ok { L with daemon := .leaving, pipe := L.pipe ++ if L.stderr = .pipe then [NUL] else [] }
    else .error .impossible
  | .daemonEnds, L =>
    if L.daemon = .absent then .error .impossible
    else .ok { L with daemon := .over, killed := L.killed || L.daemon = .failed }
  | .read n, L =>
    if L.result = none ∧ 0 < n ∧ n ≤ 256 ∧ n ≤ L.pipe.length then
      .ok (relay (L.pipe.take n) { L with pipe := L.pipe.drop n })
    else .error .impossible
  | .eof, L =>
    if L.result = none ∧ L.pipe = [] ∧ L.open? = false then .ok { L with result := some EXIT_SUCCESS }
    else .error .impossible
  | .readFails, L => if L.result = none then .ok { L with result := some EXIT_SUCCESS } else .error .impossible

/-- Two processes have been started, and nothing has been written. -/
def forked : Launch := ⟨[],true,.absent,.terminal,false,[],none,[],none,false⟩

def Initial (L : Launch) : Prop := L = forked

/-- What the daemon writes is text, and reading does not fail. -/
def Act.Proper : Act → Launch → Prop
  | .say cs, _ => NUL ∉ cs
  | .readFails, _ => False
  | _, _ => True

instance (act : Act) (L : Launch) : Decidable (act.Proper L) := by
  cases act <;> unfold Act.Proper <;> infer_instance

/-- What is printed and in the pipe is what was said, with a NUL behind it once that is written. -/
structure Faithful (L : Launch) : Prop where
  text : NUL ∉ L.said
  running : L.daemon = .absent ∨ L.daemon = .prepares ∨ L.daemon = .main → L.ended = none
  failing : L.daemon = .failed → L.killed = false ∧ ∃ rc, rc ≠ EXIT_SUCCESS ∧ L.ended = some (rc,L.stderr)
  alive : L.killed = true → L.daemon = .over
  reading : L.result = none → ∃ rest, L.printed ++ rest = L.said ∧ L.pipe = rest ++ if L.told then [NUL] else []
  returned : ∀ rc, L.result = some rc → L.printed = L.said ∧
    ((rc = EXIT_FAILURE ∧ L.told = true) ∨ (rc = EXIT_SUCCESS ∧ L.told = false ∧ L.open? = false))

/-- The only NUL is the last byte. -/
theorem nul_last {as bs cs : Bytes} (h : NUL ∉ cs) (he : as ++ NUL :: bs = cs ++ [NUL]) : as = cs ∧ bs = [] := by
  induction as generalizing cs with
  | nil =>
    cases cs with
    | nil => exact ⟨rfl,(List.cons.inj he).2⟩
    | cons c cs => exact absurd ((List.cons.inj he).1 ▸ List.mem_cons_self) h
  | cons a as ih =>
    cases cs with
    | nil => exact absurd (List.cons.inj he).2 (List.append_ne_nil_of_right_ne_nil _ (List.cons_ne_nil _ _))
    | cons c cs =>
      obtain ⟨rfl,htail⟩ := List.cons.inj he
      obtain ⟨rfl,hb⟩ := ih (fun hc => h (List.mem_cons_of_mem _ hc)) htail
      exact ⟨rfl,hb⟩

namespace Faithful
variable {L L' : Launch} {act : Act}

theorem initial (h : L.Initial) : L.Faithful := by
  cases h
  exact ⟨List.not_mem_nil,fun _ => rfl,nofun,nofun,fun _ => ⟨[],rfl,rfl⟩,nofun⟩

/-- Nothing is written to the pipe any more once the first process has returned. -/
theorem unchanged (h : L.Faithful) (hpipe : L'.pipe = L.pipe) (hresult : L'.result = L.result)
    (hprinted : L'.printed = L.printed) (hsaid : L'.said = L.said) (htold : L'.told = L.told)
    (hrunning : L'.daemon = .absent ∨ L'.daemon = .prepares ∨ L'.daemon = .main → L'.ended = none)
    (hfailing : L'.daemon = .failed → L'.killed = false ∧ ∃ rc, rc ≠ EXIT_SUCCESS ∧ L'.ended = some (rc,L'.stderr))
    (halive : L'.killed = true → L'.daemon = .over) (hopen : L.open? = false → L'.open? = false) : L'.Faithful where
  text := hsaid ▸ h.text
  running := hrunning
  failing := hfailing
  alive := halive
  reading hr := by
    rw [hprinted,hpipe,hsaid,htold]
    exact h.reading (hresult ▸ hr)
  returned rc hr := by
    obtain ⟨hp,hcase⟩ := h.returned rc (hresult ▸ hr)
    refine ⟨by rw [hprinted,hsaid,hp],hcase.imp (fun hf => ⟨hf.1,htold ▸ hf.2⟩) fun hs => ⟨hs.1,htold ▸ hs.2.1,hopen hs.2.2⟩⟩

/-- A chunk whose last byte is the NUL is the end of all that was written. -/
theorem relay {n : ℕ} (h : L.Faithful) (hr : L.result = none) :
    (Launch.relay (L.pipe.take n) { L with pipe := L.pipe.drop n }).Faithful := by
  obtain ⟨rest,hsaid,hpipe⟩ := h.reading hr
  have hrest : NUL ∉ rest := fun hm => h.text (hsaid ▸ List.mem_append_right _ hm)
  rw [Launch.relay]
  split
  · next hlast =>
    obtain ⟨buf,hbuf⟩ := List.getLast?_eq_some_iff.mp hlast
    have hall : buf ++ NUL :: L.pipe.drop n = rest ++ if L.told then [NUL] else [] := by
      rw [← hpipe,List.append_cons,← hbuf,List.take_append_drop]
    have ht : L.told = true := by
      by_contra ht
      rw [if_neg ht,List.append_nil] at hall
      exact hrest (hall ▸ List.mem_append_right _ List.mem_cons_self)
    rw [if_pos ht] at hall
    refine ⟨h.text,h.running,h.failing,h.alive,nofun,fun rc hrc => ⟨?_,.inl ⟨(Option.some.inj hrc).symm,ht⟩⟩⟩
    rw [hbuf,List.dropLast_concat,(nul_last hrest hall).1]
    exact hsaid
  · next hlast =>
    have hcut : L.pipe.take n = rest.take n ∧ L.pipe.drop n = rest.drop n ++ if L.told then [NUL] else [] := by
      by_cases ht : L.told = true
      · rw [if_pos ht] at hpipe ⊢
        have hle : n ≤ rest.length := by
          by_contra hlt
          refine hlast ?_
          rw [hpipe,List.take_of_length_le (by rw [List.length_append,List.length_singleton]; omega)]
          exact List.getLast?_concat ..
        rw [hpipe]
        exact ⟨List.take_append_of_le_length hle,List.drop_append_of_le_length hle⟩
      · rw [if_neg ht,List.append_nil] at hpipe
        rw [if_neg ht,List.append_nil,hpipe]
        exact ⟨rfl,rfl⟩
    refine ⟨h.text,h.running,h.failing,h.alive,fun _ => ⟨rest.drop n,?_,hcut.2⟩,fun rc hrc => by rw [hr] at hrc; cases hrc⟩
    rw [hcut.1,List.append_assoc,List.take_append_drop]
    exact hsaid

/-- Whose main function has not returned has not told of a failure. -/
theorem untold (h : L.Faithful) (hd : L.daemon = .absent ∨ L.daemon = .prepares ∨ L.daemon = .main) : L.told = false := by
  simp [Launch.told,Launch.failed,h.running hd]

theorem spared (h : L.Faithful) (ho : L.daemon ≠ .over) : L.killed = false := by
  by_contra hk
  exact ho (h.alive (eq_true_of_ne_false hk))

/-- The first process has not returned while there may be more to read. -/
theorem waiting (h : L.Faithful) (ht : L.told = false) (ho : L.open? = true) : L.result = none := by
  cases hr : L.result with
  | none => rfl
  | some rc =>
    rcases (h.returned rc hr).2 with ⟨_,htold⟩ | ⟨_,_,hclosed⟩
    · cases ht.symm.trans htold
    · cases ho.symm.trans hclosed

/-- What is said before the NUL follows what is in the pipe. -/
theorem say {cs : Bytes} (h : L.Faithful) (hcs : NUL ∉ cs) (ht : L.told = false) (ho : L.open? = true) :
    Faithful { L with pipe := L.pipe ++ cs, said := L.said ++ cs } := by
  have hr := h.waiting ht ho
  have ht' : told { L with pipe := L.pipe ++ cs, said := L.said ++ cs } = false := ht
  refine ⟨fun hm => (List.mem_append.mp hm).elim h.text hcs,h.running,h.failing,h.alive,fun _ => ?_,fun rc hrc => ?_⟩
  · obtain ⟨rest,hsaid,hpipe⟩ := h.reading hr
    refine ⟨rest ++ cs,by rw [← hsaid,List.append_assoc],?_⟩
    rw [ht',hpipe,ht]
    simp only [Bool.false_eq_true,if_false,List.append_nil]
  · cases hr.symm.trans hrc

/-- The daemon writes the NUL to the pipe, where its errors go. -/
theorem tell (h : L.Faithful) (hd : L.daemon = .failed) (he : L.stderr = .pipe) :
    Faithful { L with daemon := .leaving, pipe := L.pipe ++ [NUL] } := by
  obtain ⟨hk,rc,hrc,hended⟩ := h.failing hd
  have ht : L.told = false := by simp [Launch.told,hd]
  have ht' : told { L with daemon := .leaving, pipe := L.pipe ++ [NUL] } = true := by
    simp [Launch.told,Launch.failed,hk,hended,he,hrc]
  have hr := h.waiting ht (by simp [open?,hd,he])
  refine ⟨h.text,nofun,nofun,fun hkill => absurd (hk.symm.trans hkill) nofun,fun _ => ?_,fun rc hrc => ?_⟩
  · obtain ⟨rest,hsaid,hpipe⟩ := h.reading hr
    refine ⟨rest,hsaid,?_⟩
    rw [ht',hpipe,ht]
    simp only [Bool.false_eq_true,if_false,List.append_nil,if_true]
  · cases hr.symm.trans hrc

/-- At the end of the file all has been printed, and there was no NUL. -/
theorem eof (h : L.Faithful) (hr : L.result = none) (hpipe : L.pipe = []) (ho : L.open? = false) :
    Faithful { L with result := some EXIT_SUCCESS } := by
  obtain ⟨rest,hsaid,hrest⟩ := h.reading hr
  obtain ⟨hnil,htail⟩ := List.append_eq_nil_iff.mp (hrest.symm.trans hpipe)
  have ht : L.told = false := by
    by_contra ht
    rw [if_pos (eq_true_of_ne_false ht)] at htail
    cases htail
  refine ⟨h.text,h.running,h.failing,h.alive,nofun,fun rc hrc => ⟨?_,.inr ⟨(Option.some.inj hrc).symm,ht,ho⟩⟩⟩
  rw [← hsaid,hnil,List.append_nil]

/-- The main function returns; it tells of a failure later. -/
theorem ends (h : L.Faithful) (hd : L.daemon = .main) (rc : ℤ) :
    Faithful { L with daemon := if rc = EXIT_SUCCESS then .leaving else .failed, ended := some (rc,L.stderr) } := by
  have hk := h.spared (by rw [hd]; nofun)
  refine h.unchanged rfl rfl rfl rfl ?_ (fun hd => ?_) (fun hd => ⟨hk,rc,fun hrc => ?_,rfl⟩)
    (fun hkill => absurd (hk.symm.trans hkill) nofun) fun ho => ?_
  · rw [h.untold (.inr (.inr hd))]
    by_cases hrc : rc = EXIT_SUCCESS
    · cases L.stderr <;> simp [Launch.told,Launch.failed,hrc]
    · simp [Launch.told,hrc]
  · by_cases hrc : rc = EXIT_SUCCESS <;> simp [hrc] at hd
  · simp [hrc] at hd
  · rw [open?,Bool.or_eq_false_iff] at ho ⊢
    refine ⟨ho.1,?_⟩
    rw [hd] at ho
    by_cases hrc : rc = EXIT_SUCCESS
    · rw [if_pos hrc]
      exact ho.2
    · rw [if_neg hrc]
      exact ho.2

/-- The daemon writes the NUL elsewhere. -/
theorem aside (h : L.Faithful) (hd : L.daemon = .failed) (he : L.stderr ≠ .pipe) : Faithful { L with daemon := .leaving } := by
  obtain ⟨hk,rc,_,hended⟩ := h.failing hd
  have hfailed : L.failed = false := by
    rw [Launch.failed,hended]
    cases hstderr : L.stderr with
    | pipe => exact absurd hstderr he
    | _ => rfl
  have hfailed' : failed { L with daemon := .leaving } = false := hfailed
  refine h.unchanged rfl rfl rfl rfl ?_ nofun nofun (fun hkill => absurd (hk.symm.trans hkill) nofun) fun ho => ?_
  · simp [Launch.told,hfailed,hfailed']
  · rw [open?,Bool.or_eq_false_iff] at ho ⊢
    exact ⟨ho.1,by simpa using he⟩

/-- The daemon ends, at whatever point. -/
theorem dies (h : L.Faithful) : Faithful { L with daemon := .over, killed := L.killed || L.daemon = .failed } := by
  refine h.unchanged rfl rfl rfl rfl ?_ nofun nofun (fun _ => rfl) fun ho => ?_
  · have hfailed : failed { L with daemon := .over, killed := L.killed || L.daemon = .failed } = L.failed := rfl
    rw [Launch.told,Launch.told,hfailed]
    by_cases hd : L.daemon = .failed <;> simp [hd]
  · rw [open?,Bool.or_eq_false_iff] at ho ⊢
    exact ⟨ho.1,rfl⟩

theorem step (h : L.Faithful) (hp : act.Proper L) (hs : Launch.step act L = .ok L') : L'.Faithful := by
  cases act with
  | fork2 =>
    rw [Launch.step] at hs
    split at hs
    · next hc =>
      cases hs
      have hnone := h.running (.inl hc.2)
      refine h.unchanged rfl rfl rfl rfl ?_ (fun _ => hnone) nofun (fun hk => ?_) fun ho => ?_
      · simp [Launch.told,Launch.failed,hnone]
      · cases hc.2.symm.trans (h.alive hk)
      · simp [open?,hc.1] at ho
    · cases hs
  | secondEnds =>
    cases hs
    refine h.unchanged rfl rfl rfl rfl rfl h.running h.failing h.alive fun ho => ?_
    rw [open?,Bool.or_eq_false_iff] at ho ⊢
    exact ⟨rfl,ho.2⟩
  | enter devnull =>
    rw [Launch.step] at hs
    split at hs
    · next hc =>
      cases hs
      have hnone := h.running (.inr (.inl hc))
      refine h.unchanged rfl rfl rfl rfl ?_ (fun _ => hnone) nofun (fun hk => ?_) fun ho => ?_
      · simp [Launch.told,Launch.failed,hnone]
      · cases hc.symm.trans (h.alive hk)
      · simp [open?,hc] at ho
    · cases hs
  | say cs =>
    rw [Launch.step] at hs
    split at hs
    · next hc =>
      split at hs
      · next he =>
        cases hs
        exact h.say hp (h.untold (.inr (.inr hc))) (by simp [open?,hc,he])
      · cases hs
        exact h
    · cases hs
  | launched =>
    rw [Launch.step] at hs
    split at hs
    · next hc =>
      cases hs
      rw [daemon_launched]
      split
      · refine h.unchanged rfl rfl rfl rfl rfl h.running (fun hd => absurd (hc.symm.trans hd) nofun) h.alive fun ho => ?_
        rw [open?,Bool.or_eq_false_iff] at ho ⊢
        exact ⟨ho.1,by rw [hc]; rfl⟩
      · exact h
    · cases hs
  | ends rc =>
    rw [Launch.step] at hs
    split at hs
    · next hc =>
      cases hs
      exact h.ends hc rc
    · cases hs
  | tell =>
    rw [Launch.step] at hs
    split at hs
    · next hc =>
      cases hs
      by_cases he : L.stderr = .pipe
      · rw [if_pos he]
        exact h.tell hc he
      · rw [if_neg he,List.append_nil]
        exact h.aside hc he
    · cases hs
  | daemonEnds =>
    rw [Launch.step] at hs
    split at hs
    · cases hs
    · cases hs
      exact h.dies
  | read n =>
    rw [Launch.step] at hs
    split at hs
    · next hc =>
      cases hs
      exact h.relay hc.1
    · cases hs
  | eof =>
    rw [Launch.step] at hs
    split at hs
    · next hc =>
      cases hs
      exact h.eof hc.1 hc.2.1 hc.2.2
    · cases hs
  | readFails => exact hp.elim

end Faithful

end Launch
end LibIrcBot.Daemon
