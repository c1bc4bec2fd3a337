import LibIrcBot.System.Handling
import LibIrcBot.Properties.ReadinessDispatch

/-! # Data that is being handled stays

Neither dispatcher looks at `args.handling` before it goes on with a pending TLS read. There is none
while data is being handled: only a read leaves one pending, and the receivers of `dataReceived`, who
may set `args.handling`, are called by a read that leaves none. What anyone calls in between changes
neither of the two.
-/
namespace LibIrcBot

/-- A confirmation succeeds exactly if data was being handled, and then registers for reading again. -/
structure Confirmation.Sound (c : Confirmation) : Prop where
  rc : c.rc = if c.handling then 0 else -1
  registered : c.handling → c.registered

namespace Handling
variable {s t u : Handling} {receiving : Bool}

/-- The descriptor of the connection is registered for reading. -/
def Registered (s : Handling) : Prop := s.fd ∈ s.watch.fds .read

instance (s : Handling) : Decidable s.Registered := inferInstanceAs (Decidable (_ ∈ _))

/-- Once the connection reads, it is registered for reading whenever no data is being handled. -/
def Listens (s : Handling) : Prop := s.conn.handling = false → s.armed = true → s.Registered

structure Inv (s : Handling) : Prop where
  reads : ∀ handling ∈ s.reads, handling = false
  plain : s.conn.tls = false → s.conn.tlsReadSt = .none
  idle : s.conn.handling = true → s.conn.tlsReadSt = .none
  confirmations : ∀ c ∈ s.confirmations, c.Sound
  listens : s.Listens

theorem mem_registerRead (s : Handling) : s.registerRead.Registered :=
  (Watch.mem_register s.watch .read .read s.fd s.fd).mpr (.inl ⟨rfl,rfl⟩)

/-- Only the descriptor sets change. -/
theorem wantreadwrite_shape (s : Handling) : ∃ watch armed, s.wantreadwrite = { s with
    watch := watch
    armed := armed } := by
  unfold wantreadwrite
  dsimp only
  split <;> split <;> exact ⟨_,_,rfl⟩

theorem wantreadwrite_registered (h : s.conn.handling = false) : s.wantreadwrite.Registered := by
  have hwants : ∀ t : Handling, t.conn = s.conn → t.conn.wantsRead = true := by
    intro t ht
    simp [Connection.wantsRead,ht,h]
  have hwrite : (if s.conn.wantsWrite then s.registerWrite else s.unregisterWrite).conn = s.conn := by
    split <;> rfl
  unfold wantreadwrite
  dsimp only
  rw [if_pos (hwants _ hwrite)]
  exact mem_registerRead _

theorem wantreadwrite_listens (s : Handling) : s.wantreadwrite.Listens := by
  obtain ⟨watch,armed,he⟩ := wantreadwrite_shape s
  intro hh _
  rw [he] at hh
  exact wantreadwrite_registered hh

/-- The descriptor sets follow those of the whole system. -/
theorem wantreadwrite_shows {w : World} {self : ConnId} (h : s.watch.Shows w) (hc : w.conns self = s.conn)
    (hfd : 0 ≤ s.conn.fd) : s.wantreadwrite.watch.Shows (Connection.wantreadwrite self w) := by
  have hcast : s.conn.fd = (s.fd : ℤ) := (Int.toNat_of_nonneg hfd).symm
  have hlog : s.watch.Shows (w.log self .wantreadwrite) := ⟨h.read,h.write⟩
  have hwant : Connection.wantreadwrite self w =
      let w := w.log self .wantreadwrite
      let w := if s.conn.wantsWrite then Service.registerWrite s.fd w else Service.unregisterWrite s.fd w
      if s.conn.wantsRead then Service.registerRead s.fd w else Service.unregisterRead s.fd w := by
    rw [← hcast,← hc]
    rfl
  rw [hwant]
  unfold wantreadwrite
  dsimp only
  by_cases hw : s.conn.wantsWrite
  · rw [if_pos hw,if_pos hw]
    have hs := hlog.step (.registerWrite s.fd)
    by_cases hr : s.conn.wantsRead
    · rw [if_pos hr,if_pos (show s.registerWrite.conn.wantsRead from hr)]
      exact hs.step (.registerRead s.fd)
    · rw [if_neg hr,if_neg (show ¬ s.registerWrite.conn.wantsRead from hr)]
      exact hs.step (.unregisterRead s.fd)
  · rw [if_neg hw,if_neg hw]
    have hs := hlog.step (.unregisterWrite s.fd)
    by_cases hr : s.conn.wantsRead
    · rw [if_pos hr,if_pos (show s.unregisterWrite.conn.wantsRead from hr)]
      exact hs.step (.registerRead s.fd)
    · rw [if_neg hr,if_neg (show ¬ s.unregisterWrite.conn.wantsRead from hr)]
      exact hs.step (.unregisterRead s.fd)

/-- What is done between two reads: it neither reads nor leaves a read pending, and sets `args.handling` only for a
receiver of `dataReceived`. -/
structure Keeps (receiving : Bool) (s t : Handling) : Prop where
  reads : t.reads = s.reads
  rdbuf : t.rdbuf = s.rdbuf
  tls : t.conn.tls = s.conn.tls
  readSt : t.conn.tlsReadSt = s.conn.tlsReadSt
  confirmations : (∀ c ∈ s.confirmations, c.Sound) → ∀ c ∈ t.confirmations, c.Sound
  handling : receiving = false → t.conn.handling = true → s.conn.handling = true
  listens : receiving = false → s.Listens → t.Listens

namespace Keeps

theorem refl (s : Handling) : Keeps receiving s s := ⟨rfl,rfl,rfl,rfl,id,fun _ => id,fun _ => id⟩

theorem trans (h : Keeps receiving s t) (h' : Keeps receiving t u) : Keeps receiving s u where
  reads := h'.reads.trans h.reads
  rdbuf := h'.rdbuf.trans h.rdbuf
  tls := h'.tls.trans h.tls
  readSt := h'.readSt.trans h.readSt
  confirmations hs := h'.confirmations (h.confirmations hs)
  handling hr ht := h.handling hr (h'.handling hr ht)
  listens hr hs := h'.listens hr (h.listens hr hs)

theorem wantreadwrite (h : Keeps receiving s t) : Keeps receiving s t.wantreadwrite := by
  have hl := wantreadwrite_listens t
  obtain ⟨watch,armed,he⟩ := wantreadwrite_shape t
  rw [he] at hl ⊢
  exact ⟨h.reads,h.rdbuf,h.tls,h.readSt,h.confirmations,h.handling,fun _ _ => hl⟩

theorem setConn (h : Keeps receiving s t) {f : Connection → Connection} (htls : (f t.conn).tls = t.conn.tls)
    (hst : (f t.conn).tlsReadSt = t.conn.tlsReadSt) (hh : (f t.conn).handling = t.conn.handling)
    (hfd : (f t.conn).fd = t.conn.fd) : Keeps receiving s (t.setConn f) where
  reads := h.reads
  rdbuf := h.rdbuf
  tls := htls.trans h.tls
  readSt := hst.trans h.readSt
  confirmations := h.confirmations
  handling hr ht := h.handling hr (hh ▸ ht)
  listens hr hs ht ha := by
    have hmem : t.Registered := h.listens hr hs (hh ▸ ht) ha
    rw [Registered,fd] at hmem ⊢
    exact hfd ▸ hmem

end Keeps

theorem unregisterWrite_keeps (s : Handling) : Keeps receiving s s.unregisterWrite where
  reads := rfl
  rdbuf := rfl
  tls := rfl
  readSt := rfl
  confirmations := id
  handling _ := id
  listens _ hs hh ha := (Watch.mem_unregister s.watch .write .read s.fd s.fd).mpr ⟨hs hh ha,by simp⟩

theorem write_keeps (buf : Buffer) (id : Bool) (s : Handling) : Keeps receiving s (s.write buf id).2 := by
  unfold write
  split
  · exact .refl s
  · exact ((Keeps.refl s).setConn rfl rfl rfl rfl).wantreadwrite

theorem activate_keeps (s : Handling) : Keeps receiving s s.activate := by
  unfold activate
  split
  · exact .refl s
  · exact (Keeps.refl s).wantreadwrite

/-- The flag is cleared before the connection asks for its next interest. -/
theorem confirmDataReceived_handled (h : s.conn.handling = true) :
    s.confirmDataReceived = (0,wantreadwrite (s.setConn fun c => { c with handling := false })) := by
  rw [confirmDataReceived,if_pos h]
  rfl

theorem confirmed_keeps (s : Handling) : Keeps receiving s s.confirmed := by
  cases h : s.conn.handling with
  | true =>
    have hreg : (wantreadwrite (s.setConn fun c => { c with handling := false })).Registered :=
      wantreadwrite_registered rfl
    have hl := wantreadwrite_listens (s.setConn fun c => { c with handling := false })
    obtain ⟨watch,armed,he⟩ := wantreadwrite_shape (s.setConn fun c => { c with handling := false })
    unfold confirmed
    rw [confirmDataReceived_handled h]
    rw [he] at hreg hl ⊢
    refine ⟨rfl,rfl,rfl,rfl,fun hs c hc => ?_,fun _ hh => absurd hh (by simp [setConn]),fun _ _ => hl⟩
    rcases List.mem_append.mp hc with hc | hc
    · exact hs c hc
    · rw [List.mem_singleton.mp hc]
      exact ⟨by rw [h]; rfl,fun _ => decide_eq_true hreg⟩
  | false =>
    unfold confirmed confirmDataReceived
    rw [h]
    refine ⟨rfl,rfl,rfl,rfl,fun hs c hc => ?_,fun _ => id,fun _ => id⟩
    rcases List.mem_append.mp hc with hc | hc
    · exact hs c hc
    · rw [List.mem_singleton.mp hc]
      exact ⟨rfl,fun hh => absurd hh (by simp)⟩

theorem deleteLater_keeps (s : Handling) : Keeps receiving s s.deleteLater := by
  unfold deleteLater
  split
  · exact (Keeps.refl s).setConn rfl rfl rfl rfl
  · exact .refl s

mutual

theorem call_keeps (c : ConnCall receiving) (s : Handling) : Keeps receiving s (call c s) := by
  cases c with
  | write buf id => exact write_keeps buf id s
  | activate => exact activate_keeps s
  | confirmDataReceived => exact confirmed_keeps s
  | close closed => exact (calls_keeps closed s).trans (deleteLater_keeps _)
  | handle h handling =>
    have hne : receiving ≠ false := by simp [h]
    exact ⟨rfl,rfl,rfl,rfl,id,fun hr => absurd hr hne,fun hr => absurd hr hne⟩

theorem calls_keeps (cs : List (ConnCall receiving)) (s : Handling) : Keeps receiving s (calls cs s) := by
  cases cs with
  | nil => exact .refl s
  | cons c cs => exact (call_keeps c s).trans (calls_keeps cs _)

end

theorem close_keeps (closed : List (ConnCall false)) (s : Handling) : Keeps false s (close closed s) :=
  call_keeps (.close closed) s

theorem checkPendingConnection_keeps (closed : List (ConnCall false)) (s : Handling) :
    Keeps false s (checkPendingConnection closed s) := by
  have htick : Keeps false s (s.setConn fun c => { c with connecting := c.connecting - 1 }) :=
    (Keeps.refl s).setConn rfl rfl rfl rfl
  unfold checkPendingConnection
  split
  · dsimp only
    split
    · exact htick.trans ((unregisterWrite_keeps _).trans (close_keeps closed _))
    · exact htick
  · exact .refl s

theorem checkPendingTls_keeps (closed : List (ConnCall false)) (s : Handling) :
    Keeps false s (checkPendingTls closed s) := by
  have htick : Keeps false s (s.setConn fun c => { c with tlsConnectTicks := c.tlsConnectTicks - 1 }) :=
    (Keeps.refl s).setConn rfl rfl rfl rfl
  unfold checkPendingTls
  split
  · dsimp only
    split
    · exact htick.trans (close_keeps closed _)
    · exact htick
  · exact .refl s

theorem dohandshake_keeps (a : Answers) (s : Handling) : Keeps false s (dohandshake a s) := by
  unfold dohandshake
  split
  · exact (((Keeps.refl s).setConn rfl rfl rfl rfl).trans (calls_keeps a.connected _)).wantreadwrite
  · exact close_keeps a.closed s
  · exact close_keeps a.closed s
  · exact ((Keeps.refl s).setConn rfl rfl rfl rfl).wantreadwrite

theorem raiseDataSent_keeps (a : Answers) (record : WriteRecord) (s : Handling) :
    Keeps false s (raiseDataSent a record s) := by
  unfold raiseDataSent
  split
  · exact calls_keeps a.dataSent s
  · exact .refl s

theorem sent_keeps (a : Answers) (n : ℕ) (s : Handling) : Keeps false s (sent a n s) := by
  have hdrop : Keeps false s (s.setConn Connection.dropRecord) := (Keeps.refl s).setConn rfl rfl rfl rfl
  unfold sent
  dsimp only
  split
  · split
    · exact ((Keeps.refl s).setConn rfl rfl rfl rfl).wantreadwrite
    · exact (Keeps.refl s).setConn rfl rfl rfl rfl
  · split
    · exact (hdrop.trans (raiseDataSent_keeps a _ _)).wantreadwrite
    · exact hdrop.wantreadwrite.trans (raiseDataSent_keeps a _ _)

theorem dowrite_keeps (a : Answers) (s : Handling) : Keeps false s (dowrite a s) := by
  unfold dowrite
  split
  · split
    · exact ((Keeps.refl s).setConn rfl rfl rfl rfl).trans (sent_keeps a _ _)
    · exact close_keeps a.closed s
    · exact close_keeps a.closed s
    · exact ((Keeps.refl s).setConn rfl rfl rfl rfl).wantreadwrite
  · split
    · exact sent_keeps a _ s
    · exact .refl s
    · exact close_keeps a.closed s

/-- Nobody else registers the descriptor. -/
theorem other_keeps (c : Watch.Call) (s : Handling) : Keeps false s (s.step (.other c)) := by
  have hmem : s.Others c = true → s.Registered → s.fd ∈ (s.watch.step c).fds .read := by
    intro ho hr
    cases c with
    | registerRead id => exact (Watch.mem_register ..).mpr (.inr hr)
    | registerWrite id => exact (Watch.mem_register ..).mpr (.inr hr)
    | unregisterWrite id => exact (Watch.mem_unregister ..).mpr ⟨hr,by simp⟩
    | unregisterRead id =>
      have hne : id ≠ s.fd := of_decide_eq_true ho
      exact (Watch.mem_unregister ..).mpr ⟨hr,fun he => hne he.2.symm⟩
  rw [step]
  split
  · next ho => exact ⟨rfl,rfl,rfl,rfl,id,fun _ => id,fun _ hs hh ha => hmem ho (hs hh ha)⟩
  · exact .refl s

theorem Keeps.inv (h : Keeps false s t) (hs : s.Inv) : t.Inv where
  reads := by
    rw [h.reads]
    exact hs.reads
  plain ht := by
    rw [h.readSt]
    exact hs.plain (h.tls ▸ ht)
  idle ht := by
    rw [h.readSt]
    exact hs.idle (h.handling rfl ht)
  confirmations := h.confirmations hs.confirmations
  listens := h.listens rfl hs.listens

/-- The receivers of `dataReceived` may set `args.handling`, as no read is pending. -/
theorem receive_inv (a : Answers) (chunk : Chunk) (hr : ∀ handling ∈ s.reads, handling = false)
    (hst : s.conn.tlsReadSt = .none) (hc : ∀ c ∈ s.confirmations, c.Sound) : (receive a chunk s).Inv := by
  have hcalls := calls_keeps a.dataReceived { s with rdbuf := chunk.bytes }
  have hall := hcalls.wantreadwrite
  have hidle : (receive a chunk s).conn.tlsReadSt = .none := hall.readSt.trans hst
  exact {
    reads := by
      rw [receive,hall.reads]
      exact hr
    plain := fun _ => hidle
    idle := fun _ => hidle
    confirmations := hall.confirmations hc
    listens := wantreadwrite_listens _ }

theorem doread_inv (a : Answers) (h : s.Inv) (hh : s.conn.handling = false) : (doread a s).Inv := by
  have hreads : ∀ handling ∈ s.reads ++ [s.conn.handling], handling = false := by
    intro handling hm
    rcases List.mem_append.mp hm with hm | hm
    · exact h.reads handling hm
    · rw [List.mem_singleton.mp hm]
      exact hh
  have hnoted : Inv { s with reads := s.reads ++ [s.conn.handling] } :=
    ⟨hreads,h.plain,h.idle,h.confirmations,h.listens⟩
  unfold doread
  dsimp only
  split
  · next htls =>
    split
    · exact receive_inv a _ hreads rfl h.confirmations
    · exact (close_keeps a.closed _).inv hnoted
    · exact (close_keeps a.closed _).inv hnoted
    · refine Keeps.inv (Keeps.refl _).wantreadwrite ?_
      refine ⟨hreads,fun ht => ?_,fun ht => ?_,h.confirmations,h.listens⟩
      · exact absurd (htls.symm.trans ht) (by simp)
      · exact absurd (hh.symm.trans ht) (by simp)
  · next htls =>
    split
    · exact receive_inv a _ hreads (h.plain (by simpa using htls)) h.confirmations
    · exact hnoted
    · exact (close_keeps a.closed _).inv hnoted

/-- A step reads only while no data is being handled. -/
theorem step_cases (h : s.Inv) (l : Label) :
    Keeps false s (s.step l) ∨ (s.conn.handling = false ∧ ∃ a, s.step l = doread a s) := by
  have hpending : ∀ st : TlsWant, st ≠ .none → s.conn.tlsReadSt = st → s.conn.handling = false := by
    intro st hne hst
    by_contra hh
    exact hne (hst.symm.trans (h.idle (by simpa using hh)))
  cases l with
  | readConnection a =>
    rw [show s.step (.readConnection a) = readConnection a s from rfl]
    unfold readConnection
    dsimp only
    split
    · exact .inl (dohandshake_keeps a s)
    · split
      · next hst => exact .inr ⟨hpending _ (by simp) hst,a,rfl⟩
      · split
        · exact .inl (dowrite_keeps a s)
        · split
          · exact .inl (.refl s)
          · next hh => exact .inr ⟨by simpa using hh,a,rfl⟩
  | writeConnection a =>
    rw [show s.step (.writeConnection a) = writeConnection a s from rfl]
    have hconnected : Keeps false s (s.setConn fun c => { c with connecting := 0 }) :=
      (Keeps.refl s).setConn rfl rfl rfl rfl
    unfold writeConnection
    dsimp only
    split
    · split
      · exact .inl (close_keeps a.closed s)
      · split
        · exact .inl ((hconnected.setConn rfl rfl rfl rfl).trans (dohandshake_keeps a _))
        · exact .inl (hconnected.wantreadwrite.trans (calls_keeps a.connected _))
    · split
      · exact .inl (dohandshake_keeps a s)
      · split
        · next hst => exact .inr ⟨hpending _ (by simp) hst,a,rfl⟩
        · split
          · exact .inl (dowrite_keeps a s)
          · split
            · exact .inl (Keeps.refl s).wantreadwrite
            · exact .inl (dowrite_keeps a s)
  | checkPendingConnection closed => exact .inl (checkPendingConnection_keeps closed s)
  | checkPendingTls closed => exact .inl (checkPendingTls_keeps closed s)
  | call c => exact .inl (call_keeps c s)
  | other c => exact .inl (other_keeps c s)

theorem Inv.step (h : s.Inv) (l : Label) : (s.step l).Inv := by
  rcases step_cases h l with hk | ⟨hh,a,he⟩
  · exact hk.inv h
  · rw [he]
    exact doread_inv a h hh

theorem Inv.run (h : s.Inv) (ls : List Label) : (s.run ls).Inv := by
  induction ls generalizing s with
  | nil => exact h
  | cons l ls ih => exact ih (h.step l)

theorem create_inv (mode : CreateMode) (tls : Bool) (fd : ℕ) (memory : Connection) (rdbuf : Bytes) (watch : Watch) :
    (create mode tls fd memory rdbuf watch).Inv := by
  cases mode with
  | CCM_NORMAL => exact ⟨nofun,fun _ => rfl,fun _ => rfl,nofun,fun _ _ => mem_registerRead _⟩
  | CCM_WAIT => exact ⟨nofun,fun _ => rfl,fun _ => rfl,nofun,fun _ ha => absurd ha (by simp [create])⟩
  | CCM_CONNECTING =>
    exact ⟨nofun,fun _ => rfl,fun _ => rfl,nofun,fun _ ha => absurd ha (by simp [create,registerWrite,setConn])⟩

/-- No read was made while data was being handled, and none will be before it is confirmed; every confirmation of
data registers for reading again, and so does every step after which no data is being handled. -/
structure Guarded (s : Handling) : Prop where
  reads : ∀ handling ∈ s.reads, handling = false
  unread : s.conn.handling = true → ∀ l, (s.step l).reads = s.reads ∧ (s.step l).rdbuf = s.rdbuf
  confirmations : ∀ c ∈ s.confirmations, c.Sound
  listens : s.Listens

theorem Inv.guarded (h : s.Inv) : s.Guarded where
  reads := h.reads
  unread hh l := by
    rcases step_cases h l with hk | ⟨hn,-⟩
    · exact ⟨hk.reads,hk.rdbuf⟩
    · exact absurd (hn.symm.trans hh) (by simp)
  confirmations := h.confirmations
  listens := h.listens

/-- Data that is being handled stays, in every run of every connection and with any receivers. -/
theorem run_guarded (mode : CreateMode) (tls : Bool) (fd : ℕ) (memory : Connection) (rdbuf : Bytes) (watch : Watch)
    (ls : List Label) : (run (create mode tls fd memory rdbuf watch) ls).Guarded :=
  ((create_inv mode tls fd memory rdbuf watch).run ls).guarded

end Handling
end LibIrcBot
