import LibIrcBot.System.Iterations

/-! # What a connection waits for

`wantreadwrite` registers what the connection waits for, and every handler of a connection
ends with it, with the connection closed, or with the same interest as before. The other
connections of the server are left alone, as long as their descriptors are different.
-/
namespace LibIrcBot
open CString Effects Relation Outcome

/-- `pselect` reports what the connection waits for. -/
structure Connection.Interest (c : Connection) (readfds writefds : ℤ → Bool) : Prop where
  write : c.connecting ≠ 0 ∨ c.nrecs ≠ 0 → writefds c.fd = true
  read : c.connecting = 0 → c.handling = false → readfds c.fd = true

theorem Connection.Interest.of_eq {c c' : Connection} {r r' wr wr' : ℤ → Bool} (h : c.Interest r wr)
    (hfd : c'.fd = c.fd) (hcon : c'.connecting = c.connecting) (hn : c'.nrecs = c.nrecs)
    (hh : c'.handling = c.handling) (hr : r' c.fd = r c.fd) (hw : wr' c.fd = wr c.fd) : c'.Interest r' wr' := by
  constructor
  · rw [hcon,hn,hfd,hw]
    exact h.write
  · rw [hcon,hh,hfd,hr]
    exact h.read

theorem Connection.wantsWrite_of {c : Connection} (h : c.connecting ≠ 0 ∨ c.nrecs ≠ 0) : c.wantsWrite = true := by
  rcases h with h | h <;> simp [wantsWrite,h]

theorem Connection.wantsRead_of {c : Connection} (h : c.handling = false) : c.wantsRead = true := by
  simp [wantsRead,h]

namespace World

abbrev Interest (w : World) (c : ConnId) : Prop := (w.conns c).Interest w.service.readfds w.service.writefds

def Interested (w : World) : Prop := ∀ c, w.server.conn = some c → w.Interest c

/-- It is, unless it is the one whose handler runs, and that one has another descriptor. -/
def Others (w : World) (self : ConnId) : Prop :=
  ∀ c, w.server.conn = some c → c ≠ self → w.Interest c ∧ (w.conns c).fd ≠ (w.conns self).fd

end World

variable {w w' : World} {self : ConnId}

/-! ## What handlers do step by step -/

theorem World.Interested.of_eq (h : w.Interested) (hconn : w'.server.conn = w.server.conn) (hc : w'.conns = w.conns)
    (hr : w'.service.readfds = w.service.readfds) (hw : w'.service.writefds = w.service.writefds) : w'.Interested := by
  intro c hcc
  rw [World.Interest,hc,hr,hw]
  exact h c (hconn ▸ hcc)

namespace World.Others

theorem of_eq (h : w.Others self) (hconn : w'.server.conn = w.server.conn) (hc : w'.conns = w.conns)
    (hr : w'.service.readfds = w.service.readfds) (hw : w'.service.writefds = w.service.writefds) :
    w'.Others self := by
  intro c hcc hne
  rw [World.Interest,hc,hr,hw]
  exact h c (hconn ▸ hcc) hne

theorem own (hc : w.server.conn = some self) : w.Others self :=
  fun _ hcc hne => absurd (Option.some.inj (hcc.symm.trans hc)) hne

/-- The handler changes its own connection. -/
theorem setConn (h : w.Others self) {f : Connection → Connection} (hf : (f (w.conns self)).fd = (w.conns self).fd) :
    (w.setConn self f).Others self := by
  intro c hcc hne
  have hother : (w.setConn self f).conns c = w.conns c := by rw [setConn_conns,if_neg hne]
  have hown : ((w.setConn self f).conns self).fd = (w.conns self).fd := by rw [setConn_conns,if_pos rfl,hf]
  rw [World.Interest,hother,hown]
  exact h c hcc hne

/-- A connection that is looked at last is waited for as it is. -/
theorem want (h : w.Others self) : (Connection.wantreadwrite self w).Interested := by
  rw [Connection.wantreadwrite_eq]
  intro c hcc
  by_cases hc : c = self
  · subst hc
    exact ⟨fun hn => (Function.update_self _ _ _).trans (Connection.wantsWrite_of hn),
      fun _ hh => (Function.update_self _ _ _).trans (Connection.wantsRead_of hh)⟩
  · obtain ⟨hi,hfd⟩ := h c hcc hc
    exact hi.of_eq rfl rfl rfl rfl (Function.update_of_ne hfd _ _) (Function.update_of_ne hfd _ _)

/-- A connection on another descriptor does not notice that one is given up. -/
theorem forget (h : w.Others self) : (Service.unregisterWrite (w.conns self).fd w).Others self := by
  intro c hcc hne
  obtain ⟨hi,hfd⟩ := h c hcc hne
  exact ⟨hi.of_eq rfl rfl rfl rfl rfl (Function.update_of_ne hfd _ _),hfd⟩

end World.Others

/-- A handler of a connection that is not the server's leaves the server's alone. -/
theorem World.Others.interested (h : w.Others self) (hc : w.server.conn ≠ some self) : w.Interested :=
  fun c hcc => (h c hcc (fun he => hc (he ▸ hcc))).1

theorem World.Interested.others (h : w.Interested)
    (hfd : ∀ c, w.server.conn = some c → c ≠ self → (w.conns c).fd ≠ (w.conns self).fd) : w.Others self :=
  fun c hcc hne => ⟨h c hcc,hfd c hcc hne⟩

/-- What the server writes is registered. -/
theorem World.Interested.exchange (h : w.Interested) (he : Exchange w w') : w'.Interested := by
  cases he with
  | same hs => exact h.of_eq hs.conn hs.conns hs.readfds hs.writefds
  | write conn buf hc hq =>
    unfold Connection.write
    split
    · exact h
    · exact (World.Others.own (w := w.setConn conn (Connection.addRecord buf true)) hc).want

theorem Exchange.fd (he : Exchange w w') (c : ConnId) : (w'.conns c).fd = (w.conns c).fd := by
  obtain ⟨_,_,hc⟩ := (he.written c).shape
  rw [hc]

theorem World.Others.exchange (h : w.Others self) (he : Exchange w w') : w'.Others self := by
  by_cases hown : w.server.conn = some self
  · exact .own (he.conn.trans hown)
  · intro c hcc hne
    rw [he.fd c,he.fd self]
    exact ⟨(h.interested hown).exchange he c hcc,(h c (he.conn ▸ hcc) hne).2⟩

/-- Neither connections nor what they wait for are changed by commands and messages. -/
theorem others_of_exchanges (he : ReflTransGen Exchange w w') (h : w.Others self) : w'.Others self :=
  Effects.invariant (I := fun t => t.Others self) (fun _ _ ht hs => ht.exchange hs) h he

theorem interested_of_exchanges (he : ReflTransGen Exchange w w') (h : w.Interested) : w'.Interested :=
  Effects.invariant (I := World.Interested) (fun _ _ ht hs => ht.exchange hs) h he

/-! ## Handlers of a connection -/

/-- No connection is created, and that of the server is waited for in the end. -/
abbrev Tends (w : World) (r : Run) : Prop :=
  Meets (fun t => t.nconns = w.nconns ∧ t.Interested) (fun _ => True) r

theorem Tends.of_eq {u : World} {r : Run} (h : Tends u r) (hn : u.nconns = w.nconns) : Tends w r := by
  rwa [Tends,hn] at h

theorem Tends.ofExchanges {r : Run} (h : w.Interested) (hr : Meets (ReflTransGen Exchange w) (fun _ => True) r) :
    Tends w r :=
  Meets.mono hr (fun _ ht => ⟨nconns_of_exchanges ht,interested_of_exchanges ht h⟩) fun _ _ => trivial

namespace Connection

theorem wantreadwrite_nconns (self : ConnId) (w : World) : (wantreadwrite self w).nconns = w.nconns := by
  rw [wantreadwrite_eq]
  rfl

theorem want_tends (h : w.Others self) : Tends w (.ok (wantreadwrite self w)) :=
  ⟨wantreadwrite_nconns self w,h.want⟩

/-- Behind an event the connection is looked at again. -/
theorem tends_want {r : Run} (h : Meets (fun t => t.nconns = w.nconns ∧ t.Others self) (fun _ => True) r) :
    Tends w (r >>= fun t => pure (wantreadwrite self t)) :=
  Meets.bind h fun t ht => ⟨(wantreadwrite_nconns self t).trans ht.1,ht.2.want⟩

theorem deleteLater_same (self : ConnId) (w : World) :
    (deleteLater self w).nconns = w.nconns ∧ (deleteLater self w).server.conn = w.server.conn := by
  unfold deleteLater
  split <;> exact ⟨rfl,rfl⟩

theorem close_tends (h : Inv w) (ho : w.Others self) : Tends w (close self w) := by
  unfold close
  by_cases hc : w.server.conn = some self
  · rw [raiseClosed_own h.toLinked hc]
    refine Meets.bind (Meets.mono (connClosed_spec hc _) (fun _ ht => ht) fun _ _ => trivial) ?_
    rintro _ ⟨t,ht,rfl⟩
    have hs := same_of_effects (hangUp_effects ht)
    obtain ⟨hn,hconn⟩ := deleteLater_same self (IrcServer.awaitReconn t)
    refine ⟨hn.trans hs.nconns,fun c hcc => ?_⟩
    cases (hconn.trans hs.conn).symm.trans hcc
  · rw [raiseClosed_other hc]
    refine ⟨(deleteLater_same self w).1,@World.Others.interested _ self ?_ ?_⟩
    · unfold deleteLater
      split
      · exact World.Others.setConn (ho.of_eq rfl rfl rfl rfl) (f := fun c => { c with deleteScheduled := 1 }) rfl
      · exact ho
    · rw [(deleteLater_same self w).2]
      exact hc

theorem raiseConnected_others (h : Inv w) (ho : w.Others self) :
    Meets (fun t => t.nconns = w.nconns ∧ t.Others self) (fun _ => True) (raiseConnected self w) := by
  by_cases hc : w.server.conn = some self
  · rw [raiseConnected_own h.toLinked hc]
    have hlog : (w.log self .connected).server.conn = some self := hc
    rw [IrcServer.connConnected,if_pos hlog]
    exact ⟨rfl,.own hlog⟩
  · rw [raiseConnected_other hc]
    exact ⟨rfl,ho.of_eq rfl rfl rfl rfl⟩

theorem raiseConnected_tends (h : Inv w) (hi : w.Interested) : Tends w (raiseConnected self w) := by
  by_cases hc : w.server.conn = some self
  · rw [raiseConnected_own h.toLinked hc]
    have hlog : (w.log self .connected).server.conn = some self := hc
    rw [IrcServer.connConnected,if_pos hlog]
    refine ⟨rfl,fun c hcc => ?_⟩
    obtain rfl : c = self := Option.some.inj (hcc.symm.trans hc)
    refine (hi c hc).of_eq ?_ ?_ ?_ ?_ rfl rfl
    all_goals
      rw [setConn_conns,if_pos rfl]
      rfl
  · rw [raiseConnected_other hc]
    exact ⟨rfl,hi.of_eq rfl rfl rfl rfl⟩

theorem raiseDataReceived_others (h : Inv w) (env : Env) (ho : w.Others self) {data : Bytes}
    (hlen : data.length ≤ CONNBUFSZ) :
    Meets (fun t => t.nconns = w.nconns ∧ t.Others self) (fun _ => True) (raiseDataReceived env self data w) := by
  have hm := @raiseDataReceived_stirs w False False h env self data hlen nofun nofun
  exact Meets.mono hm (fun t ht => ⟨(nconns_of_exchanges ht.2).trans rfl,
    others_of_exchanges ht.2 (ho.of_eq rfl rfl rfl rfl)⟩)
    fun _ _ => trivial

theorem sent_tends (n : ℕ) (hi : w.Interested) (ho : w.Others self) : Tends w (sent self n w) := by
  unfold sent
  dsimp only
  split
  · split
    · exact Tends.of_eq (want_tends (ho.setConn rfl)) rfl
    · -- The rest of the record is still to be written.
      refine ⟨rfl,fun c hcc => ?_⟩
      refine (hi c hcc).of_eq ?_ ?_ ?_ ?_ rfl rfl
      all_goals
        rw [setConn_conns]
        split <;> rfl
  · have hdrop : (w.setConn self dropRecord).Others self := ho.setConn rfl
    split
    · refine Tends.of_eq (tends_want (w := w.setConn self dropRecord) ?_) rfl
      exact Meets.mono (confirm_exchanges self _ _)
        (fun t ht => ⟨nconns_of_exchanges ht,others_of_exchanges ht hdrop⟩) fun _ _ => trivial
    · exact Tends.of_eq (.ofExchanges hdrop.want (confirm_exchanges self _ _)) (wantreadwrite_nconns self _)

theorem dowrite_tends (h : Inv w) (env : Env) (hi : w.Interested) (ho : w.Others self) :
    Tends w (dowrite env self w) := by
  unfold dowrite
  split
  · have hlog := h.action (log_acts self .sslWrite w)
    have holog : (w.log self .sslWrite).Others self := ho.of_eq rfl rfl rfl rfl
    dsimp only
    split
    · have hset : ((w.log self .sslWrite).setConn self fun c => { c with tlsWriteSt := .none }).Interested := by
        intro c hcc
        refine (hi c hcc).of_eq ?_ ?_ ?_ ?_ rfl rfl
        all_goals
          rw [setConn_conns]
          split <;> rfl
      exact Tends.of_eq (sent_tends _ hset (holog.setConn rfl)) rfl
    · exact close_tends hlog holog
    · exact close_tends hlog holog
    · exact Tends.of_eq (want_tends (holog.setConn rfl)) rfl
  · have hlog := h.action (log_acts self .write w)
    have holog : (w.log self .write).Others self := ho.of_eq rfl rfl rfl rfl
    have hilog : (w.log self .write).Interested := hi.of_eq rfl rfl rfl rfl
    dsimp only
    split
    · exact Tends.of_eq (sent_tends _ hilog holog) rfl
    · exact ⟨rfl,hilog⟩
    · exact close_tends hlog holog

theorem doread_tends (h : Inv w) (env : Env) (hi : w.Interested) (ho : w.Others self) :
    Tends w (doread env self w) := by
  unfold doread
  split
  · have hlog := h.action (log_acts self .sslRead w)
    have hturn : Action (w.log self .sslRead) ((w.log self .sslRead).setConn self fun c => { c with tlsReadSt := .none }) :=
      field_acts (fun _ => ⟨rfl,rfl,rfl,rfl,rfl,rfl,rfl,rfl,rfl,rfl,rfl⟩)
    have holog : (w.log self .sslRead).Others self := ho.of_eq rfl rfl rfl rfl
    dsimp only
    split
    · next chunk _ =>
      exact Tends.of_eq (tends_want (raiseDataReceived_others (hlog.action hturn) env (holog.setConn rfl) chunk.fits)) rfl
    · exact close_tends hlog holog
    · exact close_tends hlog holog
    · exact Tends.of_eq (want_tends (holog.setConn rfl)) rfl
  · have hlog := h.action (log_acts self .read w)
    have holog : (w.log self .read).Others self := ho.of_eq rfl rfl rfl rfl
    dsimp only
    split
    · next chunk _ => exact Tends.of_eq (tends_want (raiseDataReceived_others hlog env holog chunk.fits)) rfl
    · exact ⟨rfl,hi.of_eq rfl rfl rfl rfl⟩
    · exact close_tends hlog holog

theorem dohandshake_tends (h : Inv w) (env : Env) (ho : w.Others self)
    (hst : w.server.conn = some self → w.server.sendQueue = none ∧ (w.conns self).connecting = 0) :
    Tends w (dohandshake env self w) := by
  have hlog := h.action (log_acts self .sslConnect w)
  have holog : (w.log self .sslConnect).Others self := ho.of_eq rfl rfl rfl rfl
  have hcalm := Action.tickUnregister (w.log self .sslConnect) (.checkPendingTls self) not_false
  have hocalm : World.Others { w.log self .sslConnect with
      service.tick := w.service.tick.unregister () (.checkPendingTls self) 0 } self := holog.of_eq rfl rfl rfl rfl
  unfold dohandshake
  dsimp only
  split
  · have hact : Action (w.log self .sslConnect) ((w.log self .sslConnect).setConn self fun c =>
        { c with tlsConnectSt := .none }) := by
      refine setConn_acts (fun hc => ?_) (fun hn => hn)
      obtain ⟨hq,hcon⟩ := hst hc
      exact ⟨rfl,rfl,rfl,rfl,rfl,rfl,rfl,rfl,rfl,Or.inl,Or.inr ⟨hq ▸ rfl,fun hne => absurd hcon hne⟩⟩
    have h2 := Action.tickUnregister ((w.log self .sslConnect).setConn self fun c => { c with tlsConnectSt := .none })
      (.checkPendingTls self) not_false
    have h3 : ∀ u : World, Action u (u.setConn self fun c => { c with tlsConnectTicks := 0 }) :=
      fun u => field_acts (fun _ => ⟨rfl,rfl,rfl,rfl,rfl,rfl,rfl,rfl,rfl,rfl,rfl⟩)
    have hset : ((w.log self .sslConnect).setConn self fun c => { c with tlsConnectSt := .none }).Others self :=
      holog.setConn rfl
    refine Tends.of_eq (tends_want (raiseConnected_others (((hlog.action hact).action h2).action (h3 _)) ?_)) rfl
    exact World.Others.setConn (hset.of_eq rfl rfl rfl rfl) (f := fun c => { c with tlsConnectTicks := 0 }) rfl
  · exact Tends.of_eq (close_tends (hlog.action hcalm) hocalm) rfl
  · exact Tends.of_eq (close_tends (hlog.action hcalm) hocalm) rfl
  · exact Tends.of_eq (want_tends (holog.setConn rfl)) rfl

theorem writeConnection_tends (h : Inv w) (env : Env) (he : w.Extant self) (hi : w.Interested) (ho : w.Others self) :
    Tends w (writeConnection env self w) := by
  unfold writeConnection
  dsimp only
  split
  · next hne =>
    have hinv := (h.action (.tickUnregister w (.checkPendingConnection self) not_false)).action
      (log_acts self .getsockopt _)
    have hlog : (World.log { w with service.tick := w.service.tick.unregister () (.checkPendingConnection self) 0 }
      self .getsockopt).Others self := ho.of_eq rfl rfl rfl rfl
    have hq : w.server.conn = some self → w.server.sendQueue = none := fun hc => not_queued h hc (Or.inl hne)
    have h1 := initiate_acts hinv hne
    have h2 : ∀ u : World, Action u (u.setConn self fun c => { c with tlsConnectTicks := CONNTICKS }) :=
      fun u => field_acts fun _ => ⟨rfl,rfl,rfl,rfl,rfl,rfl,rfl,rfl,rfl,rfl,rfl⟩
    have h3 := fun u : World => Action.tickRegister u (.checkPendingTls self) ⟨nofun,nofun⟩ not_false
    split
    · exact Tends.of_eq (close_tends hinv hlog) rfl
    · have hset := hlog.setConn (f := fun c => { c with connecting := 0 }) rfl
      split
      · have hall := ((hinv.action h1).action (h2 _)).action (h3 _ he.created)
        have hticks := hset.setConn (f := fun c => { c with tlsConnectTicks := CONNTICKS }) rfl
        refine Tends.of_eq (dohandshake_tends hall env (hticks.of_eq rfl rfl rfl rfl) fun hc => ⟨?_,?_⟩) rfl
        · exact hq hc
        · simp [World.setConn]
      · refine Tends.of_eq (raiseConnected_tends ?_ hset.want) (wantreadwrite_nconns self _)
        exact (hinv.action h1).actions (wantreadwrite_acts self _)
  · next heq =>
    have hcon : (w.conns self).connecting = 0 := not_not.mp heq
    split
    · next hst =>
      refine dohandshake_tends h env ho fun hc => ⟨not_queued h hc (Or.inr ?_),hcon⟩
      rw [hst]
      simp
    · split
      · exact doread_tends h env hi ho
      · split
        · exact dowrite_tends h env hi ho
        · split
          · exact want_tends ho
          · exact dowrite_tends h env hi ho

theorem readConnection_tends (h : Inv w) (env : Env) (hi : w.Interested) (ho : w.Others self) :
    Tends w (readConnection env self w) := by
  unfold readConnection
  dsimp only
  split
  · next hst =>
    have hne : (w.conns self).tlsConnectSt ≠ .none := by
      rw [hst]
      exact nofun
    refine dohandshake_tends h env ho fun hc => ⟨not_queued h hc (Or.inr hne),?_⟩
    by_contra hcon
    exact hne ((h.attached self hc).connecting hcon)
  · split
    · exact doread_tends h env hi ho
    · split
      · exact dowrite_tends h env hi ho
      · split
        · exact ⟨rfl,hi⟩
        · exact doread_tends h env hi ho

theorem checkPendingConnection_tends (h : Inv w) (hi : w.Interested) (ho : w.Others self) :
    Tends w (checkPendingConnection self w) := by
  unfold checkPendingConnection
  split
  · next hne =>
    have hinv := h.action (countdown_acts h hne)
    have hset := ho.setConn (f := fun c => { c with connecting := c.connecting - 1 }) rfl
    dsimp only
    split
    · exact Tends.of_eq (close_tends (hinv.action (unregisterWrite_acts _ _)) hset.forget) rfl
    · next hcon =>
      -- The connection is still connecting.
      refine ⟨rfl,fun c hcc => ?_⟩
      by_cases hc : c = self
      · subst hc
        have hwrite := (hi c hcc).write (Or.inl hne)
        refine ⟨fun _ => ?_,fun hz => absurd hz hcon⟩
        rw [setConn_conns,if_pos rfl]
        exact hwrite
      · exact (hset c hcc hc).1
  · exact ⟨rfl,hi⟩

theorem checkPendingTls_tends (h : Inv w) (hi : w.Interested) (ho : w.Others self) :
    Tends w (checkPendingTls self w) := by
  unfold checkPendingTls
  split
  · have hset := ho.setConn (f := fun c => { c with tlsConnectTicks := c.tlsConnectTicks - 1 }) rfl
    dsimp only
    split
    · exact Tends.of_eq (close_tends (h.action (tlsCountdown_acts self w)) hset) rfl
    · refine ⟨rfl,fun c hcc => ?_⟩
      refine (hi c hcc).of_eq ?_ ?_ ?_ ?_ rfl rfl
      all_goals
        rw [setConn_conns]
        split <;> rfl
  · exact ⟨rfl,hi⟩

end Connection

/-! ## Descriptors that are not the server's -/

variable {live sane : Prop}

theorem Passage.extant (hp : Passage w w') (h : Tracked w) {c : ConnId} (hc : c < w.nconns) (he : w'.Extant c) :
    w.Extant c := by
  cases hp with
  | steady hs => exact ⟨hc,hs.scheduled c ▸ he.kept⟩
  | shake _ _ hs => exact ⟨hc,hs.scheduled c ▸ he.kept⟩
  | closes hd hs =>
    by_cases hopen : w.server.conn = some c
    · exact ⟨hc,by rw [(World.stage_opened.mp ((h.opened c).mpr hopen)).2]; decide⟩
    · refine ⟨hc,fun hk => he.kept ?_⟩
      rw [hs.conns,Function.update_of_ne (by rintro rfl; exact hopen hd)]
      exact hk
  | creates _ hs =>
    exact ⟨hc,fun hk => he.kept (by rw [hs.conns,Function.update_of_ne (Nat.ne_of_lt hc)]; exact hk)⟩

def World.SameBits (w w' : World) (z : ℤ) : Prop :=
  w'.service.readfds z = w.service.readfds z ∧ w'.service.writefds z = w.service.writefds z

theorem wantreadwrite_bits {z : ℤ} (hz : (w.conns self).fd ≠ z) : w.SameBits (Connection.wantreadwrite self w) z := by
  rw [Connection.wantreadwrite_eq]
  exact ⟨Function.update_of_ne hz.symm _ _,Function.update_of_ne hz.symm _ _⟩

/-- A move registers descriptors of connections that are in memory. -/
theorem Move.bits (hm : Move live sane w w') (ht : Tracked w) (hn : w'.nconns = w.nconns) {z : ℤ}
    (hz : ∀ c, w.Extant c → (w.conns c).fd ≠ z) : w.SameBits w' z := by
  cases hm with
  | exchange he =>
    cases he with
    | same hs => exact ⟨by rw [hs.readfds],by rw [hs.writefds]⟩
    | write conn buf hc _ =>
      have hopen := World.stage_opened.mp ((ht.opened conn).mpr hc)
      have hfd : ((w.setConn conn (Connection.addRecord buf true)).conns conn).fd ≠ z := by
        rw [setConn_conns,if_pos rfl]
        exact hz conn ⟨hopen.1,by rw [hopen.2]; decide⟩
      unfold Connection.write
      split
      · exact ⟨rfl,rfl⟩
      · exact wantreadwrite_bits hfd
  | want self he => exact wantreadwrite_bits (hz self he)
  | forget self he => exact ⟨rfl,Function.update_of_ne (hz self he).symm _ _⟩
  | establish self =>
    unfold IrcServer.connConnected
    split <;> exact ⟨rfl,rfl⟩
  | close t self established hc ht' =>
    have hs := close_shape (World.stage_opened.mp ((ht.opened self).mpr hc)).2 ht'
    exact ⟨by rw [hs.readfds],by rw [hs.writefds]⟩
  | later self =>
    unfold Connection.deleteLater
    split <;> exact ⟨rfl,rfl⟩
  | connect env hc =>
    rcases connect_creates env hc with he | ⟨_,_,_,hs⟩
    · rw [he]
      exact ⟨rfl,rfl⟩
    · rw [hs.nconns] at hn
      exact absurd hn (Nat.succ_ne_self _)
  | _ => exact ⟨rfl,rfl⟩

/-- What a step leaves of the connections in memory, and of the descriptors; a new
connection may have the one that `socket` returns. -/
structure World.Attends (w w' : World) (socket : Option ℤ) : Prop where
  extant : ∀ c, w'.Extant c → (w.Extant c ∧ (w'.conns c).fd = (w.conns c).fd) ∨ (w'.conns c).fd ∈ socket ∧ w'.server.conn = some c
  bits : ∀ z, (∀ c, w.Extant c → (w.conns c).fd ≠ z) → z ∉ socket → w.SameBits w' z
  interested : w'.Interested

namespace World.Attends
variable {u u' : World} {socket : Option ℤ}

theorem refl (hi : w.Interested) (socket : Option ℤ) : w.Attends w socket :=
  ⟨fun _ he => Or.inl ⟨he,rfl⟩,fun _ _ _ => ⟨rfl,rfl⟩,hi⟩

/-- What else happens in front of a step does not matter. -/
theorem before (h : u.Attends w' socket) (hc : u.conns = w.conns) (hn : u.nconns = w.nconns)
    (hr : u.service.readfds = w.service.readfds) (hw : u.service.writefds = w.service.writefds) :
    w.Attends w' socket := by
  have hext : ∀ c, u.Extant c ↔ w.Extant c := fun c =>
    ⟨fun he => he.of_eq hn.symm (by rw [hc]),fun he => he.of_eq hn (by rw [hc])⟩
  refine ⟨fun c he => ?_,fun z hz hs => ?_,h.interested⟩
  · rw [← hext c,← hc]
    exact h.extant c he
  · rw [World.SameBits,← hr,← hw]
    exact h.bits z (fun c he => by rw [hc]; exact hz c ((hext c).mp he)) hs

/-- Nor does what happens behind it. -/
theorem behind (h : w.Attends u' socket) (hc : w'.conns = u'.conns) (hn : w'.nconns = u'.nconns)
    (hconn : w'.server.conn = u'.server.conn) (hr : w'.service.readfds = u'.service.readfds)
    (hw : w'.service.writefds = u'.service.writefds) : w.Attends w' socket := by
  refine ⟨fun c he => ?_,fun z hz hs => ?_,h.interested.of_eq hconn hc hr hw⟩
  · rw [hc,hconn]
    exact h.extant c (he.of_eq hn.symm (by rw [hc]))
  · rw [World.SameBits,hr,hw]
    exact h.bits z hz hs

end World.Attends

theorem attends_of_moves (hm : ReflTransGen (Move live sane) w w') (ht : Tracked w) (hn : w'.nconns = w.nconns)
    (hi : w'.Interested) (socket : Option ℤ) : w.Attends w' socket := by
  have hall : ∀ z, Tracked w' ∧ w.nconns ≤ w'.nconns ∧ (w'.nconns = w.nconns →
      (∀ c, w'.Extant c → w.Extant c ∧ (w'.conns c).fd = (w.conns c).fd) ∧
      ((∀ c, w.Extant c → (w.conns c).fd ≠ z) → w.SameBits w' z)) := by
    intro z
    refine Effects.invariant (I := fun t => Tracked t ∧ w.nconns ≤ t.nconns ∧ (t.nconns = w.nconns →
      (∀ c, t.Extant c → w.Extant c ∧ (t.conns c).fd = (w.conns c).fd) ∧
      ((∀ c, w.Extant c → (w.conns c).fd ≠ z) → w.SameBits t z))) ?_ ⟨ht,le_refl _,fun _ => ?_⟩ hm
    · rintro t u ⟨ht,hle,hold⟩ hs
      have hp := hs.passage ht
      have ho := hp.onward
      refine ⟨hp.tracked ht,hle.trans ho.nconns,fun hu => ?_⟩
      have htn : t.nconns = w.nconns := le_antisymm (hu ▸ ho.nconns) hle
      obtain ⟨hext,hbits⟩ := hold htn
      have hlt : ∀ c, u.Extant c → c < t.nconns := fun c he => htn ▸ hu ▸ he.created
      refine ⟨fun c he => ?_,fun hz => ?_⟩
      · obtain ⟨h1,h2⟩ := hext c (hp.extant ht (hlt c he) he)
        exact ⟨h1,(ho.fd c (hlt c he)).trans h2⟩
      · obtain ⟨h1,h2⟩ := hbits hz
        have hsame := hs.bits ht (hu.trans htn.symm) (z := z) fun c he => by rw [(hext c he).2]; exact hz c (hext c he).1
        exact ⟨hsame.1.trans h1,hsame.2.trans h2⟩
    · exact ⟨fun _ he => ⟨he,rfl⟩,fun _ => ⟨rfl,rfl⟩⟩
  exact ⟨fun c he => Or.inl (((hall 0).2.2 hn).1 c he),fun z hz _ => ((hall z).2.2 hn).2 hz,hi⟩

theorem attends_of_tends {r : Run} (ht : Tracked w) (hm : Moves False False w r) (hr : Tends w r) (hs : r = .ok w')
    (socket : Option ℤ) : w.Attends w' socket := by
  rw [hs] at hm hr
  exact attends_of_moves hm ht hr.1 hr.2 socket

/-- Only `eventsDone` destroys, and gives up a descriptor. -/
theorem World.Destroys.attends {c : ConnId} (hd : w.Destroys w' c) (hi : w.Interested)
    (hc : w.Extant c) (hfd : ∀ d, w.server.conn = some d → (w.conns d).fd ≠ (w.conns c).fd) (socket : Option ℤ) :
    w.Attends w' socket := by
  constructor
  · intro d he
    have hne : d ≠ c := by
      rintro rfl
      exact he.kept hd.scheduled
    rw [hd.other d hne]
    exact Or.inl ⟨he.of_eq hd.nconns.symm (by rw [hd.other d hne]),rfl⟩
  · intro z hz _
    rw [World.SameBits,hd.readfds,hd.writefds]
    exact ⟨Function.update_of_ne (hz c hc).symm _ _,Function.update_of_ne (hz c hc).symm _ _⟩
  · intro d hcd
    rw [hd.conn] at hcd
    have hne : d ≠ c := by
      rintro rfl
      exact hfd d hcd rfl
    rw [World.Interest,hd.other d hne,hd.readfds,hd.writefds]
    exact (hi d hcd).of_eq rfl rfl rfl rfl (Function.update_of_ne (hfd d hcd) _ _) (Function.update_of_ne (hfd d hcd) _ _)

theorem World.Creates.attends {fd : ℤ} {c : Connection} (hs : w.Creates w' fd c) : w.Attends w' (some fd) := by
  have hown : w'.conns w.nconns = c := by rw [hs.conns,Function.update_self]
  constructor
  · intro d he
    by_cases hd : d = w.nconns
    · subst hd
      rw [hown,hs.created.fd]
      exact Or.inr ⟨rfl,hs.conn⟩
    · have hother : w'.conns d = w.conns d := by rw [hs.conns,Function.update_of_ne hd]
      have hlt : d < w.nconns := by
        have := he.created
        rw [hs.nconns] at this
        exact lt_of_le_of_ne (Nat.le_of_lt_succ this) hd
      rw [hother]
      exact Or.inl ⟨⟨hlt,fun hk => he.kept (hother ▸ hk)⟩,rfl⟩
  · intro z _ hz
    have hne : z ≠ fd := fun he => hz (he ▸ rfl)
    exact ⟨by rw [hs.readfds],by rw [hs.writefds,Function.update_of_ne hne]⟩
  · intro d hcd
    obtain rfl : d = w.nconns := Option.some.inj (hcd.symm.trans hs.conn)
    have hcon : (w'.conns w.nconns).connecting ≠ 0 := by
      rw [hown,hs.created.connecting]
      decide
    refine ⟨fun _ => ?_,fun hz => absurd hz hcon⟩
    rw [hown,hs.created.fd,hs.writefds,Function.update_self]

theorem connect_attends (hi : w.Interested) (env : Env) : w.Attends (IrcServer.connect env w).2 env.socket := by
  by_cases hc : w.server.conn = none
  · rcases connect_creates env hc with he | ⟨fd,_,hfd,hs⟩
    · rw [he]
      exact .refl hi _
    · rw [hfd]
      exact hs.attends
  · rw [IrcServer.connect,if_pos (Option.isSome_iff_ne_none.mpr hc)]
    exact .refl hi _

/-! ## Handlers of the server -/

namespace IrcServer

theorem closeConn_tends (h : Inv w) : Tends w (closeConn w) := by
  unfold closeConn
  split
  · next conn hc => exact Connection.close_tends h (.own hc)
  · trivial

theorem connWaitLogin_tends (h : Inv w) (hi : w.Interested) : Tends w (connWaitLogin w) := by
  have hinv := h.action (.counters w w.server.reconnticks (w.server.loginticks - 1) w.server.idleticks
    w.server.sendcreditticks)
  unfold connWaitLogin
  dsimp only
  split
  · exact Tends.of_eq (closeConn_tends (hinv.action (.tickUnregister _ .connWaitLogin not_false))) rfl
  · exact ⟨rfl,hi.of_eq rfl rfl rfl rfl⟩

theorem activeTick_tends (h : Inv w) (hi : w.Interested) : Tends w (activeTick w) := by
  obtain ⟨credits,h1,he⟩ := credit_acts w
  have hi1 : World.Interested { w with server.sendcreditticks := credits } := hi.of_eq rfl rfl rfl rfl
  unfold activeTick
  rw [he]
  refine Meets.bind (P := fun t => t.nconns = w.nconns ∧ Inv t ∧ t.Interested) ?_ ?_
  · cases hs : sendRaw none { w with server.sendcreditticks := credits } with
    | error e => trivial
    | ok t =>
      have hex := exchanges_of_sends (sendRaw_sends hs)
      exact ⟨(nconns_of_exchanges hex).trans rfl,(h.actions h1).change (.send _ t none nofun hs),
        interested_of_exchanges hex hi1⟩
  · rintro t ⟨hn,hinv,hit⟩
    have hidle : World.Interested { t with server.idleticks := t.server.idleticks - 1 } := hit.of_eq rfl rfl rfl rfl
    dsimp only
    split
    · cases hs : sendRawCmd _ _ _ with
      | error e => trivial
      | ok u =>
        have hex := exchanges_of_sendRawCmd (by decide) hs
        exact ⟨(nconns_of_exchanges hex).trans hn,interested_of_exchanges hex hidle⟩
    · split
      · refine Tends.of_eq (closeConn_tends ?_) hn
        exact (hinv.action (idle_acts t)).action (.tickUnregister _ .activeTick not_false)
      · exact ⟨hn,hidle⟩

theorem disconnect_tends (h : Inv w) (hi : w.Interested) : Tends w (disconnect w) := by
  have h1 := h.action (.tickUnregister w .connWaitLogin not_false)
  have h2 := h1.action (.tickUnregister _ .connWaitReconn not_false)
  unfold disconnect
  dsimp only
  split
  · cases hs : sendRawCmd _ _ _ with
    | error e => trivial
    | ok u =>
      have hex := exchanges_of_sendRawCmd (by decide) hs
      exact ⟨(nconns_of_exchanges hex).trans rfl,interested_of_exchanges hex (hi.of_eq rfl rfl rfl rfl)⟩
  · split
    · next conn hc => exact Tends.of_eq (Connection.close_tends h2 (.own hc)) rfl
    · exact ⟨rfl,hi.of_eq rfl rfl rfl rfl⟩

theorem connWaitReconn_attends (hi : w.Interested) (env : Env) : w.Attends (connWaitReconn env w) env.socket := by
  have hi1 : World.Interested { w with server.reconnticks := w.server.reconnticks - 1 } := hi.of_eq rfl rfl rfl rfl
  have hc := (connect_attends hi1 env).before (w := w) rfl rfl rfl rfl
  unfold connWaitReconn
  dsimp only
  split
  · split
    · exact hc.behind rfl rfl rfl rfl rfl
    · exact hc.behind rfl rfl rfl rfl rfl
  · exact (World.Attends.refl hi _).behind rfl rfl rfl rfl rfl

end IrcServer

theorem startup_attends (hi : w.Interested) (env : Env) : w.Attends (Service.startup env w) env.socket := by
  have hc := connect_attends hi env
  unfold Service.startup
  dsimp only
  split
  · exact hc
  · exact hc.behind rfl rfl rfl rfl rfl

/-! ## Parts of a step -/

def World.Apart (w : World) : Prop := ∀ c d, w.Extant c → w.Extant d → (w.conns c).fd = (w.conns d).fd → c = d

theorem Tracked.extant_own (h : Tracked w) (hc : w.server.conn = some self) : w.Extant self := by
  have hs := World.stage_opened.mp ((h.opened self).mpr hc)
  exact ⟨hs.1,by rw [hs.2]; decide⟩

theorem World.Apart.own (ha : w.Apart) (ht : Tracked w) (he : w.Extant self) {c : ConnId}
    (hc : w.server.conn = some c) (hne : c ≠ self) : (w.conns c).fd ≠ (w.conns self).fd :=
  fun hfd => hne (ha c self (ht.extant_own hc) he hfd)

theorem callTick_attends (h : Inv w) (ht : Tracked w) (hi : w.Interested) (ha : w.Apart) (env : Env)
    {handler : TickHandler} (hh : handler.Serves w) (hs : Service.callTick env handler w = .ok w') :
    w.Attends w' env.socket := by
  have hm : Moves False False w _ := (callTick_stirs h env hh).moves
  have htends : Tends w (Service.callTick env handler w) → w.Attends w' env.socket :=
    fun hr => attends_of_tends ht hm hr hs _
  have hof : ∀ {r : Run}, (Traces none w r) → Tends w r := by
    intro r hr
    cases r with
    | error e => trivial
    | ok t => exact ⟨nconns_of_exchanges (exchanges_of_effects hr),interested_of_exchanges (exchanges_of_effects hr) hi⟩
  cases handler with
  | connWaitLogin => exact htends (IrcServer.connWaitLogin_tends h hi)
  | connWaitReconn =>
    cases hs
    exact IrcServer.connWaitReconn_attends hi env
  | activeTick => exact htends (IrcServer.activeTick_tends h hi)
  | waitjoin self => exact htends (hof (IrcChannel.waitjoin_traces self w))
  | waitrejoin self => exact htends (hof (IrcChannel.waitrejoin_traces self w))
  | checkPendingConnection self =>
    exact htends (Connection.checkPendingConnection_tends h hi (hi.others fun _ hc hne => ha.own ht hh hc hne))
  | checkPendingTls self =>
    exact htends (Connection.checkPendingTls_tends h hi (hi.others fun _ hc hne => ha.own ht hh hc hne))
  | other n => exact htends ⟨rfl,hi⟩

theorem calls_attends (h : Inv w) (ht : Tracked w) (hi : w.Interested) (ha : w.Apart) {env : Env}
    {event : ServiceEvent} {rest : List ServiceEvent} (htodo : w.service.todo = event :: rest)
    (hc : w.Calls env event w') : w.Attends w' env.socket := by
  have hmoves := fun hne => @calls_moves w False False h ht env event rest htodo hne w' hc nofun nofun nofun
  cases event with
  | eventsDone =>
    obtain ⟨c,-,hclosed,hd⟩ := calls_destroys ht hc
    have hne : ∀ d, w.server.conn = some d → d ≠ c := by
      rintro d hcd rfl
      rw [(ht.opened d).mpr hcd] at hclosed
      cases hclosed
    have hext : w.Extant c := World.extant_of_kept (by rw [hclosed]; decide)
    exact hd.attends hi hext (fun d hcd => ha.own ht hext hcd (hne d hcd)) _
  | tick =>
    obtain ⟨handler,hv,hc⟩ := hc
    exact callTick_attends h ht hi ha env (ht.ticking hv) hc
  | readyWrite id =>
    obtain ⟨⟨self⟩,hv,hs⟩ := hc
    have hext := (ht.writing hv).1
    have hr := Connection.writeConnection_tends h env hext hi (hi.others fun _ hc hne => ha.own ht hext hc hne)
    rw [show Connection.writeConnection env self w = .ok w' from hs] at hr
    exact attends_of_moves (hmoves (by simp)) ht hr.1 hr.2 _
  | readyRead id =>
    obtain ⟨⟨self⟩,hv,hs⟩ := hc
    have hext := (ht.reading hv).1
    have hr := Connection.readConnection_tends h env hi (hi.others fun _ hc hne => ha.own ht hext hc hne)
    rw [show Connection.readConnection env self w = .ok w' from hs] at hr
    exact attends_of_moves (hmoves (by simp)) ht hr.1 hr.2 _

theorem next_attends (h : Inv w) (ht : Tracked w) (hi : w.Interested) (ha : w.Apart) {env : Env}
    (hs : Service.next env w = .ok w') : w.Attends w' env.socket := by
  rcases next_cases hs with ⟨-,rfl⟩ | ⟨event,rest,htodo,⟨-,rfl⟩ | ⟨-,rfl⟩ | ⟨t,hc,rfl⟩⟩
  · exact .refl hi _
  · exact (World.Attends.refl hi _).behind rfl rfl rfl rfl rfl
  · exact (World.Attends.refl hi _).behind rfl rfl rfl rfl rfl
  · exact (calls_attends h ht hi ha htodo hc).behind rfl rfl rfl rfl rfl

theorem call_attends (h : Inv w) (ht : Tracked w) (hi : w.Interested) {l : Label} (hl : l.IsCall)
    (hst : ∀ env, l ≠ .startup env) (hs : World.step l w = .ok w') (socket : Option ℤ) : w.Attends w' socket := by
  have hm : Moves False False w (World.step l w) := call_moves h hl
  refine attends_of_tends ht hm ?_ hs socket
  by_cases hd : l = .disconnect
  · subst hd
    exact IrcServer.disconnect_tends h hi
  · exact .ofExchanges hi (call_exchanges h hl hst hd)

theorem shutdown_attends (h : Inv w) (ht : Tracked w) (hi : w.Interested) (hs : Service.shutdown w = .ok w')
    (socket : Option ℤ) : w.Attends w' socket := by
  have hm : Moves False False w (Service.shutdown w) := shutdown_moves h
  refine attends_of_tends ht hm ?_ hs socket
  have h1 := h.action (.logout w)
  have h2 := h1.actions (Service.shutdownLock_acts _)
  have hlock : ∀ u : World, (Service.shutdownLock u).nconns = u.nconns ∧ (u.Interested → (Service.shutdownLock u).Interested) := by
    intro u
    unfold Service.shutdownLock
    split
    · exact ⟨rfl,fun hi => hi.of_eq rfl rfl rfl rfl⟩
    · exact ⟨rfl,fun hi => hi⟩
  exact Tends.of_eq (IrcServer.disconnect_tends h2 ((hlock _).2 (hi.of_eq rfl rfl rfl rfl))) (hlock _).1

end LibIrcBot
