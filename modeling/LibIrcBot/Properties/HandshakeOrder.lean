import LibIrcBot.System.Iterations
import LibIrcBot.System.Runs

/-! # Data behind the handshake

A TLS connection that is handed a readiness for reading while its handshake waits to write
goes on to read. In all other runs it reads, writes and delivers data only when it has
raised `connected`, and with no handshake pending.
-/
namespace LibIrcBot
open CString Effects Relation Outcome Transitions

variable {w w' : World} {live : Prop}

/-- In the log each operation that moves data over a TLS connection follows `connected`, and
no handshake is pending then. -/
def World.InOrder (w : World) : Prop := ∀ pre e post, w.ghost.operations = pre ++ e :: post →
  e.operation.Transfers → e.conn.tls = true →
    (∃ d ∈ pre, d.self = e.self ∧ d.operation = .connected) ∧ e.conn.tlsConnectSt = .none

namespace World.InOrder

theorem of_eq (h : w.InOrder) (ho : w'.ghost.operations = w.ghost.operations) : w'.InOrder := by
  rwa [InOrder,ho]

theorem append (h : w.InOrder) (entry : Entry) (ho : w'.ghost.operations = w.ghost.operations ++ [entry])
    (he : entry.operation.Transfers → entry.conn.tls = true → w.Up entry.self ∧ entry.conn.tlsConnectSt = .none) :
    w'.InOrder := by
  intro pre e post heq htr htls
  rw [ho] at heq
  rcases List.eq_nil_or_concat post with rfl | ⟨post',last,rfl⟩
  · obtain ⟨rfl,hlast⟩ := List.append_inj' heq rfl
    obtain rfl := (List.cons.inj hlast).1
    exact he htr htls
  · have heq' : w.ghost.operations ++ [entry] = (pre ++ e :: post') ++ [last] := by simpa using heq
    exact h pre e post' (List.append_inj' heq' rfl).1 htr htls

theorem log (h : w.InOrder) (self : ConnId) (operation : Operation)
    (he : operation.Transfers → (w.conns self).tls = true → w.Up self ∧ (w.conns self).tlsConnectSt = .none) :
    (w.log self operation).InOrder := h.append ⟨self,operation,w.conns self⟩ rfl he

theorem want (h : w.InOrder) (self : ConnId) : (Connection.wantreadwrite self w).InOrder := by
  rw [Connection.wantreadwrite_eq]
  exact (h.log self .wantreadwrite not_false.elim).of_eq rfl

end World.InOrder

theorem up_iff {self : ConnId} {entries : List Entry} (ho : w'.ghost.operations = w.ghost.operations ++ entries)
    (hno : ∀ e ∈ entries, e.operation ≠ .connected) : w'.Up self ↔ w.Up self := by
  constructor
  · rintro ⟨e,he,hself,hop⟩
    rw [ho] at he
    rcases List.mem_append.mp he with he | he
    · exact ⟨e,he,hself,hop⟩
    · exact absurd hop (hno e he)
  · rintro ⟨e,he,hself,hop⟩
    exact ⟨e,ho ▸ List.mem_append_left _ he,hself,hop⟩

namespace Staged

/-- A step that raises no `connected` and keeps what the handshake has come to. -/
theorem quiet (h : Staged w) {entries : List Entry} (ho : w'.ghost.operations = w.ghost.operations ++ entries)
    (hno : ∀ e ∈ entries, e.operation ≠ .connected) (hn : w'.nconns = w.nconns)
    (hc : ∀ self, (w'.conns self).connecting = (w.conns self).connecting ∧
      (w'.conns self).tlsConnectSt = (w.conns self).tlsConnectSt)
    (hd : ∀ self, ((w'.conns self).tls = (w.conns self).tls ∧
      (w'.conns self).tlsReadSt = (w.conns self).tlsReadSt ∧ (w'.conns self).tlsWriteSt = (w.conns self).tlsWriteSt ∧
      ((w'.conns self).nrecs = (w.conns self).nrecs ∨ (w'.conns self).nrecs = 0)) ∨ w.Up self)
    (hconn : w'.server.conn = w.server.conn ∧ w'.server.sendQueue.isSome = w.server.sendQueue.isSome ∨
      w'.server.conn = none ∧ w'.server.sendQueue.isSome = false) : Staged w' where
  up := fun self hu => by
    rw [(hc self).1,(hc self).2]
    exact h.up self ((up_iff ho hno).mp hu)
  down := fun self hlt htls hnot => by
    rw [up_iff ho hno] at hnot
    rcases hd self with ⟨ht,hr,hw,hnrecs⟩ | hu
    · obtain ⟨h1,h2,h3⟩ := h.down self (hn ▸ hlt) (ht ▸ htls) hnot
      exact ⟨hr.trans h1,hw.trans h2,hnrecs.elim (fun he => he.trans h3) fun he => he⟩
    · exact absurd hu hnot
  connecting := fun self hlt hne => by
    rw [(hc self).1] at hne
    exact (hc self).2.trans (h.connecting self (hn ▸ hlt) hne)
  established := fun self he hq => by
    rcases hconn with ⟨h1,h2⟩ | ⟨-,h2⟩
    · exact (up_iff ho hno).mpr (h.established self (h1 ▸ he) (h2 ▸ hq))
    · rw [h2] at hq
      cases hq
  created := fun self hu => (h.created self ((up_iff ho hno).mp hu)).trans_eq hn.symm
  idle := fun he => by
    rcases hconn with ⟨h1,h2⟩ | ⟨-,h2⟩
    · exact h2.trans (h.idle (h1 ▸ he))
    · exact h2

theorem initial (h : w.Initial) : Staged w where
  up := fun self ⟨e,he,_⟩ => by rw [h.ghost] at he; cases he
  down := fun self hlt => by rw [h.nconns] at hlt; cases hlt
  connecting := fun self hlt => by rw [h.nconns] at hlt; cases hlt
  established := fun self hc => by rw [h.conn] at hc; cases hc
  created := fun self ⟨e,he,_⟩ => by rw [h.ghost] at he; cases he
  idle := fun _ => by rw [h.sendQueue]; rfl

theorem turn (h : Staged w) {self : ConnId} {f : Connection → Connection}
    (hf : Connection.Turned (w.Up self) True (w.conns self) (f (w.conns self))) : Staged (w.setConn self f) := by
  have hother : ∀ d, d ≠ self → (w.setConn self f).conns d = w.conns d := by
    intro d hne
    rw [setConn_conns,if_neg hne]
  have hown : (w.setConn self f).conns self = f (w.conns self) := by
    rw [setConn_conns,if_pos rfl]
  refine ⟨fun d hu => ?_,fun d hlt htls hnot => ?_,fun d hlt hne => ?_,h.established,h.created,h.idle⟩
  · by_cases he : d = self
    · subst he
      obtain ⟨hz,hst⟩ := h.up d hu
      rw [hown]
      refine ⟨?_,?_⟩
      · rcases hf.connecting with heq | hne
        · exact heq.trans hz
        · exact absurd hz hne
      · rcases hf.shaking with heq | heq | hno
        · exact heq.trans hst
        · exact heq
        · exact absurd hu (hno trivial).2
    · rw [hother d he]
      exact h.up d hu
  · by_cases he : d = self
    · subst he
      rw [hown] at htls ⊢
      rw [hf.tls] at htls
      rcases hf.transfer with ⟨hr,hw,hn⟩ | hup
      · obtain ⟨h1,h2,h3⟩ := h.down d hlt htls hnot
        exact ⟨hr.trans h1,hw.trans h2,hn.trans h3⟩
      · exact absurd (hup trivial htls) hnot
    · rw [hother d he] at htls ⊢
      exact h.down d hlt htls hnot
  · by_cases he : d = self
    · subst he
      rw [hown] at hne ⊢
      have hcon : (w.conns d).connecting ≠ 0 := by
        rcases hf.connecting with heq | hcon
        · exact heq ▸ hne
        · exact hcon
      rcases hf.shaking with heq | heq | hno
      · exact heq.trans (h.connecting d hlt hcon)
      · exact heq
      · exact absurd (hno trivial).1 hcon
    · rw [hother d he] at hne ⊢
      exact h.connecting d hlt hne

/-- `connected` is raised with no handshake pending. -/
theorem connected (h : Staged w) {self : ConnId} (he : self < w.nconns)
    (hst : (w.conns self).connecting = 0 ∧ (w.conns self).tlsConnectSt = .none) : Staged (w.log self .connected) where
  up := by
    rintro d ⟨e,he,hself,hop⟩
    rcases List.mem_append.mp he with he | he
    · exact h.up d ⟨e,he,hself,hop⟩
    · rw [List.mem_singleton.mp he] at hself
      exact hself ▸ hst
  down := fun d hlt htls hnot => h.down d hlt htls fun hu => hnot (hu.log self _)
  connecting := h.connecting
  established := fun d hc hq => (h.established d hc hq).log self _
  created := by
    rintro d ⟨e,hmem,hself,hop⟩
    rcases List.mem_append.mp hmem with hmem | hmem
    · exact h.created d ⟨e,hmem,hself,hop⟩
    · rw [List.mem_singleton.mp hmem] at hself
      exact hself ▸ he
  idle := h.idle

theorem creates (h : Staged w) {fd : ℤ} {c : Connection} (hs : w.Creates w' fd c) (hc : w.server.conn = none) :
    Staged w' := by
  have hops : w'.ghost.operations = w.ghost.operations ++ [] := by rw [hs.operations,List.append_nil]
  have hup : ∀ d, w'.Up d ↔ w.Up d := fun d => up_iff hops (by simp)
  have hother : ∀ d, d ≠ w.nconns → w'.conns d = w.conns d := by
    intro d hne
    rw [hs.conns,Function.update_of_ne hne]
  have hown : w'.conns w.nconns = c := by
    rw [hs.conns,Function.update_self]
  have hold : ∀ d, d < w'.nconns → d ≠ w.nconns → d < w.nconns := by
    intro d hlt hne
    rw [hs.nconns] at hlt
    exact lt_of_le_of_ne (Nat.le_of_lt_succ hlt) hne
  refine ⟨fun d hu => ?_,fun d hlt htls hnot => ?_,fun d hlt hne => ?_,fun d _ hq => ?_,fun d hu => ?_,fun he => ?_⟩
  · rw [hup] at hu
    rw [hother d (Nat.ne_of_lt (h.created d hu))]
    exact h.up d hu
  · rw [hup] at hnot
    by_cases he : d = w.nconns
    · rw [he,hown]
      exact ⟨hs.created.tlsReadSt,hs.created.tlsWriteSt,hs.created.nrecs⟩
    · rw [hother d he] at htls ⊢
      exact h.down d (hold d hlt he) htls hnot
  · by_cases he : d = w.nconns
    · rw [he,hown]
      exact hs.created.tlsConnectSt
    · rw [hother d he] at hne ⊢
      exact h.connecting d (hold d hlt he) hne
  · rw [hs.queued,h.idle hc] at hq
    cases hq
  · rw [hup] at hu
    rw [hs.nconns]
    exact Nat.lt_succ_of_lt (h.created d hu)
  · rw [hs.conn] at he
    cases he

theorem move (h : Staged w) (ht : Tracked w) (hm : Move live True w w') : Staged w' := by
  have hcreated : ∀ self, w.server.conn = some self → self < w.nconns :=
    fun self hc => (World.stage_opened.mp ((ht.opened self).mpr hc)).1
  have hlog : ∀ (self : ConnId) (o : Operation), o ≠ .connected → Staged (w.log self o) := by
    intro self o hne
    have hops : (w.log self o).ghost.operations = w.ghost.operations ++ [⟨self,o,w.conns self⟩] := rfl
    exact h.quiet hops (by simpa using hne) rfl (fun _ => ⟨rfl,rfl⟩) (fun _ => Or.inl ⟨rfl,rfl,rfl,Or.inl rfl⟩)
      (Or.inl ⟨rfl,rfl⟩)
  cases hm with
  | exchange he =>
    cases he with
    | same hs =>
      have hops : w'.ghost.operations = w.ghost.operations ++ [] := by rw [hs.operations,List.append_nil]
      refine h.quiet hops (by simp) hs.nconns (fun _ => ?_) (fun _ => Or.inl ?_) (Or.inl ⟨hs.conn,hs.queued⟩)
      · rw [hs.conns]
        exact ⟨rfl,rfl⟩
      · rw [hs.conns]
        exact ⟨rfl,rfl,rfl,Or.inl rfl⟩
    | write conn buf hc hq =>
      unfold Connection.write
      split
      · exact h
      · change Staged (Connection.wantreadwrite conn (w.setConn conn (Connection.addRecord buf true)))
        have hkeep : ∀ d, (((w.setConn conn (Connection.addRecord buf true)).conns d).connecting = (w.conns d).connecting ∧
            ((w.setConn conn (Connection.addRecord buf true)).conns d).tlsConnectSt = (w.conns d).tlsConnectSt) := by
          intro d
          rw [setConn_conns]
          split
          · next he => subst he; exact ⟨rfl,rfl⟩
          · exact ⟨rfl,rfl⟩
        rw [Connection.wantreadwrite_eq]
        refine h.quiet rfl (by simp) rfl hkeep (fun d => ?_) (Or.inl ⟨rfl,rfl⟩)
        by_cases he : d = conn
        · exact Or.inr (he ▸ h.established conn hc hq)
        · left
          have hother : (w.setConn conn (Connection.addRecord buf true)).conns d = w.conns d := by
            rw [setConn_conns,if_neg he]
          change (((w.setConn conn (Connection.addRecord buf true)).conns d).tls = _ ∧
            ((w.setConn conn (Connection.addRecord buf true)).conns d).tlsReadSt = _ ∧
            ((w.setConn conn (Connection.addRecord buf true)).conns d).tlsWriteSt = _ ∧
            (((w.setConn conn (Connection.addRecord buf true)).conns d).nrecs = _ ∨
              ((w.setConn conn (Connection.addRecord buf true)).conns d).nrecs = 0))
          rw [hother]
          exact ⟨rfl,rfl,rfl,Or.inl rfl⟩
  | note self operation ho hn hl hs => exact hlog self operation hn
  | want self =>
    rw [Connection.wantreadwrite_eq]
    exact { hlog self .wantreadwrite nofun with }
  | forget self => exact { h with }
  | turn self f hf => exact h.turn hf
  | shake self he hne =>
    have hstart : Staged (w.setConn self fun c => { c with connecting := 0 }) :=
      h.turn ⟨rfl,rfl,rfl,rfl,Or.inr hne,Or.inl rfl,Or.inl ⟨rfl,rfl,rfl⟩⟩
    have hticks : Staged ((w.setConn self fun c => { c with connecting := 0 }).setConn self fun c =>
        { c with tlsConnectTicks := CONNTICKS }) :=
      hstart.turn ⟨rfl,rfl,rfl,rfl,Or.inl rfl,Or.inl rfl,Or.inl ⟨rfl,rfl,rfl⟩⟩
    exact { hticks with }
  | calm t => exact { h with }
  | late self he hc hl hst => exact h.connected he.created (hst trivial)
  | establish self hc hst =>
    have hraised := h.connected (hcreated self hc) (hst trivial)
    have hevents : Staged ((w.log self .connected).setConn self fun c => { c with
        dataReceived := c.dataReceived.register () .connDataReceived 0
        dataSent := c.dataSent.register () .connDataSent 0 }) :=
      hraised.turn ⟨rfl,rfl,rfl,rfl,Or.inl rfl,Or.inl rfl,Or.inl ⟨rfl,rfl,rfl⟩⟩
    rw [IrcServer.connConnected,if_pos (show (w.log self .connected).server.conn = some self from hc)]
    refine { hevents with established := fun d hd _ => ?_, idle := fun hnone => ?_ }
    · obtain rfl : self = d := Option.some.inj (hc.symm.trans hd)
      exact ⟨⟨self,.connected,w.conns self⟩,List.mem_append_right _ List.mem_cons_self,rfl,rfl⟩
    · rw [show w.server.conn = none from hnone] at hc
      cases hc
  | close t self established hc hr =>
    have hs := close_shape (World.stage_opened.mp ((ht.opened self).mpr hc)).2 hr
    refine h.quiet hs.operations (by simp) hs.nconns (fun d => ?_) (fun d => Or.inl ?_) (Or.inr ⟨hs.conn,hs.queued⟩)
    · rw [hs.conns]
      by_cases he : d = self
      · subst he
        rw [Function.update_self]
        exact ⟨rfl,rfl⟩
      · rw [Function.update_of_ne he]
        exact ⟨rfl,rfl⟩
    · rw [hs.conns]
      by_cases he : d = self
      · subst he
        rw [Function.update_self]
        exact ⟨rfl,rfl,rfl,Or.inl rfl⟩
      · rw [Function.update_of_ne he]
        exact ⟨rfl,rfl,rfl,Or.inl rfl⟩
  | later self hself hc =>
    have hd : (w.conns self).deleteScheduled ≠ 0 :=
      fun hd => hc ((ht.opened self).mp (World.stage_opened.mpr ⟨hself,hd⟩))
    rw [Connection.deleteLater,if_neg hd]
    exact h
  | connect env hc =>
    rcases connect_creates env hc with he | ⟨fd,c,_,hs⟩
    · rw [he]
      exact h
    · exact h.creates hs hc

theorem destroys (h : Staged w) {c : ConnId} (hs : w.Destroys w' c) : Staged w' := by
  obtain ⟨-,h1,h2,h3,h4,h5⟩ := hs.fields
  refine h.quiet hs.operations (by simp) hs.nconns (fun d => ?_) (fun d => Or.inl ?_)
    (Or.inl ⟨hs.conn,by rw [hs.queued]⟩)
  · by_cases he : d = c
    · subst he
      exact ⟨h2,h3⟩
    · rw [hs.other d he]
      exact ⟨rfl,rfl⟩
  · by_cases he : d = c
    · subst he
      exact ⟨h1,h4,h5,Or.inr hs.nrecs⟩
    · rw [hs.other d he]
      exact ⟨rfl,rfl,rfl,Or.inl rfl⟩

end Staged

theorem Move.inOrder (hm : Move live True w w') (ht : Tracked w) (hs : Staged w) (h : w.InOrder) : w'.InOrder := by
  cases hm with
  | exchange he =>
    cases he with
    | same hs => exact h.of_eq hs.operations
    | write conn buf hc hq =>
      unfold Connection.write
      split
      · exact h
      · have hadd : (w.setConn conn (Connection.addRecord buf true)).InOrder := h.of_eq rfl
        exact hadd.want conn
  | note self operation ho hn hl htr =>
    exact h.log self operation fun hop htls => ⟨htr hop trivial htls,(hs.up self (htr hop trivial htls)).2⟩
  | want self => exact h.want self
  | forget self => exact h.of_eq rfl
  | turn self f => exact h.of_eq rfl
  | shake self => exact h.of_eq rfl
  | calm t => exact h.of_eq rfl
  | late self => exact h.log self .connected not_false.elim
  | establish self hc =>
    refine World.InOrder.of_eq (h.log self .connected not_false.elim) ?_
    unfold IrcServer.connConnected
    split <;> rfl
  | close t self established hc hr =>
    have ho := (close_shape (World.stage_opened.mp ((ht.opened self).mpr hc)).2 hr).operations
    have hdisc := h.log self .disconnected not_false.elim
    exact hdisc.append ⟨self,.close,w.conns self⟩ (ho.trans (by rw [World.log,List.append_assoc]; rfl)) not_false.elim
  | later self hself hc =>
    have hd : (w.conns self).deleteScheduled ≠ 0 :=
      fun hd => hc ((ht.opened self).mp (World.stage_opened.mpr ⟨hself,hd⟩))
    rw [Connection.deleteLater,if_neg hd]
    exact h
  | connect env hc =>
    rcases connect_creates env hc with he | ⟨fd,c,_,hcr⟩
    · rw [he]
      exact h
    · exact h.of_eq hcr.operations

/-- The connection whose readiness for reading is handled next. -/
def World.reader (w : World) : Option ConnId :=
  match w.service.todo with
  | .readyRead id :: _ => (w.callback w.service.readyRead id).map fun
    | .readConnection self => self
  | _ => none

instance (w : World) (self : ConnId) : Decidable (w.Up self) :=
  inferInstanceAs (Decidable (∃ e ∈ w.ghost.operations, e.self = self ∧ e.operation = .connected))

/-- A readiness for reading reaches a TLS connection only when its handshake waits for it or is done. -/
def Label.Awaited : Label → World → Prop
  | .next _, w => ∀ self ∈ w.reader, (w.conns self).tls = true → w.Up self ∨ (w.conns self).tlsConnectSt = .wantRead
  | _, _ => True

instance (l : Label) (w : World) : Decidable (l.Awaited w) :=
  match l with
  | .next _ => inferInstanceAs (Decidable (∀ self ∈ w.reader, (w.conns self).tls = true →
      w.Up self ∨ (w.conns self).tlsConnectSt = .wantRead))
  | .startup _ | .loop | .select _ | .join _ | .part _ | .sendCmd _ _ | .sendMsg _ _ _ | .setNick _
  | .disconnect | .otherRegister _ | .otherUnregister _ => instDecidableTrue

/-- What every state of these runs satisfies. -/
structure Shaken (w : World) : Prop where
  tracked : Tracked w
  staged : Staged w
  ordered : w.InOrder

namespace Shaken

theorem moves (h : Shaken w) (hm : ReflTransGen (Move False True) w w') : Shaken w' :=
  Effects.invariant (fun _ _ ht hs => ⟨(hs.passage ht.tracked).tracked ht.tracked,ht.staged.move ht.tracked hs,
    hs.inOrder ht.tracked ht.staged ht.ordered⟩) h hm

theorem next (hinv : Inv w) (h : Shaken w) {env : Env} (hl : (Label.next env).Awaited w)
    (hs : Service.next env w = .ok w') : Shaken w' := by
  rcases next_cases hs with ⟨-,rfl⟩ | ⟨event,rest,htodo,⟨-,rfl⟩ | ⟨-,rfl⟩ | ⟨t,hc,rfl⟩⟩
  · exact h
  · exact ⟨{ h.tracked with },{ h.staged with },h.ordered⟩
  · exact ⟨{ h.tracked with },{ h.staged with },h.ordered⟩
  · have ht : Shaken t := by
      by_cases hd : event = .eventsDone
      · subst hd
        obtain ⟨c,-,hclosed,hd⟩ := calls_destroys h.tracked hc
        exact ⟨h.tracked.destroys hclosed hd,h.staged.destroys hd,h.ordered.append _ hd.operations not_false.elim⟩
      · refine h.moves (calls_moves hinv h.tracked htodo hd hc nofun (fun _ => h.staged) fun _ self hr => ?_)
        obtain ⟨id,rest',htodo',hv⟩ := hr
        exact hl self (by simp [World.reader,htodo',hv.callback])
    exact ⟨{ ht.tracked with },{ ht.staged with },ht.ordered⟩

theorem step (hinv : Inv w) (h : Shaken w) {l : Label} (hl : l.Awaited w) (hs : World.step l w = .ok w') : Shaken w' := by
  by_cases hcall : l.IsCall
  · have hm : Moves False True w (World.step l w) := call_moves hinv hcall
    rw [hs] at hm
    exact h.moves hm
  cases l with
  | loop =>
    cases hs
    unfold Service.loop
    split
    · exact ⟨{ h.tracked with },{ h.staged with },h.ordered⟩
    · exact h
  | select ready =>
    rcases @select_moves w w' False True hinv ready hs with rfl | ⟨-,-,r,k,todo,-,-,-,hm⟩
    · exact h
    · have hat : Shaken (w.reposition r k todo w.service.slot false) :=
        ⟨h.tracked.reposition r k todo w.service.slot false,{ h.staged with },h.ordered⟩
      exact hat.moves hm
  | next env => exact h.next hinv hl hs
  | _ => exact absurd trivial hcall

end Shaken

/-- In a run in which a TLS connection is handed no readiness for reading that its handshake
does not wait for, it reads, writes and delivers data only behind `connected`, and never while
a handshake is pending. -/
theorem data_follows_handshake (h : Reaches World.step Label.Awaited World.Initial w) {pre post : List Entry}
    {e : Entry} (hlog : w.ghost.operations = pre ++ e :: post) (htls : e.conn.tls = true) :
    (e.operation = .dataReceived → ∃ d ∈ pre, d.self = e.self ∧ d.operation = .connected) ∧
      (e.operation = .sslRead ∨ e.operation = .sslWrite → e.conn.tlsConnectSt = .none) := by
  have hall := h.invariant (I := fun w => Inv w ∧ Shaken w) (fun _ hi => ⟨.initial hi,.initial hi,.initial hi,?_⟩)
    fun _ _ _ hi hl hs => ⟨World.step_inv hi.1 hs,hi.2.step hi.1 hl hs⟩
  · have hin := hall.2.ordered pre e post hlog
    refine ⟨fun hop => ?_,fun hop => ?_⟩
    · exact (hin (by rw [hop]; trivial) htls).1
    · exact (hin (by rcases hop with hop | hop <;> rw [hop] <;> trivial) htls).2
  · intro pre e post heq
    rw [hi.ghost] at heq
    simp at heq

/-- A TLS connection is initiated on descriptor 3 and asks for a readiness in its handshake. -/
def Label.shaking (st : TlsWant) : List Label :=
  .startup { Env.failing with socket := some 3 } ::
    iteration (.io [3] []) 1 2 { Env.failing with sockErr := false, sslConnect := .want st }

def World.secured : World := World.create (.create (lit "s") (lit "n") (some (lit "u")) (some (lit "r")) true) []

/-- The handshake waits to read, is completed, and data arrives. -/
def World.encrypted : World :=
  World.after (Label.shaking .wantRead ++ Label.iteration (.io [] [3]) 1 2 { Env.failing with sslConnect := .done } ++
    Label.iteration (.io [] [3]) 1 2 (.delivering Chunk.entered)) World.secured

theorem encrypted_data : ∃ pre e post, World.encrypted.ghost.operations = pre ++ e :: post ∧
    e.conn.tls = true ∧ e.operation = .dataReceived ∧ ∃ d ∈ pre, d.self = e.self ∧ d.operation = .connected := by
  have hreach : Reaches World.step Label.Awaited World.Initial World.encrypted :=
    World.reaches_after (.start (World.create_initial _ _ _ _ _ _)) (by decide +kernel)
  have hmem : ∃ e ∈ World.encrypted.ghost.operations, e.conn.tls = true ∧ e.operation = .dataReceived := by
    decide +kernel
  obtain ⟨e,he,htls,hop⟩ := hmem
  obtain ⟨pre,post,hlog⟩ := List.append_of_mem he
  exact ⟨pre,e,post,hlog,htls,hop,(data_follows_handshake hreach hlog htls).1 hop⟩

/-- The handshake waits to write, and the descriptor becomes ready for reading. -/
def World.early : World :=
  World.after (Label.shaking .wantWrite ++ Label.iteration (.io [] [3]) 1 2 (.delivering Chunk.entered)) World.secured

theorem early_data : World.early.Reachable ∧
    (∃ e ∈ World.early.ghost.operations, e.conn.tls = true ∧ e.operation = .dataReceived) ∧
    (∃ e ∈ World.early.ghost.operations, e.operation = .sslRead ∧ e.conn.tlsConnectSt = .wantWrite) ∧
    ∀ e ∈ World.early.ghost.operations, e.operation ≠ .connected := by
  refine ⟨World.after_reachable (.start (World.create_initial _ _ _ _ _ _)) ?_,?_,?_,?_⟩ <;> decide +kernel

end LibIrcBot
