import LibIrcBot.System.ServerEffects
import LibIrcBot.Protocol.MessageStream

/-! # Receiving

What `connDataReceived` hands to `handleMessage` is a function of the receive buffer and
of the bytes read. The handling itself is a sequence of changes.
-/
namespace LibIrcBot
open CString Effects Relation Outcome Framing

namespace IrcServer

/-- The messages one read completes, and what the receive buffer keeps. -/
def feed (recvbuf data : Bytes) : List IrcMessage × Bytes :=
  let buf := recvbuf ++ data
  let (msgs,pos) := IrcMessage.createAll buf (buf.length + 1) 0
  (msgs,keepRest buf pos)

def feeds : Bytes → List Bytes → List IrcMessage × Bytes
  | recvbuf, [] => ([],recvbuf)
  | recvbuf, data :: reads =>
    let (msgs,recvbuf) := feed recvbuf data
    let (msgs',recvbuf) := feeds recvbuf reads
    (msgs ++ msgs',recvbuf)

theorem keepRest_eq {buf rest : Bytes} {pos : ℕ} (h : buf.drop pos = rest) :
    keepRest buf pos = if rest.length > 4096 then [] else rest := by
  have hlen : rest.length = buf.length - pos := by rw [← h,List.length_drop]
  unfold keepRest
  by_cases he : pos = buf.length
  · have hnil : rest = [] := List.length_eq_zero_iff.mp (by omega)
    rw [if_pos he,hnil]
    rfl
  · rw [if_neg he,h,hlen]

theorem feed_eq (recvbuf data : Bytes) : feed recvbuf data =
    ((split CR LF (recvbuf ++ data)).1.filterMap IrcMessage.parse,
      if (split CR LF (recvbuf ++ data)).2.length > 4096 then [] else (split CR LF (recvbuf ++ data)).2) := by
  have hall := IrcMessage.createAll_eq [] (recvbuf ++ data) (Nat.lt_succ_self _)
  have hs := (splits_split (a := CR) (b := LF) (recvbuf ++ data)).eq
  rw [List.nil_append,List.length_nil,Nat.zero_add] at hall
  unfold feed
  dsimp only
  rw [hall]
  refine congrArg (Prod.mk _) (keepRest_eq ?_)
  have hlen := (congrArg List.length hs).trans List.length_append
  rw [show (recvbuf ++ data).length - (split CR LF (recvbuf ++ data)).2.length =
    (Framing.join CR LF (split CR LF (recvbuf ++ data)).1).length by omega]
  exact (congrArg (List.drop _) hs).trans List.drop_left

theorem feed_length (recvbuf data : Bytes) : (feed recvbuf data).2.length ≤ 4096 := by
  rw [feed_eq]
  dsimp only
  split
  · simp
  · omega

theorem feeds_append (recvbuf : Bytes) (xs ys : List Bytes) : feeds recvbuf (xs ++ ys) =
    ((feeds recvbuf xs).1 ++ (feeds (feeds recvbuf xs).2 ys).1,(feeds (feeds recvbuf xs).2 ys).2) := by
  induction xs generalizing recvbuf with
  | nil => rfl
  | cons data xs ih =>
    simp only [List.cons_append,feeds,ih,List.append_assoc]

theorem feeds_snoc (recvbuf : Bytes) (xs : List Bytes) (data : Bytes) : feeds recvbuf (xs ++ [data]) =
    ((feeds recvbuf xs).1 ++ (feed (feeds recvbuf xs).2 data).1,(feed (feeds recvbuf xs).2 data).2) := by
  rw [feeds_append]
  simp [feeds]

end IrcServer

/-- One change of the state during `connDataReceived`. -/
inductive Received : World → World → Prop where
  | change {w w' : World} (h : Change w w') : Received w w'
  | message (w : World) (m : IrcMessage) : Received w (IrcServer.logMessage m w)
  | buffer (w : World) (idleticks : ℤ) (received : List Bytes) (recvbuf : Bytes) : Received w { w with
      server.idleticks := idleticks
      server.recvbuf := recvbuf
      ghost.received := received }
  | login (w : World) (hst : w.server.connst = -1) : Received w { w with server.connst := -2 }

variable {w w' : World}

theorem Received.same (h : Received w w') : w.SameLink w' := by
  cases h with
  | change h => exact h.same.toSameLink
  | _ => exact ⟨rfl,rfl,rfl,rfl,rfl,rfl,rfl,rfl⟩

theorem same_of_received (h : ReflTransGen Received w w') : w.SameLink w' := by
  induction h with
  | refl => exact .refl w
  | tail _ h ih => exact ih.trans h.same

theorem Received.online (h : Received w w') (hw : w.Online) : w'.Online := by
  cases h with
  | change h => exact h.online hw
  | _ => exact ⟨hw.conn,hw.sendQueue⟩

theorem received_of_changes (h : ReflTransGen Change w w') : ReflTransGen Received w w' :=
  ReflTransGen.mono (fun _ _ h => .change h) _ _ h

namespace IrcServer

/-- The fault arises where a message is handled or the login data is sent. -/
def FromHandling (env : Env) (e : Fault × World) : Prop :=
  ∃ t, (∃ m, handleMessage env m t = .error e) ∨ sendLogin env t = .error e

/-- What is known when `msgs` are to be handled: of the state behind them all, and of a fault. -/
structure Delivered (w : World) (msgs : List IrcMessage) (w' : World) : Prop where
  steps : ReflTransGen Received w w'
  handled : w'.ghost.handled = w.ghost.handled ++ msgs
  recvbuf : w'.server.recvbuf = w.server.recvbuf
  received : w'.ghost.received = w.ghost.received

structure Undelivered (env : Env) (w : World) (msgs : List IrcMessage) (e : Fault × World) : Prop where
  steps : ∃ t, ReflTransGen Received w t ∧ Sound t e
  handled : e.2.ghost.handled <+: w.ghost.handled ++ msgs
  source : FromHandling env e

variable (env : Env)

theorem sendRawCmd_connst {cmd : IrcCommand} {args : Option Bytes} (h : sendRawCmd cmd args w = .ok w') :
    w'.server.connst = w.server.connst := by
  unfold sendRawCmd World.deref at h
  cases hcmd : cmd.str with
  | none => simp [hcmd,bind,Except.bind] at h
  | some name =>
    cases args with
    | none => simp [hcmd,bind,Except.bind] at h
    | some args =>
      rw [hcmd] at h
      exact (sendRaw_outputs h).same.connst

theorem handleIf_spec (hw : w.Online) (msg : Option IrcMessage) :
    Meets (Delivered w msg.toList) (Undelivered env w msg.toList) (handleIf env msg w) := by
  cases msg with
  | none => exact ⟨.refl,by simp,rfl,rfl⟩
  | some m =>
    have hm := handleMessage_changes env hw m
    change Meets _ _ (handleMessage env m w)
    cases h : handleMessage env m w with
    | ok w' =>
      rw [h] at hm
      have hs := same_of_changes hm
      exact ⟨.head (.message w m) (received_of_changes hm),hs.handled,hs.recvbuf,hs.received⟩
    | error e =>
      rw [h] at hm
      obtain ⟨t,ht,he⟩ := hm
      refine ⟨⟨t,.head (.message w m) (received_of_changes ht),he⟩,?_,⟨w,Or.inl ⟨m,h⟩⟩⟩
      rw [he.same.handled,(same_of_changes ht).handled]
      exact List.prefix_rfl

theorem online_of_received (h : ReflTransGen Received w w') (hw : w.Online) : w'.Online :=
  Effects.invariant (fun _ _ h hc => Received.online hc h) hw h

theorem receiveLoop_spec (n oldpos : ℕ) (hw : w.Online) (hpos : oldpos ≤ w.server.recvbuf.length)
    (hn : w.server.recvbuf.length < n + oldpos) :
    Meets (fun r => Delivered w (IrcMessage.createAll w.server.recvbuf n oldpos).1 r.2 ∧
        r.1 = (IrcMessage.createAll w.server.recvbuf n oldpos).2)
      (Undelivered env w (IrcMessage.createAll w.server.recvbuf n oldpos).1) (receiveLoop env n oldpos w) := by
  induction n generalizing w oldpos with
  | zero => omega
  | succ n ih =>
    rw [receiveLoop,IrcMessage.createAll]
    rcases IrcMessage.create_cases w.server.recvbuf oldpos with hc | ⟨msg,next,hc,hlt,hle⟩
    · rw [hc]
      simp only [↓reduceIte]
      exact ⟨⟨.refl,by simp,rfl,rfl⟩,rfl⟩
    · rw [hc]
      dsimp only
      rw [if_neg (by omega)]
      refine Meets.bind (P := Delivered w msg.toList) ?_ ?_
      · refine Meets.mono (handleIf_spec env hw msg) (fun _ h => h) (fun e he => ⟨he.steps,?_,he.source⟩)
        rw [← List.append_assoc]
        exact he.handled.trans (List.prefix_append _ _)
      · intro t ht
        rw [if_neg (by omega)]
        have hb := ht.recvbuf
        refine Meets.mono (ih next (online_of_received ht.steps hw) (by rwa [hb]) (by rw [hb]; omega)) ?_ ?_
        · rintro ⟨pos,u⟩ ⟨hu,he⟩
          rw [hb] at hu he
          refine ⟨⟨ht.steps.trans hu.steps,?_,hu.recvbuf.trans hb,hu.received.trans ht.received⟩,he⟩
          rw [hu.handled,ht.handled,List.append_assoc]
        · rintro e ⟨⟨u,hu,he⟩,hp,hsrc⟩
          refine ⟨⟨u,ht.steps.trans hu,he⟩,?_,hsrc⟩
          rw [ht.handled,List.append_assoc,hb] at hp
          exact hp

theorem loginNames_cases (env : Env) (w : World) :
    loginNames env w = .error (.outOfBounds,w) ∨ ∃ names, loginNames env w = .ok names := by
  unfold loginNames
  dsimp only
  split
  · exact Or.inr ⟨_,rfl⟩
  · split
    · split
      · exact Or.inr ⟨_,rfl⟩
      · exact Or.inl rfl
    · exact Or.inr ⟨_,rfl⟩

/-- The login data is sent by changes only; the state of the login follows. -/
theorem sendLogin_steps (hw : w.Online) (hst : w.server.connst = -1) :
    Meets (fun w' => ReflTransGen Received w w' ∧ w.SameConn w')
      (fun e => ∃ t, ReflTransGen Received w t ∧ w.SameConn t ∧ Sound t e) (sendLogin env w) := by
  have hchange : ∀ t cmd args, ReflTransGen Received w t → w.SameConn t → t.server.connst = -1 →
      Meets (fun u => ReflTransGen Received w u ∧ w.SameConn u ∧ u.server.connst = -1)
        (fun e => ∃ t, ReflTransGen Received w t ∧ w.SameConn t ∧ Sound t e) (sendRawCmd cmd (some args) t) := by
    intro t cmd args ht hs hst
    have hc := sendRawCmd_changes (online_of_received ht hw) cmd (some args)
    cases h : sendRawCmd cmd (some args) t with
    | ok u =>
      rw [h] at hc
      refine ⟨ht.trans (received_of_changes hc),hs.trans (same_of_changes hc),?_⟩
      rw [sendRawCmd_connst h,hst]
    | error e =>
      rw [h] at hc
      obtain ⟨u,hu,he⟩ := hc
      exact ⟨u,ht.trans (received_of_changes hu),hs.trans (same_of_changes hu),he⟩
  unfold sendLogin
  refine Meets.bind (hchange w _ _ .refl (.refl w) hst) ?_
  rintro t ⟨ht,hs,hst⟩
  rcases loginNames_cases env t with h | ⟨names,h⟩
  · rw [h]
    exact ⟨t,ht,hs,.refl t,nofun,nofun,nofun⟩
  · rw [h]
    refine Meets.bind (P := fun r => r = names) rfl ?_
    rintro _ rfl
    refine Meets.bind (hchange t _ _ ht hs hst) ?_
    rintro u ⟨hu,hs,hst⟩
    exact ⟨hu.tail (.login u hst),hs.trans ⟨⟨rfl,rfl,rfl,rfl,rfl,rfl,rfl,rfl⟩,rfl,rfl,rfl⟩⟩

/-- What `connDataReceived` does with one read on the server's connection. -/
structure Reads (w : World) (data : Bytes) (w' : World) : Prop where
  steps : ReflTransGen Received w w'
  handled : w'.ghost.handled = w.ghost.handled ++ (feed w.server.recvbuf data).1
  recvbuf : w'.server.recvbuf = (feed w.server.recvbuf data).2
  received : w'.ghost.received = w.ghost.received ++ [data]

theorem connDataReceived_spec {conn : ConnId} {data : Bytes} (hw : w.Online) (hc : w.server.conn = some conn)
    (hfit : w.server.recvbuf.length + data.length ≤ RECVBUFSZ) :
    Meets (Reads w data) (Undelivered env w (feed w.server.recvbuf data).1) (connDataReceived env conn data w) := by
  unfold connDataReceived
  rw [if_neg (not_not.mpr hc)]
  dsimp only
  rw [if_neg (by omega)]
  have hb := Received.buffer w IDLETICKS (w.ghost.received ++ [data]) (w.server.recvbuf ++ data)
  refine Meets.bind (Meets.mono (receiveLoop_spec env ((w.server.recvbuf ++ data).length + 1) 0 (hb.online hw)
    (Nat.zero_le _) (Nat.lt_succ_self _)) (fun _ h => h) ?_) ?_
  · rintro e ⟨⟨t,ht,he⟩,hp,hsrc⟩
    exact ⟨⟨t,.head hb ht,he⟩,hp,hsrc⟩
  · rintro ⟨pos,t⟩ ⟨ht,rfl⟩
    dsimp only at ht ⊢
    have hkeep : keepRest t.server.recvbuf
        (IrcMessage.createAll (w.server.recvbuf ++ data) ((w.server.recvbuf ++ data).length + 1) 0).2 =
          (feed w.server.recvbuf data).2 := by rw [ht.recvbuf]; rfl
    rw [hkeep]
    have hb' := Received.buffer t t.server.idleticks t.ghost.received (feed w.server.recvbuf data).2
    have hsteps := (ReflTransGen.head hb ht.steps).tail hb'
    split
    · next hst =>
      have hlogin := sendLogin_steps env (online_of_received hsteps hw) hst
      cases h : sendLogin env { t with server.recvbuf := (feed w.server.recvbuf data).2 } with
      | ok u =>
        rw [h] at hlogin
        obtain ⟨hu,hs⟩ := hlogin
        exact ⟨hsteps.trans hu,hs.handled.trans ht.handled,hs.recvbuf,hs.received.trans ht.received⟩
      | error e =>
        rw [h] at hlogin
        obtain ⟨u,hu,hs,he⟩ := hlogin
        refine ⟨⟨u,hsteps.trans hu,he⟩,?_,⟨_,Or.inr h⟩⟩
        rw [he.same.handled.trans (hs.handled.trans ht.handled)]
        exact List.prefix_rfl
    · exact ⟨hsteps,ht.handled,rfl,ht.received⟩

/-- Data on any other connection is ignored. -/
theorem connDataReceived_other {conn : ConnId} (data : Bytes) (h : w.server.conn ≠ some conn) :
    connDataReceived env conn data w = .ok w := by
  rw [connDataReceived,if_pos h]

end IrcServer
end LibIrcBot
