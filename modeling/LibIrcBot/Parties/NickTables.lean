import LibIrcBot.Parties.Model
import LibIrcBot.Properties.PrefixNicks

/-! # The nick tables

Of the functions of a channel only the handlers of messages touch the table of nicks, each that of
its own channel. What a notice of the server does to it depends on the notice alone.
-/
namespace LibIrcBot
open CString Effects Relation Outcome

variable {w w' : World} {self : ChanId} {own channel : Bytes}

def World.nicks (w : World) (self : ChanId) : IBHashTable Bytes Unit := (w.chans self).nicks

abbrev KeepsNicks (w : World) (r : Run) : Prop := Meets (fun t => t.nicks = w.nicks) (fun _ => True) r

theorem nicks_of_update {c : IrcChannel} (h : w'.chans = Function.update w.chans self c) :
    w'.nicks = Function.update w.nicks self c.nicks := by
  funext d
  rw [World.nicks,h]
  by_cases hd : d = self
  · rw [hd,Function.update_self,Function.update_self]
  · rw [Function.update_of_ne hd,Function.update_of_ne hd]
    rfl

theorem nicks_update {c : IrcChannel} (h : w'.chans = Function.update w.chans self c)
    (hc : c.nicks = (w.chans self).nicks) : w'.nicks = w.nicks := by
  rw [nicks_of_update h,hc]
  exact Function.update_eq_self self w.nicks

theorem KeepsNicks.after {v : World} {r : Run} (h : KeepsNicks v r) (hw : v.nicks = w.nicks) : KeepsNicks w r :=
  Meets.mono h (fun _ ht => ht.trans hw) fun _ he => he

theorem World.Outputs.nicks (h : w.Outputs w') : w'.nicks = w.nicks := by
  obtain ⟨_,_,_,_,_,_,_,_,_,_,_,_,rfl⟩ := h
  rfl

theorem sendCmd_nicks {cmd : IrcCommand} (hcmd : cmd.str.isSome) (args : Bytes) (w : World) :
    Meets (fun r => r.2.nicks = w.nicks) (fun _ => True) (IrcServer.sendCmd cmd args w) := by
  by_cases hst : w.server.connst ≤ 0
  · rw [sendCmd_loggedOut cmd args hst]
    exact rfl
  · rw [sendCmd_loggedIn cmd args (not_le.mp hst)]
    refine Meets.bind (Meets.mono (IrcServer.sendRawCmd_spec hcmd args w) (fun _ ht => ht.nicks) fun _ _ => trivial) ?_
    exact fun _ ht => ht

theorem raise_nicks {η : Type} {event : World → Listeners η} {call : η → World → Run} {i : ℤ}
    (hcall : ∀ h t, KeepsNicks t (call h t)) (w : World) : KeepsNicks w (w.raise event call i) :=
  raise_invariant (I := fun t => t.nicks = w.nicks) (fun h t ht => (hcall h t).after ht) rfl

theorem dispatch_nicks (hdl : Option IrcBotEventHandler) (e : IrcBotEvent) (w : World) :
    KeepsNicks w (.ok (IrcBot.dispatch hdl e w)) := by
  obtain ⟨_,h⟩ := IrcBot.dispatch_shape hdl e w
  rw [h]
  exact rfl

namespace IrcChannel

theorem raiseParted_nicks (self : ChanId) (w : World) : KeepsNicks w (raiseParted self w) :=
  raise_nicks (fun _ t => raise_nicks (fun h _ => h.elim) t) w

theorem raiseJoined_nicks (self : ChanId) (w : World) : KeepsNicks w (raiseJoined self w) := by
  refine raise_nicks (fun _ t => raise_nicks (fun _ u => ?_) t) w
  obtain ⟨_,h⟩ := IrcBot.chanJoined_shape self u
  change World.nicks (IrcBot.chanJoined self u) = u.nicks
  rw [h]
  exact nicks_update rfl rfl

theorem raiseEntered_nicks (self : ChanId) (nick : Bytes) (w : World) : KeepsNicks w (raiseEntered self nick w) :=
  raise_nicks (fun _ t => dispatch_nicks _ _ t) w

theorem raiseLeft_nicks (self : ChanId) (nick : Bytes) (w : World) : KeepsNicks w (raiseLeft self nick w) :=
  raise_nicks (fun _ t => dispatch_nicks _ _ t) w

theorem join_nicks (self : ChanId) (w : World) : KeepsNicks w (join self w) := by
  unfold join
  split
  · exact rfl
  · refine KeepsNicks.after (v := w.setChan self fun c => { c with wantJoined := true }) ?_
      (nicks_update rfl rfl)
    refine Meets.bind (sendCmd_nicks (by decide) _ _) ?_
    rintro ⟨rc,t⟩ ht
    dsimp only
    split
    · exact ht
    · refine Eq.trans ?_ ht
      exact nicks_update rfl rfl

theorem joinAgain_nicks (self : ChanId) (w : World) :
    KeepsNicks w (join self (w.setChan self fun c => { c with wantJoined := false })) :=
  (join_nicks self _).after (nicks_update rfl rfl)

theorem part_nicks (self : ChanId) (w : World) : KeepsNicks w (part self w) := by
  unfold part
  refine KeepsNicks.after (v := unregisterTimers self (w.setChan self fun c => { c with wantJoined := false })) ?_
    (nicks_update rfl rfl)
  dsimp only
  split
  · refine Meets.bind (sendCmd_nicks (by decide) _ _) ?_
    rintro ⟨rc,t⟩ ht
    refine (raiseParted_nicks self _).after (Eq.trans ?_ ht)
    exact nicks_update rfl rfl
  · exact rfl

theorem joinOnConnect_nicks (self : ChanId) (w : World) : KeepsNicks w (joinOnConnect self w) :=
  (joinAgain_nicks self _).after rfl

theorem disconnected_nicks (self : ChanId) (w : World) : KeepsNicks w (disconnected self w) := by
  have hlast : ∀ t : World, KeepsNicks t (if (t.chans self).isJoined then
      raiseParted self (t.setChan self fun c => { c with isJoined := false }) else .ok t) := by
    intro t
    split
    · exact (raiseParted_nicks self _).after (nicks_update rfl rfl)
    · exact rfl
  unfold disconnected
  dsimp only
  refine (hlast _).after ?_
  split <;> rfl

theorem waitjoin_nicks (self : ChanId) (w : World) : KeepsNicks w (waitjoin self w) := by
  unfold waitjoin
  refine KeepsNicks.after (v := w.setChan self fun c => { c with joinsyncticks := c.joinsyncticks - 1 }) ?_
    (nicks_update rfl rfl)
  dsimp only
  split
  · refine Meets.bind (sendCmd_nicks (by decide) _ _) ?_
    rintro ⟨rc,t⟩ ht
    refine Eq.trans ?_ ht
    exact nicks_update rfl rfl
  · exact rfl

theorem waitrejoin_nicks (self : ChanId) (w : World) : KeepsNicks w (waitrejoin self w) := by
  unfold waitrejoin
  refine KeepsNicks.after (v := w.setChan self fun c => { c with rejointicks := c.rejointicks - 1 }) ?_
    (nicks_update rfl rfl)
  dsimp only
  split
  · exact (joinAgain_nicks self _).after rfl
  · exact rfl

end IrcChannel

theorem nicks_ok {r : Run} (h : KeepsNicks w r) (hr : r = .ok w') : w'.nicks = w.nicks := by
  rw [hr] at h
  exact h

theorem deleteChannel_nicks (name : Bytes) (self : ChanId) (w : World) :
    (IrcServer.deleteChannel name (IrcChannel.destroy self (IrcServer.unregisterChannel self w))).nicks = w.nicks := by
  obtain ⟨_,_,h⟩ := remove_shape name self (IrcServer.unregisterChannel self w)
  rw [h]
  exact nicks_update rfl rfl

theorem part_nicks (name : Bytes) (w : World) : KeepsNicks w (IrcServer.part name w) := by
  unfold IrcServer.part
  split
  · next chan _ =>
    refine Meets.bind (IrcChannel.part_nicks chan _) fun t ht => ?_
    exact (deleteChannel_nicks name chan t).trans ht
  · exact rfl

/-- Calls other than the handling of a message leave the nick tables alone. -/
theorem Does.nicks {l : Call} (h : Does l w w') (hl : ∀ self m, l ≠ .handleMsg self m) : w'.nicks = w.nicks := by
  cases h with
  | join self _ h => exact nicks_ok (IrcChannel.join_nicks self w) h
  | part self _ h => exact nicks_ok (part_nicks _ w) h
  | joinOnConnect self _ _ h => exact nicks_ok (IrcChannel.joinOnConnect_nicks self w) h
  | waitjoin self _ h => exact nicks_ok (IrcChannel.waitjoin_nicks self w) h
  | waitrejoin self _ h => exact nicks_ok (IrcChannel.waitrejoin_nicks self w) h
  | handleMsg self env m _ _ => exact absurd rfl (hl self m)
  | jobs jobs => rfl

theorem nickOf_user {nick : Bytes} (h : ValidNick nick) (host : Bytes) : nickOf (userPrefix nick host) = nick := by
  have hbang : lit "!" ++ host = BANG :: host := rfl
  have hall : ∀ c ∈ nick, decide (c ≠ BANG) = true := fun c hc => decide_eq_true (h.2.2 c hc).2.1
  rw [nickOf,userPrefix,List.append_assoc,hbang,List.takeWhile_append_of_pos hall,
    List.takeWhile_cons_of_neg (by simp),List.append_nil]

theorem scanNick_user {nick host : Bytes} (h : ValidNick nick) (env : Env) {m : IrcMessage}
    (hm : m.msgPrefix = some (userPrefix nick host)) (w : World) : IrcChannel.scanNick env m w = .ok nick := by
  rw [scanNick_buf env hm,nickOf_user h,if_neg h.1,List.take_of_length_le (Nat.le_succ_of_le h.2.1)]

theorem ownPrefix_user {nick host : Bytes} (h : ValidNick nick) {m : IrcMessage}
    (hm : m.msgPrefix = some (userPrefix nick host)) (w : World) :
    IrcServer.ownPrefix m w = .ok (decide (nick = w.server.nick)) := by
  rw [ownPrefix_eq hm,nickOf_user h]

namespace IrcChannel

theorem words_append {word : Bytes} (h : ∀ c ∈ word, c ≠ SPACE) (rest : Bytes) :
    words (word ++ SPACE :: rest) = word :: words rest := by
  induction word with
  | nil => rw [List.nil_append,words,if_pos rfl]
  | cons c word ih =>
    rw [List.cons_append,words,if_neg (h c List.mem_cons_self),ih fun d hd => h d (List.mem_cons_of_mem _ hd)]

theorem words_single {word : Bytes} (h : ∀ c ∈ word, c ≠ SPACE) : words word = [word] := by
  induction word with
  | nil => rfl
  | cons c word ih =>
    rw [words,if_neg (h c List.mem_cons_self),ih fun d hd => h d (List.mem_cons_of_mem _ hd)]

theorem words_intercalate {ws : List Bytes} (hne : ws ≠ []) (h : ∀ word ∈ ws, ∀ c ∈ word, c ≠ SPACE) :
    words ([SPACE].intercalate ws) = ws := by
  induction ws with
  | nil => exact absurd rfl hne
  | cons word ws ih =>
    cases ws with
    | nil => simpa [List.intercalate] using words_single (h word List.mem_cons_self)
    | cons word' ws =>
      have hrest := ih (List.cons_ne_nil _ _) fun v hv => h v (List.mem_cons_of_mem _ hv)
      have hsplit : [SPACE].intercalate (word :: word' :: ws) = word ++ SPACE :: [SPACE].intercalate (word' :: ws) := by
        simp [List.intercalate]
      rw [hsplit,words_append (h word List.mem_cons_self),hrest]

/-- A name of a list is read without its sign, unless that is a plus. -/
theorem listedNick_name {name : Option Sign × Bytes} (h : ValidNick name.2) (own : Bytes) :
    listedNick own ((name.1.map Sign.char).toList ++ name.2) = if listed name = own then none else some (listed name) := by
  obtain ⟨sign,nick⟩ := name
  have hskip : (if ((sign.map Sign.char).toList ++ nick).head? = some 0x40 ||
      ((sign.map Sign.char).toList ++ nick).head? = some 0x25 then ((sign.map Sign.char).toList ++ nick).tail
      else (sign.map Sign.char).toList ++ nick) = listed (sign,nick) := by
    cases sign with
    | some sign => cases sign <;> rfl
    | none =>
      have hat : nick.head? ≠ some 0x40 := fun hc => (h.2.2 _ (List.mem_of_head? hc)).2.2.1 rfl
      have hpercent : nick.head? ≠ some 0x25 := fun hc => (h.2.2 _ (List.mem_of_head? hc)).2.2.2 rfl
      simp [hat,hpercent,listed]
  have hne : listed (sign,nick) ≠ [] := by
    unfold listed
    split
    · exact List.cons_ne_nil _ _
    · exact h.1
  unfold listedNick
  rw [hskip]
  by_cases ho : listed (sign,nick) = own
  · simp [ho]
  · simp [ho,hne]

end IrcChannel

def UserChange.named : UserChange → List Bytes
  | .join nick _ | .part nick _ _ | .quit nick _ _ | .kick nick _ _ => [nick]
  | .rename nick _ new => [nick,new]

/-- The notice names the bot where it is about the bot, and others where it is about others. -/
def Notice.Valid (own : Bytes) : Notice → Prop
  | .names line => ∀ name ∈ line, ValidNick name.2
  | .user change => ∀ nick ∈ change.named, ValidNick nick ∧ nick ≠ own
  | _ => True

section Store
variable (channel own : Bytes)

/-- The table after a change of a user; the object under a nick is the name of the channel. -/
def UserChange.store (table : IBHashTable Bytes Unit) : UserChange → IBHashTable Bytes Unit
  | .join nick _ => (table.set nick channel none).2
  | .part nick _ _ | .quit nick _ _ | .kick nick _ _ => (table.delete nick).2.2
  | .rename nick _ new =>
    if (table.delete nick).1 then ((table.delete nick).2.2.set new channel none).2 else (table.delete nick).2.2

def NameLine.store (table : IBHashTable Bytes Unit) (line : NameLine) : IBHashTable Bytes Unit :=
  line.foldl (fun table name => if listed name = own then table else (table.set (listed name) channel none).2) table

def Notice.store (table : IBHashTable Bytes Unit) : Notice → IBHashTable Bytes Unit
  | .names line => line.store channel own table
  | .parted _ _ => (table.delete own).2.2
  | .user change => change.store channel table
  | _ => table

end Store

abbrev Stores (self : ChanId) (table : IBHashTable Bytes Unit) (w : World) (r : Run) : Prop :=
  Meets (fun t => t.nicks = Function.update w.nicks self table) (fun _ => True) r

theorem KeepsNicks.stores {r : Run} (h : KeepsNicks w r) : Stores self (w.nicks self) w r :=
  Meets.mono h (fun _ ht => ht.trans (Function.update_eq_self self w.nicks).symm) fun _ he => he

theorem KeepsNicks.behind {r : Run} {table : IBHashTable Bytes Unit} (h : KeepsNicks w' r)
    (hw : w'.nicks = Function.update w.nicks self table) : Stores self table w r :=
  Meets.mono h (fun _ ht => ht.trans hw) fun _ he => he

namespace IrcChannel

theorem setNick_nicks (self : ChanId) (nick : Bytes) (w : World) : (setNick self nick w).nicks =
    Function.update w.nicks self ((w.nicks self).set nick (w.chans self).name none).2 :=
  have hset : (setNick self nick w).chans = Function.update w.chans self { w.chans self with
    nicks := ((w.nicks self).set nick (w.chans self).name none).2 } := rfl
  nicks_of_update hset

theorem deleteNick_nicks (self : ChanId) (nick : Bytes) (w : World) : (deleteNick self nick w).2.nicks =
    Function.update w.nicks self ((w.nicks self).delete nick).2.2 :=
  have hset : (deleteNick self nick w).2.chans = Function.update w.chans self { w.chans self with
    nicks := ((w.nicks self).delete nick).2.2 } := rfl
  nicks_of_update hset

theorem deleteNick_stores (self : ChanId) (nick : Bytes) (w : World) : Stores self ((w.nicks self).delete nick).2.2 w
    (if (deleteNick self nick w).1 then raiseLeft self nick (deleteNick self nick w).2
      else .ok (deleteNick self nick w).2) := by
  split
  · exact (raiseLeft_nicks self nick _).behind (deleteNick_nicks self nick w)
  · exact deleteNick_nicks self nick w

theorem handleQuit_stores {nick host : Bytes} (h : ValidNick nick) (env : Env) {m : IrcMessage}
    (hm : m.msgPrefix = some (userPrefix nick host)) (w : World) :
    Stores self ((w.nicks self).delete nick).2.2 w (handleQuit self env m w) := by
  rw [handleQuit,scanNick_user h env hm]
  exact deleteNick_stores self nick w

/-- The loop over the words of a line of names. -/
theorem listNicks_nicks {line : NameLine} (h : ∀ name ∈ line, ValidNick name.2) (hname : (w.chans self).name = channel) :
    ((line.map fun name => (name.1.map Sign.char).toList ++ name.2).foldl
      (fun w word =>
        match listedNick w.server.nick word with
        | some nick => setNick self nick w
        | none => w) w).nicks = Function.update w.nicks self (line.store channel w.server.nick (w.nicks self)) := by
  induction line generalizing w with
  | nil => exact (Function.update_eq_self self w.nicks).symm
  | cons name line ih =>
    have hrest : ∀ name ∈ line, ValidNick name.2 := fun n hn => h n (List.mem_cons_of_mem _ hn)
    rw [List.map_cons,List.foldl_cons,listedNick_name (h name List.mem_cons_self),NameLine.store,List.foldl_cons]
    by_cases ho : listed name = w.server.nick
    · rw [if_pos ho,if_pos ho]
      exact ih hrest hname
    · rw [if_neg ho,if_neg ho]
      dsimp only
      have hset : ((setNick self (listed name) w).chans self).name = channel := by
        rw [setNick,setChan_self]
        exact hname
      rw [ih hrest hset,setNick_nicks,Function.update_self,Function.update_idem,hname]
      rfl

section Handlers
variable {m : IrcMessage} {params : List Bytes} (env : Env)

theorem handleJoin_named (hp : m.params = channel :: params) (hname : (w.chans self).name = channel) :
    handleJoin self env m w = (do
      let buf ← scanNick env m w
      if buf ≠ w.server.nick then raiseEntered self buf (setNick self buf w) else pure w) := by
  rw [handleJoin,hp]
  change (if channel = (w.chans self).name then _ else _) = _
  rw [if_pos hname.symm]

theorem handlePart_named (hp : m.params = channel :: params) (hname : (w.chans self).name = channel) :
    handlePart self env m w = handleQuit self env m w := by
  rw [handlePart,hp]
  change (if channel = (w.chans self).name then _ else _) = _
  rw [if_pos hname.symm]

/-- The kick of another user. -/
theorem handleKick_stores {nick : Bytes} (hp : m.params = channel :: nick :: params)
    (hname : (w.chans self).name = channel) (ho : nick ≠ w.server.nick) :
    Stores self ((w.nicks self).delete nick).2.2 w (handleKick self m w) := by
  rw [handleKick,hp]
  simp only [List.length_cons]
  rw [if_pos (by omega)]
  change Stores _ _ _ (if channel = (w.chans self).name then _ else _)
  rw [if_pos hname.symm]
  change Stores _ _ _ (if nick = w.server.nick then _ else _)
  rw [if_neg ho]
  exact deleteNick_stores self nick w

/-- The kick of the bot. -/
theorem handleKick_nicks (hp : m.params = channel :: w.server.nick :: params) (hname : (w.chans self).name = channel) :
    KeepsNicks w (handleKick self m w) := by
  rw [handleKick,hp]
  simp only [List.length_cons]
  rw [if_pos (by omega)]
  change KeepsNicks _ (if channel = (w.chans self).name then _ else _)
  rw [if_pos hname.symm]
  change KeepsNicks _ (if w.server.nick = w.server.nick then _ else _)
  rw [if_pos rfl]
  have hset : (w.setChan self fun c => { c with isJoined := false }).nicks = w.nicks := nicks_update rfl rfl
  refine (raiseParted_nicks self _).after ?_
  split
  · refine Eq.trans ?_ hset
    exact nicks_update rfl rfl
  · exact hset

theorem handleNamreply_stores {line : NameLine} (h : ∀ name ∈ line, ValidNick name.2) {client symbol : Bytes}
    (hp : m.params = [client,symbol,channel,line.text]) (hname : (w.chans self).name = channel) :
    Stores self (line.store channel w.server.nick (w.nicks self)) w (handleNamreply self m w) := by
  rw [handleNamreply,hp,if_pos (show [client,symbol,channel,line.text].length = 4 from rfl)]
  change Stores _ _ _ (if channel = (w.chans self).name then _ else _)
  rw [if_pos hname.symm]
  change World.nicks ((words line.text).foldl _ w) = _
  by_cases hl : line = []
  · -- The empty string is one word, which is no nick.
    subst hl
    exact (Function.update_eq_self self w.nicks).symm
  · have hwords : words line.text = line.map fun name => (name.1.map Sign.char).toList ++ name.2 := by
      refine words_intercalate (by simpa using hl) fun word hword c hc => ?_
      obtain ⟨name,hmem,rfl⟩ := List.mem_map.mp hword
      rcases List.mem_append.mp hc with hc | hc
      · cases hs : name.1 with
        | none => simp [hs] at hc
        | some sign =>
          rw [hs] at hc
          obtain rfl := List.mem_singleton.mp hc
          cases sign <;> decide
      · exact ((h name hmem).2.2 c hc).1
    rw [hwords]
    exact listNicks_nicks h hname

theorem handleEndofnames_nicks {client text : Bytes} (hp : m.params = [client,channel,text])
    (hname : (w.chans self).name = channel) : KeepsNicks w (handleEndofnames self m w) := by
  rw [handleEndofnames,hp]
  simp only [List.length_cons,List.length_nil]
  rw [if_pos (by omega)]
  change KeepsNicks _ (if channel = (w.chans self).name then _ else _)
  rw [if_pos hname.symm]
  exact (raiseJoined_nicks self _).after (nicks_update rfl rfl)

theorem handleNick_stores {nick host new : Bytes} (h : ValidNick nick) (hm : m.msgPrefix = some (userPrefix nick host))
    (hp : m.params = [new]) (hname : (w.chans self).name = channel) :
    Stores self ((UserChange.rename nick host new).store channel (w.nicks self)) w (handleNick self env m w) := by
  rw [handleNick,hp,if_pos (show [new].length = 1 from rfl),scanNick_user h env hm]
  change Stores _ (if (deleteNick self nick w).1 then _ else _) _ (if (deleteNick self nick w).1 then _ else _)
  split
  · have hchan : ((deleteNick self nick w).2.chans self).name = channel := by
      rw [deleteNick,setChan_self]
      exact hname
    change World.nicks (setNick self new (deleteNick self nick w).2) = _
    rw [setNick_nicks,deleteNick_nicks,Function.update_self,Function.update_idem,hchan]
  · exact deleteNick_nicks self nick w

end Handlers

/-- What a notice does to the table of a channel with its name. -/
theorem handleMsg_stores (env : Env) {n : Notice} (hn : n.Valid w.server.nick) (ho : ValidNick w.server.nick)
    (hname : (w.chans self).name = channel) :
    Stores self (n.store channel w.server.nick (w.nicks self)) w
      (handleMsg self env (n.message channel w.server.nick) w) := by
  cases n with
  | joined host =>
    change Stores _ _ _ (handleJoin self env _ w)
    rw [handleJoin_named env rfl hname,scanNick_user ho env rfl]
    change Stores _ _ _ (if w.server.nick ≠ w.server.nick then _ else _)
    rw [if_neg (fun hne => hne rfl)]
    exact (Function.update_eq_self self w.nicks).symm
  | names line => exact handleNamreply_stores hn rfl hname
  | endOfNames => exact (handleEndofnames_nicks rfl hname).stores
  | parted host reason =>
    change Stores _ _ _ (handlePart self env _ w)
    rw [handlePart_named env rfl hname]
    exact handleQuit_stores ho env rfl w
  | kicked op reason => exact (handleKick_nicks rfl hname).stores
  | user change =>
    cases change with
    | join nick host =>
      obtain ⟨hv,hne⟩ := hn nick List.mem_cons_self
      change Stores _ _ _ (handleJoin self env _ w)
      rw [handleJoin_named env rfl hname,scanNick_user hv env rfl]
      change Stores _ _ _ (if nick ≠ w.server.nick then _ else _)
      rw [if_pos hne]
      refine (raiseEntered_nicks self nick _).behind ?_
      rw [setNick_nicks,hname]
      rfl
    | part nick host reason =>
      change Stores _ _ _ (handlePart self env _ w)
      rw [handlePart_named env rfl hname]
      exact handleQuit_stores (hn nick List.mem_cons_self).1 env rfl w
    | quit nick host reason => exact handleQuit_stores (hn nick List.mem_cons_self).1 env rfl w
    | rename nick host new => exact handleNick_stores env (hn nick List.mem_cons_self).1 rfl rfl hname
    | kick nick op reason => exact handleKick_stores rfl hname (hn nick List.mem_cons_self).2

end IrcChannel

end LibIrcBot
