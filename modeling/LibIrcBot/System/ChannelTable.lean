import LibIrcBot.System.Loop

/-! # The table of channels

The table owns the channels: each entry carries the deleter, and as long as no channel is
removed it holds every channel that was ever created. A channel listens to messages exactly
while it is in the table.
-/
namespace LibIrcBot
open CString Effects Relation Outcome

variable {w w' : World}

/-- The table of channels, and what it owns until a channel is removed. -/
structure Owned (w : World) : Prop where
  wf : w.server.channels.Wf
  bits : w.server.channels.bits = 6
  deleter : ∀ i, ∀ e ∈ w.server.channels.bucket i, e.deleter = some .destroyIrcChannel
  kept : w.ghost.removed = [] → w.ghost.destroyed = [] ∧
    (w.server.channels.entries.map IBHashTableEntry.obj).Perm (List.range w.nchans)

/-- A new name adds an entry and calls no deleter. -/
theorem addChannel_new {name : Bytes} (h : w.server.channels.get name = none) :
    (IrcServer.addChannel name w).2 = { IrcServer.registerChannel w.nchans (IrcChannel.create name w).2 with
      server.channels := (w.server.channels.set name w.nchans (some .destroyIrcChannel)).2 } := by
  have hset : ∀ t : World, t.server.channels.find name = none → IrcServer.setChannel name w.nchans t =
      { t with server.channels := (t.server.channels.set name w.nchans (some .destroyIrcChannel)).2 } := by
    intro t hf
    unfold IrcServer.setChannel IBHashTable.set
    rw [hf]
  exact hset _ (Option.map_eq_none_iff.mp h)

namespace Owned

theorem effect (h : Owned w) (he : Effect w w') : Owned w' := by
  cases he with
  | send _ cmd args hcmd _ hs =>
    obtain ⟨_,_,_,_,_,_,_,_,_,_,_,_,rfl⟩ := sendRawCmd_outputs hcmd hs
    exact { h with }
  | removed self =>
    exact { h with kept := fun hr => absurd hr (List.append_ne_nil_of_right_ne_nil _ (List.cons_ne_nil _ _)) }
  | remove self hmem =>
    obtain ⟨_,_,he⟩ := remove_shape (w.chans self).name self w
    rw [he]
    refine ⟨IBHashTable.delete_wf h.wf _,(IBHashTable.delete_bits _ _).trans h.bits,fun i e hmem => ?_,fun hr => ?_⟩
    · change e ∈ (w.server.channels.delete (w.chans self).name).2.2.bucket i at hmem
      rw [IBHashTable.delete_bucket] at hmem
      by_cases hi : i = hashstr (w.chans self).name w.server.channels.bits
      · rw [hi,Function.update_self] at hmem
        exact h.deleter _ e (List.mem_of_mem_eraseP hmem)
      · rw [Function.update_of_ne hi] at hmem
        exact h.deleter i e hmem
    · change w.ghost.removed = [] at hr
      rw [hr] at hmem
      cases hmem
  | _ => exact { h with }

theorem addChannel (h : Owned w) {name : Bytes} (hget : w.server.channels.get name = none) :
    Owned (IrcServer.addChannel name w).2 := by
  have hf : w.server.channels.find name = none := Option.map_eq_none_iff.mp hget
  rw [addChannel_new hget]
  refine ⟨IBHashTable.set_wf h.wf _ _ _,(IBHashTable.set_bits _ _ _ _).trans h.bits,fun i e hmem => ?_,fun hr => ?_⟩
  · change e ∈ (w.server.channels.set name w.nchans (some .destroyIrcChannel)).2.bucket i at hmem
    rw [IBHashTable.set_bucket] at hmem
    by_cases hi : i = hashstr name w.server.channels.bits
    · rw [hi,Function.update_self] at hmem
      rcases IBHashTable.mem_put hmem with ⟨_,rfl⟩ | hmem
      · rfl
      · exact h.deleter _ e hmem
    · rw [Function.update_of_ne hi] at hmem
      exact h.deleter i e hmem
  · obtain ⟨hd,hp⟩ := h.kept hr
    refine ⟨hd,?_⟩
    have hset := IBHashTable.entries_set_perm hf (by rw [h.bits]; decide) w.nchans (some Deleter.destroyIrcChannel)
    change ((w.server.channels.set name w.nchans (some .destroyIrcChannel)).2.entries.map _).Perm
      (List.range (w.nchans + 1))
    rw [List.range_succ]
    exact ((hset.map IBHashTableEntry.obj).trans (hp.cons w.nchans)).trans (List.perm_append_singleton _ _).symm

theorem effects (h : Owned w) (he : ReflTransGen Effect w w') : Owned w' :=
  Effects.invariant (fun _ _ ht hs => Owned.effect ht hs) h he

theorem change (h : Owned w) (hc : Change w w') : Owned w' := by
  cases hc with
  | call hd => exact h.effects hd.effects
  | send _ command _ hs =>
    obtain ⟨_,_,_,_,_,_,_,_,_,_,_,_,rfl⟩ := sendRaw_outputs hs
    exact { h with }
  | addChannel name hget => exact h.addChannel hget
  | _ => exact { h with }

theorem received (h : Owned w) (hr : Received w w') : Owned w' := by
  cases hr with
  | change hc => exact h.change hc
  | _ => exact { h with }

theorem action (h : Owned w) (ha : Action w w') : Owned w' := by
  cases ha with
  | change hc => exact h.change hc
  | receive _ data hw hr => exact Effects.invariant (fun _ _ ht hs => Owned.received ht hs) h hr.steps
  | establish conn hc hq hst =>
    rw [IrcServer.connConnected,if_pos hc]
    exact { h with }
  | close t est hc ht =>
    have hhang : Owned (IrcServer.hangUp est w) := { h with }
    exact { hhang.effects (hangUp_effects ht) with }
  | connect env hc =>
    rcases connect_shape env hc with he | ⟨fd,conns,_,_,he⟩
    · rw [he]
      exact h
    · rw [he]
      exact { h with }
  | _ => exact { h with }

theorem initial (h : w.Initial) : Owned w := by
  refine ⟨?_,?_,?_,fun _ => ⟨?_,?_⟩⟩
  · rw [h.channels]
    exact IBHashTable.create_wf 6
  · rw [h.channels]
    rfl
  · rw [h.channels]
    exact nofun
  · rw [h.ghost]
  · rw [h.channels,h.nchans]
    exact List.Perm.refl _

end Owned

theorem World.Reachable.owned (h : w.Reachable) : Owned w :=
  World.Reachable.induct (I := Owned) (fun _ hi => .initial hi) (fun _ _ _ ho ha => ho.action ha) h

/-- A channel listens to messages, once under each id, exactly while it is in the table. -/
def Listening (w : World) : Prop := ∀ chan, ∀ cmd ∈ IrcChannel.msgCommands,
  w.server.msgReceived.count () (.handleMsg chan) cmd.code =
    if w.server.channels.get (w.chans chan).name = some chan then 1 else 0

theorem Listening.le (h : Listening w) (chan : ChanId) {cmd : IrcCommand} (hcmd : cmd ∈ IrcChannel.msgCommands) :
    w.server.msgReceived.count () (.handleMsg chan) cmd.code ≤ 1 := by
  rw [h chan cmd hcmd]
  split <;> omega

theorem Listening.congr (h : Listening w) (hm : w'.server.msgReceived = w.server.msgReceived)
    (hc : w'.server.channels = w.server.channels) (hn : ∀ chan, (w'.chans chan).name = (w.chans chan).name) :
    Listening w' := by
  intro chan cmd hcmd
  rw [hm,hc,hn]
  exact h chan cmd hcmd

section Destroy
variable {cmds : List IrcCommand} {e : Listeners MsgHandler} {self chan : ChanId}

theorem foldl_unregister_le (cmds : List IrcCommand) (e : Listeners MsgHandler) (self chan : ChanId) (id : ℤ) :
    (cmds.foldl (fun e cmd => e.unregister () (.handleMsg self) cmd.code) e).count () (.handleMsg chan) id ≤
      e.count () (.handleMsg chan) id := by
  induction cmds generalizing e with
  | nil => exact Nat.le_refl _
  | cons cmd cmds ih => exact Nat.le_trans (ih _) (e.count_unregister_le _ _ _ _ _ _)

theorem foldl_unregister_ne (cmds : List IrcCommand) (e : Listeners MsgHandler) (h : self ≠ chan) (id : ℤ) :
    (cmds.foldl (fun e cmd => e.unregister () (.handleMsg self) cmd.code) e).count () (.handleMsg chan) id =
      e.count () (.handleMsg chan) id := by
  induction cmds generalizing e with
  | nil => rfl
  | cons cmd cmds ih => exact (ih _).trans (Event.count_unregister_ne _ (fun he => h (MsgHandler.handleMsg.inj he)))

theorem foldl_unregister_self {cmd : IrcCommand} (hmem : cmd ∈ cmds)
    (h : e.count () (.handleMsg self) cmd.code ≤ 1) :
    (cmds.foldl (fun e cmd => e.unregister () (.handleMsg self) cmd.code) e).count () (.handleMsg self) cmd.code = 0 := by
  induction cmds generalizing e with
  | nil => cases hmem
  | cons head cmds ih =>
    rcases List.mem_cons.mp hmem with rfl | hmem
    · have hle := foldl_unregister_le cmds (e.unregister () (.handleMsg self) cmd.code) self self cmd.code
      rw [Event.count_unregister_once h] at hle
      exact Nat.le_zero.mp hle
    · exact ih hmem (Nat.le_trans (e.count_unregister_le _ _ _ _ _ _) h)

theorem foldl_register_self (cmds : List IrcCommand) (e : Listeners MsgHandler) (self : ChanId) (cmd : IrcCommand) :
    (cmds.foldl (fun e cmd => e.register () (.handleMsg self) cmd.code) e).count () (.handleMsg self) cmd.code =
      e.count () (.handleMsg self) cmd.code + cmds.countP fun c => c.code = cmd.code := by
  induction cmds generalizing e with
  | nil => rfl
  | cons head cmds ih =>
    rw [List.foldl_cons,ih,Event.count_register,List.countP_cons]
    by_cases hc : head.code = cmd.code
    · simp [hc]
      omega
    · have hc' : (head.code : ℤ) ≠ cmd.code := fun he => hc (by exact_mod_cast he)
      simp [hc,hc']

theorem foldl_register_ne (cmds : List IrcCommand) (e : Listeners MsgHandler) (h : self ≠ chan) (id : ℤ) :
    (cmds.foldl (fun e cmd => e.register () (.handleMsg self) cmd.code) e).count () (.handleMsg chan) id =
      e.count () (.handleMsg chan) id := by
  induction cmds generalizing e with
  | nil => rfl
  | cons cmd cmds ih => exact (ih _).trans (Event.count_register_ne _ (fun he => h (MsgHandler.handleMsg.inj he)))

end Destroy

theorem destroy_ne {self chan : ChanId} (h : self ≠ chan) (w : World) (id : ℤ) :
    (IrcChannel.destroy self w).server.msgReceived.count () (.handleMsg chan) id =
      w.server.msgReceived.count () (.handleMsg chan) id := foldl_unregister_ne _ _ h id

theorem destroy_self {self : ChanId} {cmd : IrcCommand} (hcmd : cmd ∈ IrcChannel.msgCommands)
    (h : w.server.msgReceived.count () (.handleMsg self) cmd.code ≤ 1) :
    (IrcChannel.destroy self w).server.msgReceived.count () (.handleMsg self) cmd.code = 0 :=
  foldl_unregister_self (List.mem_reverse.mpr hcmd) h

theorem destroy_le (self chan : ChanId) (w : World) (id : ℤ) :
    (IrcChannel.destroy self w).server.msgReceived.count () (.handleMsg chan) id ≤
      w.server.msgReceived.count () (.handleMsg chan) id := foldl_unregister_le _ _ _ _ _

/-- The registrations after a deletion: those of the channel under the name are gone. -/
theorem deleteChannel_count (hd : ∀ i, ∀ e ∈ w.server.channels.bucket i, e.deleter = some .destroyIrcChannel)
    (name : Bytes) (chan : ChanId) {cmd : IrcCommand} (hcmd : cmd ∈ IrcChannel.msgCommands)
    (hle : w.server.msgReceived.count () (.handleMsg chan) cmd.code ≤ 1) :
    (IrcServer.deleteChannel name w).server.msgReceived.count () (.handleMsg chan) cmd.code =
      if w.server.channels.get name = some chan then 0
      else w.server.msgReceived.count () (.handleMsg chan) cmd.code := by
  unfold IrcServer.deleteChannel IBHashTable.delete IBHashTable.get
  cases hf : w.server.channels.find name with
  | none => rfl
  | some entry =>
    have hd := hd _ entry (List.mem_of_find?_eq_some hf)
    simp only [IBHashTableEntry.call,hd,Option.map_some,Option.some.injEq]
    by_cases he : entry.obj = chan
    · rw [if_pos he,he]
      exact destroy_self hcmd hle
    · rw [if_neg he]
      exact destroy_ne he w _

theorem get_delete (ho : Owned w) (name name' : Bytes) : (w.server.channels.delete name).2.2.get name' =
    if name' = name then none else w.server.channels.get name' := by
  unfold IBHashTable.get
  split
  · next he => rw [he,IBHashTable.find_delete_self ho.wf]; rfl
  · next he => rw [IBHashTable.find_delete_ne _ he]

namespace Listening

theorem remove (hl : Linked w) (ho : Owned w) (h : Listening w) (self : ChanId) :
    Listening (IrcServer.deleteChannel (w.chans self).name (IrcChannel.destroy self w)) := by
  have hchans : (IrcServer.deleteChannel (w.chans self).name (IrcChannel.destroy self w)).chans = w.chans ∧
      (IrcServer.deleteChannel (w.chans self).name (IrcChannel.destroy self w)).server.channels =
        (w.server.channels.delete (w.chans self).name).2.2 := by
    obtain ⟨_,_,he⟩ := remove_shape (w.chans self).name self w
    rw [he]
    exact ⟨rfl,rfl⟩
  intro chan cmd hcmd
  rw [deleteChannel_count (w := IrcChannel.destroy self w) ho.deleter _ chan hcmd
    (Nat.le_trans (destroy_le self chan w _) (h.le chan hcmd)),hchans.1,hchans.2,get_delete ho]
  change (if w.server.channels.get (w.chans self).name = some chan then 0 else _) = _
  by_cases hn : (w.chans chan).name = (w.chans self).name
  · rw [if_pos hn,if_neg (Option.some_ne_none chan).symm]
    split
    · rfl
    · next hne =>
      refine Nat.le_zero.mp (Nat.le_trans (destroy_le self chan w _) ?_)
      rw [h chan cmd hcmd,hn,if_neg hne]
  · have hself : self ≠ chan := fun he => hn (by rw [he])
    have hget : w.server.channels.get (w.chans self).name ≠ some chan := fun hget => hn (hl.name_of_get hget).2
    rw [if_neg hget,if_neg hn,destroy_ne hself,h chan cmd hcmd]

theorem effect (hl : Linked w) (ho : Owned w) (h : Listening w) (he : Effect w w') : Listening w' := by
  have hname := Effect.name he
  cases he with
  | send _ cmd args hcmd _ hs =>
    obtain ⟨_,_,_,_,_,_,_,_,_,_,_,_,rfl⟩ := sendRawCmd_outputs hcmd hs
    exact h
  | remove self _ => exact h.remove hl ho self
  | _ => exact h.congr rfl rfl hname

theorem addChannel (hl : Linked w) (h : Listening w) {name : Bytes} (hget : w.server.channels.get name = none) :
    Listening (IrcServer.addChannel name w).2 := by
  obtain ⟨chans,_,_,hother,hname,he⟩ := addChannel_shape name w
  have hchans : (IrcServer.addChannel name w).2.chans = chans := by rw [he]
  intro chan cmd hcmd
  rw [hchans,addChannel_new hget]
  change (IrcChannel.msgCommands.foldl _ w.server.msgReceived).count () _ _ = if
    (w.server.channels.set name w.nchans (some Deleter.destroyIrcChannel)).2.get (chans chan).name = some chan
      then 1 else 0
  by_cases hc : chan = w.nchans
  · have hone : ∀ cmd ∈ IrcChannel.msgCommands, (IrcChannel.msgCommands.countP fun c => c.code = cmd.code) = 1 := by
      decide
    have hold : w.server.channels.get (w.chans w.nchans).name ≠ some w.nchans :=
      fun hn => Nat.lt_irrefl _ (hl.name_of_get hn).1
    rw [hc,foldl_register_self,h _ cmd hcmd,hone cmd hcmd,if_neg hold,hname,IBHashTable.get_set_self]
    exact (if_pos rfl).symm
  · rw [foldl_register_ne _ _ (Ne.symm hc),h chan cmd hcmd,hother chan hc]
    by_cases hn : (w.chans chan).name = name
    · have hne : some w.nchans ≠ some chan := fun he => hc (Option.some.inj he).symm
      rw [hn,hget,IBHashTable.get_set_self,if_neg hne,
        if_neg (Option.some_ne_none chan).symm]
    · rw [IBHashTable.get,IBHashTable.get,IBHashTable.find_set_ne _ _ _ hn]

end Listening

/-- What is known of the channels whenever a message is handled. -/
structure ChannelInv (w : World) : Prop extends Linked w, Owned w where
  listening : Listening w

namespace ChannelInv

theorem effect (h : ChannelInv w) (he : Effect w w') : ChannelInv w' :=
  ⟨h.toLinked.effect he,h.toOwned.effect he,h.listening.effect h.toLinked h.toOwned he⟩

theorem effects (h : ChannelInv w) (he : ReflTransGen Effect w w') : ChannelInv w' :=
  Effects.invariant (fun _ _ ht hs => ChannelInv.effect ht hs) h he

theorem change (h : ChannelInv w) (hc : Change w w') : ChannelInv w' := by
  refine ⟨h.toLinked.change hc,h.toOwned.change hc,?_⟩
  cases hc with
  | call hd => exact (h.effects hd.effects).listening
  | send _ command _ hs =>
    obtain ⟨_,_,_,_,_,_,_,_,_,_,_,_,rfl⟩ := sendRaw_outputs hs
    exact h.listening
  | addChannel name hget => exact h.listening.addChannel h.toLinked hget
  | _ => exact h.listening

theorem received (h : ChannelInv w) (hr : Received w w') : ChannelInv w' := by
  cases hr with
  | change hc => exact h.change hc
  | message m => exact ⟨h.toLinked.received (.message w m),h.toOwned.received (.message w m),h.listening⟩
  | buffer i r b => exact ⟨h.toLinked.received (.buffer w i r b),h.toOwned.received (.buffer w i r b),h.listening⟩
  | login hst => exact ⟨h.toLinked.received (.login w hst),h.toOwned.received (.login w hst),h.listening⟩

theorem action (hi : Inv w) (h : ChannelInv w) (ha : Action w w') : ChannelInv w' := by
  refine ⟨(hi.action ha).toLinked,h.toOwned.action ha,?_⟩
  cases ha with
  | change hc => exact (h.change hc).listening
  | receive _ data hw hr =>
    exact (Effects.invariant (I := ChannelInv) (fun _ _ ht hs => ht.received hs) h hr.steps).listening
  | establish conn hc hq hst =>
    rw [IrcServer.connConnected,if_pos hc]
    exact h.listening
  | close t est hc ht =>
    have hhang : ChannelInv (IrcServer.hangUp est w) := ⟨hi.toLinked.hangUp est,{ h.toOwned with },h.listening⟩
    exact (hhang.effects (hangUp_effects ht)).listening
  | connect env hc =>
    rcases connect_shape env hc with he | ⟨fd,conns,_,_,he⟩
    · rw [he]
      exact h.listening
    · rw [he]
      exact h.listening
  | listen =>
    intro chan cmd hcmd
    change (w.server.msgReceived.register () .msgReceived _).count () _ _ = _
    rw [Event.count_register_ne _ (by simp : MsgHandler.msgReceived ≠ .handleMsg chan)]
    exact h.listening chan cmd hcmd
  | _ => exact h.listening

theorem initial (h : w.Initial) : ChannelInv w := by
  refine ⟨(Inv.initial h).toLinked,.initial h,fun chan cmd hcmd => ?_⟩
  rw [h.msgReceived,h.channels]
  rfl

/-- Effects put no channel into the table. -/
theorem get_of_effects (h : ChannelInv w) (he : ReflTransGen Effect w w') {name : Bytes} {chan : ChanId}
    (hget : w'.server.channels.get name = some chan) : w.server.channels.get name = some chan := by
  induction he with
  | refl => exact hget
  | @tail u v hu he ih =>
    refine ih ?_
    have hown := (h.effects hu).toOwned
    cases he with
    | send _ cmd args hcmd _ hs =>
      obtain ⟨_,_,_,_,_,_,_,_,_,_,_,_,rfl⟩ := sendRawCmd_outputs hcmd hs
      exact hget
    | remove self _ =>
      obtain ⟨_,_,he⟩ := remove_shape (u.chans self).name self u
      rw [he] at hget
      change (u.server.channels.delete (u.chans self).name).2.2.get name = some chan at hget
      rw [get_delete hown] at hget
      split at hget
      · cases hget
      · exact hget
    | _ => exact hget

end ChannelInv

theorem World.Reachable.channelInv (h : w.Reachable) : ChannelInv w :=
  World.Reachable.induct (I := ChannelInv) (fun _ hi => .initial hi) (fun _ _ hi hc ha => hc.action hi ha) h

end LibIrcBot
