import LibIrcBot.System.Output
import LibIrcBot.Foundations.Outcome

/-! # What sending changes

A command passes through the send queue and the connection. Nothing but these changes,
and what can go wrong is that one of them is missing.
-/
namespace LibIrcBot
open CString

/-- The state with other contents in everything that sending a command may change. -/
def World.output (w : World) (allocs : ℕ) (commands : List Bytes) (sendQueue : Option (IBQueue Buffer Deleter))
    (sendcmd : Option Buffer) (sending : Bool) (credits : ℤ) (conns : ConnId → Connection)
    (operations : List Entry) (readfds writefds : ℤ → Bool) : World :=
  { w with
    allocs := allocs
    ghost.commands := commands
    ghost.operations := operations
    server.sendQueue := sendQueue
    server.sendcmd := sendcmd
    server.sending := sending
    server.sendcreditticks := credits
    conns := conns
    service.readfds := readfds
    service.writefds := writefds }

/-- One state of a connection comes from another by calls of `Connection_write`. -/
def Connection.Written (c c' : Connection) : Prop := ∃ calls, c' = c.writes calls

namespace Connection.Written
variable {c c' c'' : Connection}

theorem refl (c : Connection) : c.Written c := ⟨[],rfl⟩

theorem trans (h : c.Written c') (h' : c'.Written c'') : c.Written c'' := by
  obtain ⟨calls,rfl⟩ := h
  obtain ⟨calls',rfl⟩ := h'
  exact ⟨calls ++ calls',(List.foldl_append ..).symm⟩

/-- The two differ in the pending writes only. -/
theorem shape (h : c.Written c') : ∃ recs n, c' = { c with writerecs := recs, nrecs := n } := by
  obtain ⟨calls,rfl⟩ := h
  refine List.foldlRecOn (motive := fun d => ∃ recs n, d = { c with writerecs := recs, nrecs := n }) calls _
    ⟨c.writerecs,c.nrecs,rfl⟩ fun d hd call _ => ?_
  obtain ⟨recs,n,rfl⟩ := hd
  unfold record
  split <;> exact ⟨_,_,rfl⟩

end Connection.Written

/-- One state comes from another by output; a send queue stays. -/
def World.Outputs (w w' : World) : Prop :=
  ∃ allocs commands sendQueue sendcmd sending credits conns operations readfds writefds,
    (w.server.sendQueue.isSome → sendQueue.isSome) ∧ (∀ self, (w.conns self).Written (conns self)) ∧
      w' = w.output allocs commands sendQueue sendcmd sending credits conns operations readfds writefds

namespace World.Outputs
variable {w w' w'' : World}

theorem same_conns (w : World) : ∀ self, (w.conns self).Written (w.conns self) := fun _ => .refl _

theorem refl (w : World) : w.Outputs w := ⟨_,_,_,_,_,_,_,_,_,_,fun h => h,same_conns w,rfl⟩

theorem trans (h : w.Outputs w') (h' : w'.Outputs w'') : w.Outputs w'' := by
  obtain ⟨_,_,_,_,_,_,_,_,_,_,hq,hc,rfl⟩ := h
  obtain ⟨_,_,_,_,_,_,_,_,_,_,hq',hc',rfl⟩ := h'
  exact ⟨_,_,_,_,_,_,_,_,_,_,fun h => hq' (hq h),fun self => (hc self).trans (hc' self),rfl⟩

theorem sendQueue (h : w.Outputs w') (hq : w.server.sendQueue.isSome) : w'.server.sendQueue.isSome := by
  obtain ⟨_,_,_,_,_,_,_,_,_,_,hq',_,rfl⟩ := h
  exact hq' hq

theorem conn (h : w.Outputs w') : w'.server.conn = w.server.conn := by
  obtain ⟨_,_,_,_,_,_,_,_,_,_,_,_,rfl⟩ := h
  rfl

end World.Outputs

theorem wantreadwrite_outputs (self : ConnId) (w : World) : w.Outputs (Connection.wantreadwrite self w) := by
  obtain ⟨ops,r,wr,h⟩ := Connection.wantreadwrite_shape self w
  rw [h]
  exact ⟨_,_,_,_,_,_,_,ops,r,wr,fun h => h,World.Outputs.same_conns w,rfl⟩

theorem setConn_conns (w : World) (self c : ConnId) (f : Connection → Connection) :
    (w.setConn self f).conns c = if c = self then f (w.conns c) else w.conns c := by
  by_cases h : c = self
  · subst h
    simp [World.setConn]
  · simp [World.setConn,h]

theorem write_outputs (self : ConnId) (buf : Buffer) (id : Bool) (w : World) :
    w.Outputs (Connection.write self buf id w).2 := by
  unfold Connection.write
  split
  · exact .refl w
  · have hc : ∀ c, (w.conns c).Written ((w.setConn self (Connection.addRecord buf id)).conns c) := by
      intro c
      rw [setConn_conns]
      split
      · next hnot he => exact ⟨[(buf,id)],by rw [he]; exact (if_neg hnot).symm⟩
      · exact .refl _
    exact World.Outputs.trans ⟨_,_,_,_,_,_,_,_,_,_,fun h => h,hc,rfl⟩ (wantreadwrite_outputs _ _)

namespace IrcServer
open Outcome

/-- What can go wrong when a command is sent: there is no queue or no connection, or the
queue holds an indeterminate pointer. -/
def SendFault (w : World) (f : Fault) : Prop :=
  f = .wildPointer ∨ (f = .nullQueue ∧ w.server.sendQueue = none) ∨ (f = .nullConn ∧ w.server.conn = none)

theorem queueRaw_spec (command : Option Bytes) (w : World) :
    Meets w.Outputs (fun e => w.Outputs e.2 ∧ SendFault w e.1) (queueRaw command w) := by
  unfold queueRaw
  cases command with
  | none => exact .refl w
  | some command =>
    dsimp only
    split
    · next h => exact ⟨⟨_,_,_,_,_,_,_,_,_,_,fun h => h,World.Outputs.same_conns w,rfl⟩,Or.inr (Or.inl ⟨rfl,h⟩)⟩
    · exact ⟨_,_,_,_,_,_,_,_,_,_,fun _ => rfl,World.Outputs.same_conns w,rfl⟩

theorem sendNext_spec (w : World) :
    Meets w.Outputs (fun e => w.Outputs e.2 ∧ SendFault w e.1) (sendNext w) := by
  unfold sendNext
  split
  · exact .refl w
  · split
    · next h => exact ⟨.refl w,Or.inr (Or.inl ⟨rfl,h⟩)⟩
    · split
      · exact ⟨_,_,_,_,_,_,_,_,_,_,fun _ => rfl,World.Outputs.same_conns w,rfl⟩
      · exact ⟨.refl w,Or.inl rfl⟩
      · dsimp only
        split
        · next h => exact ⟨⟨_,_,_,_,_,_,_,_,_,_,fun _ => rfl,World.Outputs.same_conns w,rfl⟩,Or.inr (Or.inr ⟨rfl,h⟩)⟩
        · refine World.Outputs.trans ?_ (write_outputs _ _ _ _)
          exact ⟨_,_,_,_,_,_,_,_,_,_,fun _ => rfl,World.Outputs.same_conns w,rfl⟩

theorem sendRaw_spec (command : Option Bytes) (w : World) :
    Meets w.Outputs (fun e => w.Outputs e.2 ∧ SendFault w e.1) (sendRaw command w) := by
  unfold sendRaw
  refine Meets.bind (queueRaw_spec command w) ?_
  intro w' ho
  refine Meets.mono (sendNext_spec w') (fun w'' h => ho.trans h) ?_
  rintro e ⟨he,hf⟩
  refine ⟨ho.trans he,?_⟩
  rcases hf with hf | ⟨hf,hn⟩ | ⟨hf,hc⟩
  · exact Or.inl hf
  · refine Or.inr (Or.inl ⟨hf,?_⟩)
    by_contra hq
    have hs := ho.sendQueue (Option.isSome_iff_ne_none.mpr hq)
    simp [hn] at hs
  · exact Or.inr (Or.inr ⟨hf,ho.conn ▸ hc⟩)

/-- All that `sendRaw` can do: queue the command, find the queue empty, or write the next one. -/
inductive Sends (w : World) : World → Prop where
  | queued (allocs : ℕ) (commands : List Bytes) (queue : Option (IBQueue Buffer Deleter))
      (hq : queue.isSome = w.server.sendQueue.isSome) : Sends w { w with
        allocs := allocs
        ghost.commands := commands
        server.sendQueue := queue }
  | drained (allocs : ℕ) (commands : List Bytes) (queue : Option (IBQueue Buffer Deleter))
      (hq : queue.isSome = w.server.sendQueue.isSome) (hs : w.server.sending = false) : Sends w { w with
        allocs := allocs
        ghost.commands := commands
        server.sendQueue := queue
        server.sendcmd := none }
  | written (allocs : ℕ) (commands : List Bytes) (queue : Option (IBQueue Buffer Deleter)) (buf : Buffer)
      (credits : ℤ) (conn : ConnId) (hq : queue.isSome = w.server.sendQueue.isSome) (hsome : queue.isSome)
      (hs : w.server.sending = false) (hc : w.server.conn = some conn) :
      Sends w (Connection.write conn buf true { w with
        allocs := allocs
        ghost.commands := commands
        server.sendQueue := queue
        server.sendcmd := some buf
        server.sending := true
        server.sendcreditticks := credits }).2

theorem queueRaw_cases {command : Option Bytes} {w w' : World} (h : queueRaw command w = .ok w') :
    ∃ allocs commands queue, queue.isSome = w.server.sendQueue.isSome ∧
      w' = { w with allocs := allocs, ghost.commands := commands, server.sendQueue := queue } := by
  unfold queueRaw at h
  split at h
  · cases h
    exact ⟨_,_,_,rfl,rfl⟩
  · dsimp only at h
    split at h
    · cases h
    · next hq =>
      cases h
      exact ⟨_,_,_,by rw [hq]; rfl,rfl⟩

theorem sendRaw_sends {command : Option Bytes} {w w' : World} (h : sendRaw command w = .ok w') :
    Sends w w' := by
  unfold sendRaw at h
  cases hr : queueRaw command w with
  | error e =>
    rw [hr] at h
    cases h
  | ok t =>
    rw [hr] at h
    obtain ⟨allocs,commands,queue,hq,rfl⟩ := queueRaw_cases hr
    change sendNext _ = _ at h
    unfold sendNext at h
    split at h
    · cases h
      exact .queued _ _ _ hq
    · next hcond =>
      have hs : w.server.sending = false := by
        simp only [Bool.or_eq_true,decide_eq_true_eq,not_or,Bool.not_eq_true] at hcond
        exact hcond.2
      dsimp only at h
      split at h
      · cases h
      · split at h
        · cases h
          exact .drained _ _ _ hq hs
        · cases h
        · split at h
          · cases h
          · next hc =>
            cases h
            exact .written _ _ _ _ _ _ (by rw [← hq]; rfl) rfl hs hc

theorem sendRawCmd_eq {cmd : IrcCommand} {name : Bytes} (h : cmd.str = some name) (args : Bytes) (w : World) :
    sendRawCmd cmd (some args) w = sendRaw (some (rawCmd name args)) w := by
  rw [sendRawCmd,h]
  rfl

theorem sendRawCmd_spec {cmd : IrcCommand} (h : cmd.str.isSome) (args : Bytes) (w : World) :
    Meets w.Outputs (fun e => w.Outputs e.2 ∧ SendFault w e.1) (sendRawCmd cmd (some args) w) := by
  obtain ⟨name,h⟩ := Option.isSome_iff_exists.mp h
  rw [sendRawCmd_eq h]
  exact sendRaw_spec _ w

end IrcServer

namespace IrcServer
open Outcome

def OfSending (f : Fault) : Prop := f = .wildPointer ∨ f = .nullQueue ∨ f = .nullConn

def SendingFault (commands : List Bytes) (e : Fault × World) : Prop := e.2.ghost.commands = commands ∧ OfSending e.1

theorem sendNext_commands (w : World) :
    Meets (fun w' => w'.ghost.commands = w.ghost.commands) (SendingFault w.ghost.commands) (sendNext w) := by
  unfold sendNext
  split
  · rfl
  · split
    · exact ⟨rfl,by simp [OfSending]⟩
    · split
      · rfl
      · exact ⟨rfl,by simp [OfSending]⟩
      · dsimp only
        split
        · exact ⟨rfl,by simp [OfSending]⟩
        · unfold Connection.write
          split
          · rfl
          · obtain ⟨_,_,_,h⟩ := Connection.wantreadwrite_shape _ _
            rw [h]
            rfl

theorem sendRaw_commands (command : Bytes) (w : World) :
    Meets (fun w' => w'.ghost.commands = w.ghost.commands ++ [command])
      (SendingFault (w.ghost.commands ++ [command])) (sendRaw (some command) w) := by
  unfold sendRaw
  refine Meets.bind (P := fun w' => w'.ghost.commands = w.ghost.commands ++ [command]) ?_ ?_
  · unfold queueRaw
    dsimp only
    split
    · exact ⟨rfl,by simp [OfSending]⟩
    · rfl
  · intro t ht
    rw [← ht]
    exact sendNext_commands t

end IrcServer
end LibIrcBot
