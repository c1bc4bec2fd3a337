import LibIrcBot.Containers.QueueFifo
import LibIrcBot.System.Loop

/-! # The send queue

The ring of the send queue keeps its layout in every run. While it holds no indeterminate pointer and no full
ring has to be relocated, a command is sent and the queue destroyed without a fault.
-/
namespace LibIrcBot
open CString Effects Relation Outcome IrcServer

variable {w w' : World}

namespace World

def QueueWf (w : World) : Prop := ∀ q ∈ w.server.sendQueue, q.Wf

/-- No pointer in the send queue is indeterminate. -/
def Determinate (w : World) : Prop := ∀ q ∈ w.server.sendQueue, q.Determinate

def Roomy (w : World) : Prop := ∀ q ∈ w.server.sendQueue, q.count = q.capa → q.front = 0

instance (w : World) : Decidable w.Determinate := inferInstanceAs (Decidable (∀ q ∈ w.server.sendQueue, _))

instance (w : World) : Decidable w.Roomy := inferInstanceAs (Decidable (∀ q ∈ w.server.sendQueue, _))

def waiting (w : World) : List Buffer :=
  match w.server.sendQueue with
  | none => []
  | some q => q.contents.map Prod.fst

theorem write_server (self : ConnId) (buf : Buffer) (id : Bool) (w : World) :
    (Connection.write self buf id w).2.server = w.server := by
  unfold Connection.write
  split
  · rfl
  · obtain ⟨_,_,_,h⟩ := Connection.wantreadwrite_shape self (w.setConn self (Connection.addRecord buf id))
    rw [h]
    rfl

theorem Determinate.of_some {q : IBQueue Buffer Deleter} (hq : w.server.sendQueue = some q) (h : q.Determinate) :
    w.Determinate := by
  intro q' hq'
  rw [hq] at hq'
  exact Option.some.inj hq' ▸ h

namespace QueueWf

theorem same (h : w.QueueWf) (hq : w'.server.sendQueue = w.server.sendQueue) : w'.QueueWf :=
  fun q hmem => h q (hq ▸ hmem)

theorem of_some {q : IBQueue Buffer Deleter} (hq : w.server.sendQueue = some q) (h : q.Wf) : w.QueueWf := by
  intro q' hq'
  rw [hq] at hq'
  exact Option.some.inj hq' ▸ h

theorem queueRaw {command : Option Bytes} (h : w.QueueWf) (hs : IrcServer.queueRaw command w = .ok w') : w'.QueueWf := by
  unfold IrcServer.queueRaw at hs
  split at hs
  · cases hs
    exact h
  · dsimp only at hs
    split at hs
    · cases hs
    · next q hq =>
      cases hs
      exact of_some rfl (IBQueue.enqueue_wf (h q hq) _ _)

theorem sendNext (h : w.QueueWf) (hs : IrcServer.sendNext w = .ok w') : w'.QueueWf := by
  unfold IrcServer.sendNext at hs
  split at hs
  · cases hs
    exact h
  · split at hs
    · cases hs
    · next q hq =>
      have hleft : q.dequeue.2.Wf := IBQueue.dequeue_wf (h q hq)
      split at hs
      · next left hd =>
        rw [hd] at hleft
        cases hs
        exact of_some rfl hleft
      · cases hs
      · next left hd =>
        rw [hd] at hleft
        dsimp only at hs
        split at hs
        · cases hs
        · cases hs
          exact of_some (congrArg IrcServer.sendQueue (write_server _ _ _ _)) hleft

theorem sendRaw {command : Option Bytes} (h : w.QueueWf) (hs : IrcServer.sendRaw command w = .ok w') : w'.QueueWf := by
  obtain ⟨t,ht,hs⟩ := ok_of_bind hs
  exact (h.queueRaw ht).sendNext hs

theorem effect (h : w.QueueWf) (he : Effect w w') : w'.QueueWf := by
  cases he with
  | send _ cmd args hcmd _ hs =>
    obtain ⟨name,hname⟩ := Option.isSome_iff_exists.mp hcmd
    rw [sendRawCmd_eq hname] at hs
    exact h.sendRaw hs
  | remove self _ =>
    obtain ⟨_,_,he⟩ := remove_shape (w.chans self).name self w
    rw [he]
    exact h
  | _ => exact h

theorem effects (h : w.QueueWf) (he : ReflTransGen Effect w w') : w'.QueueWf :=
  Effects.invariant (fun _ _ ht hs => effect ht hs) h he

theorem received (h : w.QueueWf) (hr : Received w w') : w'.QueueWf := by
  cases hr with
  | change hc =>
    cases hc with
    | call hd => exact h.effects hd.effects
    | send _ command hc hs => exact h.sendRaw hs
    | addChannel name _ =>
      obtain ⟨_,_,_,_,_,he⟩ := addChannel_shape name w
      rw [he]
      exact h
    | _ => exact h
  | _ => exact h

theorem action (h : w.QueueWf) (ha : Action w w') : w'.QueueWf := by
  cases ha with
  | change hc => exact h.received (.change hc)
  | receive _ data hw hr => exact Effects.invariant (fun _ _ hu hs => received hu hs) h hr.steps
  | establish conn hc hq hst =>
    rw [connConnected,if_pos hc]
    exact of_some rfl IBQueue.create_wf
  | close t established hc ht =>
    have hf : (hangUp established w).QueueWf := by
      intro q hq
      cases hq
    have hlast : t.QueueWf := hf.effects (hangUp_effects ht)
    exact hlast
  | connect env hc =>
    rcases connect_shape env hc with he | ⟨fd,conns,_,_,he⟩
    · rw [he]
      exact h
    · rw [he]
      exact h
  | _ => exact h

end QueueWf

theorem Reachable.queueWf (h : w.Reachable) : w.QueueWf := by
  refine World.Reachable.induct (I := World.QueueWf) (fun w hi q hq => ?_) (fun _ _ _ hf ha => hf.action ha) h
  rw [hi.sendQueue] at hq
  cases hq

end World

namespace IrcServer

theorem sendNext_determinate (h : w.QueueWf) (hd : w.Determinate) (hw : w.Online) :
    ∃ w', sendNext w = .ok w' ∧ w'.Determinate := by
  obtain ⟨q,hq⟩ := Option.isSome_iff_exists.mp hw.sendQueue
  obtain ⟨conn,hc⟩ := Option.isSome_iff_exists.mp hw.conn
  obtain ⟨hfirst,hleft⟩ := IBQueue.dequeue_determinate (h q hq) (hd q hq)
  unfold sendNext
  split
  · exact ⟨w,rfl,hd⟩
  · rw [hq]
    dsimp only
    generalize q.dequeue = result at hfirst hleft
    obtain ⟨first,left⟩ := result
    rcases first with _ | _ | sendcmd
    · exact ⟨_,rfl,.of_some rfl hleft⟩
    · exact absurd rfl hfirst
    · simp only [hc]
      exact ⟨_,rfl,.of_some (congrArg IrcServer.sendQueue (World.write_server _ _ _ _)) hleft⟩

/-- A command that makes no ring relocate is sent, and leaves the queue determinate. -/
theorem sendRaw_determinate (h : w.QueueWf) (hd : w.Determinate) (hr : w.Roomy) (hw : w.Online) (command : Bytes) :
    ∃ w', sendRaw (some command) w = .ok w' ∧ w'.QueueWf ∧ w'.Determinate := by
  obtain ⟨q,hq⟩ := Option.isSome_iff_exists.mp hw.sendQueue
  have hback := IBQueue.enqueue_determinate (h q hq) (hd q hq) (hr q hq) ⟨w.allocs,command⟩ (some Deleter.free)
  have hqueued : queueRaw (some command) w = .ok { w with
      ghost.commands := w.ghost.commands ++ [command]
      allocs := w.allocs + 1
      server.sendQueue := some (q.enqueue ⟨w.allocs,command⟩ (some .free)) } := by
    unfold queueRaw
    dsimp only
    rw [hq]
    rfl
  obtain ⟨w',hs,hdet⟩ := sendNext_determinate (h.queueRaw hqueued) (.of_some rfl hback) ⟨hw.conn,rfl⟩
  have hsent : sendRaw (some command) w = .ok w' := by
    unfold sendRaw
    rw [hqueued]
    exact hs
  exact ⟨w',hsent,h.sendRaw hsent,hdet⟩

end IrcServer

end LibIrcBot
