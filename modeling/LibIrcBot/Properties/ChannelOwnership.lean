import LibIrcBot.System.ChannelTable
import LibIrcBot.System.SendQueue

/-! # Who destroys a channel

The table of channels owns them: each entry carries the deleter. As long as nothing else
destroys channels, the table holds every channel that was ever created, and
`IrcServer_destroy` destroys each of them.
-/
namespace LibIrcBot
open CString Effects Relation Outcome

variable {w w' : World}

theorem raise_cleared {η : Type} {event : World → Listeners η} {call : η → World → Run} {i : ℤ}
    (h : (event w).All fun _ => False) : w.raise event call i = .ok w := by
  have ht : Traced (fun _ _ => False) (fun _ _ => False) w id (w.raise event call i) := by
    refine raise_traced (fun t ht slot hs handler hh _ => ?_) (fun _ _ _ hf => hf.elim)
    rcases ht.cases_head with rfl | ⟨_,hf,_⟩
    · exact (h slot hs handler hh).elim
    · exact hf.elim
  cases hr : w.raise event call i with
  | ok t =>
    rw [hr] at ht
    rcases ReflTransGen.cases_head ht with rfl | ⟨_,hf,_⟩
    · rfl
    · exact hf.elim
  | error e =>
    rw [hr] at ht
    obtain ⟨_,_,hf⟩ := ht
    exact hf.elim

/-- Nobody listens to the connection, the send queue holds no indeterminate pointer, and the channels
are those of an earlier state. -/
structure Leaving (w : World) (last : ConnId) (w' : World) : Prop where
  conn : w'.server.conn = some last
  closed : (w'.conns last).closed.All fun _ => False
  queueWf : w'.QueueWf
  determinate : w'.Determinate
  channels : w'.server.channels = w.server.channels
  destroyed : w'.ghost.destroyed = w.ghost.destroyed
  nchans : w'.nchans = w.nchans

namespace Leaving
variable {conn : ConnId} {t : World}

theorem close (h : Leaving w conn t) : ∃ u, Connection.close conn t = .ok u ∧ Leaving w conn u := by
  have hr : Connection.raiseClosed conn ((t.conns conn).connecting = 0) t = .ok t := raise_cleared h.closed
  refine ⟨Connection.deleteLater conn t,by rw [Connection.close,hr]; rfl,?_⟩
  unfold Connection.deleteLater
  split
  · refine { h with closed := ?_ }
    rw [setConn_conns,if_pos rfl]
    exact h.closed
  · exact h

theorem outputs {u : World} (h : Leaving w conn t) (ho : t.Outputs u) (hq : u.QueueWf) (hd : u.Determinate) :
    Leaving w conn u := by
  have hclosed := (ho.written conn).events.1
  obtain ⟨_,_,_,_,_,_,_,_,_,_,_,_,rfl⟩ := ho
  exact { h with closed := hclosed ▸ h.closed, queueWf := hq, determinate := hd }

/-- A logged in server sends one more command, any other one closes its connection. -/
theorem disconnect (h : Leaving w conn t) (ht : 0 < t.server.connst → t.Online ∧ t.Roomy) :
    ∃ u, IrcServer.disconnect t = .ok u ∧ Leaving w conn u := by
  have h' : Leaving w conn { t with service.tick :=
      (t.service.tick.unregister () .connWaitLogin 0).unregister () .connWaitReconn 0 } := { h with }
  unfold IrcServer.disconnect
  dsimp only
  split
  · next hst =>
    obtain ⟨hw,hroom⟩ := ht hst
    have hcmd : IrcCommand.MSG_QUIT.str = some (lit "QUIT") := rfl
    rw [IrcServer.sendRawCmd_eq hcmd]
    obtain ⟨u,hu,hq,hd⟩ := IrcServer.sendRaw_determinate h'.queueWf h'.determinate hroom ⟨hw.conn,hw.sendQueue⟩
      (IrcServer.rawCmd (lit "QUIT") (lit ":bye."))
    exact ⟨u,hu,h'.outputs (sendRaw_outputs hu) hq hd⟩
  · rw [h.conn]
    exact h'.close

end Leaving

/-- The application has joined a channel while the server was logged in. -/
def World.joined : World := after [.join (lit "#c")] loggedIn

def World.parted : World := after [.join (lit "#c"),.part (lit "#c")] loggedIn

end LibIrcBot
