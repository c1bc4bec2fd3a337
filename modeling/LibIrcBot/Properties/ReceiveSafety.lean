import LibIrcBot.System.ReceiveBuffer
import LibIrcBot.System.Loop
import LibIrcBot.System.Runs

/-! # Safety of the receive buffer

Whatever bytes arrive, the buffer holds at most half of its size between two reads, so
that every read fits. The loop over the messages ends, and no step of it leaves the bytes
received.
-/
namespace LibIrcBot
open CString Blocks Outcome Effects Relation

namespace RecvBuffer
variable {σ ε : Type} {buf : RecvBuffer} {m : Bytes} (handle : IrcMessage → σ → Except ε σ)

/-- Nothing but the handling of a message ends the receiving early. -/
def InHandling (stop : Stop ε) : Prop := ∃ e, stop = .handling e

theorem handleIf_safe (msg : Option IrcMessage) (s : σ) : Meets (fun _ => True) InHandling (handleIf handle msg s) := by
  cases msg with
  | none => trivial
  | some msg =>
    rw [handleIf]
    cases handle msg s with
    | ok t => trivial
    | error e => exact ⟨e,rfl⟩

/-- The positions never decrease and stay inside the bytes received. -/
structure Ascending (lo hi : ℕ) (positions : List ℕ) : Prop where
  ordered : positions.Pairwise (· ≤ ·)
  lower : ∀ pos ∈ positions, lo ≤ pos
  upper : ∀ pos ∈ positions, pos ≤ hi

theorem Ascending.cons {pos next hi : ℕ} {positions : List ℕ} (h : Ascending next hi positions) (hle : pos ≤ next)
    (hhi : pos ≤ hi) : Ascending pos hi (pos :: positions) where
  ordered := List.pairwise_cons.mpr ⟨fun p hp => hle.trans (h.lower p hp),h.ordered⟩
  lower := fun p hp => (List.mem_cons.mp hp).elim (fun he => he ▸ Nat.le_refl _) (fun hp => hle.trans (h.lower p hp))
  upper := fun p hp => (List.mem_cons.mp hp).elim (fun he => he ▸ hhi) (fun hp => h.upper p hp)

/-- The loop ends: a pass either moves on or is the last one. -/
theorem parseLoop_safe (hb : buf.Holds m) {n : ℕ} (oldpos : ℕ) {pos : ℕ} (hpos : pos ≤ m.length) (hn : m.length + 2 ≤ n + pos)
    (s : σ) : Meets (fun r => Ascending pos m.length r.1 ∧ r.2.1 ≤ m.length) InHandling
      (parseLoop handle buf n oldpos pos s) := by
  have hlast : ∀ pos ≤ m.length, Ascending pos m.length [pos] := fun pos hpos =>
    ⟨List.pairwise_singleton _ _,by simp,by simpa using hpos⟩
  induction n generalizing oldpos pos s with
  | zero => omega
  | succ n ih =>
    rw [parseLoop]
    split
    · exact ⟨hlast pos hpos,hpos⟩
    rw [hb.parse]
    rcases IrcMessage.create_cases m pos with hc | ⟨msg,next,hc,hlt,hle⟩
    · rw [hc]
      obtain ⟨n,rfl⟩ : ∃ k, n = k + 1 := ⟨n - 1,by omega⟩
      change Meets _ _ (parseLoop handle buf (n + 1) pos pos s >>= _)
      rw [parseLoop,if_pos rfl]
      exact ⟨(hlast pos hpos).cons (Nat.le_refl _) hpos,hpos⟩
    · rw [hc]
      change Meets _ _ (handleIf handle msg s >>= _)
      refine Meets.bind (handleIf_safe handle msg s) (fun t _ => ?_)
      refine Meets.bind (ih pos hle (by omega) t) ?_
      rintro ⟨positions,last,u⟩ ⟨hp,hl⟩
      exact ⟨hp.cons (Nat.le_of_lt hlt) hpos,hl⟩

theorem keepRest_length (m : Bytes) (pos : ℕ) : (IrcServer.keepRest m pos).length ≤ 4096 := by
  unfold IrcServer.keepRest
  split
  · exact Nat.zero_le _
  · split
    · exact Nat.zero_le _
    · simp only [List.length_drop]
      omega

/-- What holds behind one read of `data` into a buffer that holds `m`. -/
structure Received (m data : Bytes) (r : Parsed σ) : Prop where
  positions : Ascending 0 (m.length + data.length) r.positions
  rest : ∃ pos ≤ m.length + data.length, r.buffer.Holds (IrcServer.keepRest (m ++ data) pos)

theorem Received.size {data : Bytes} {r : Parsed σ} (h : Received m data r) : r.buffer.recvbufsz ≤ 4096 := by
  obtain ⟨pos,_,hb⟩ := h.rest
  exact hb.size ▸ keepRest_length _ pos

theorem dataReceived_safe (hb : buf.Holds m) (hm : m.length ≤ 4096) {data : Bytes} (hdata : data.length ≤ 4096)
    (s : σ) : Meets (Received m data) InHandling (dataReceived handle buf data s) := by
  obtain ⟨b,ha,hb'⟩ := hb.append data (by unfold RECVBUFSZ; omega)
  have hlen : (m ++ data).length = m.length + data.length := List.length_append
  rw [dataReceived,ha]
  change Meets _ _ (parseLoop handle b (b.recvbufsz + 2) _ 0 s >>= _)
  refine Meets.bind (parseLoop_safe handle hb' _ (Nat.zero_le _) (by rw [hb'.size]) s) ?_
  rintro ⟨positions,pos,t⟩ ⟨hp,hpos⟩
  obtain ⟨c,hk,hc⟩ := hb'.keep hpos
  dsimp only at hp hpos ⊢
  rw [hk]
  exact ⟨hlen ▸ hp,pos,hlen ▸ hpos,hc⟩

def dataReceiveds (buf : RecvBuffer) (reads : List Bytes) (s : σ) : Except (Stop ε) (RecvBuffer × σ) :=
  reads.foldlM (fun r data => do
    let p ← dataReceived handle r.1 data r.2
    pure (p.buffer,p.state)) (buf,s)

/-- From a new server on, every sequence of reads leaves at most 4096 bytes in the buffer. -/
theorem dataReceiveds_safe {reads : List Bytes} (hcut : ∀ data ∈ reads, data.length ≤ 4096) (s : σ) :
    Meets (fun r => ∃ m, r.1.Holds m ∧ m.length ≤ 4096) InHandling (dataReceiveds handle create reads s) := by
  refine Meets.foldlM ?_ ⟨[],Holds.create,Nat.zero_le _⟩
  rintro ⟨buf,s⟩ ⟨m,hb,hm⟩ data hd
  refine Meets.bind (dataReceived_safe handle hb hm (hcut data hd) s) (fun r hr => ?_)
  obtain ⟨pos,_,hrest⟩ := hr.rest
  exact ⟨_,hrest,keepRest_length _ pos⟩

end RecvBuffer

namespace IrcServer
variable {w : World} {buf : RecvBuffer} (env : Env)

/-- The loop on memory handles the messages that the loop of the server does. -/
theorem parseLoop_agrees (hw : w.Online) (hb : buf.Holds w.server.recvbuf) {n oldpos pos : ℕ} (hne : oldpos ≠ pos)
    (hpos : pos ≤ w.server.recvbuf.length) (hn : w.server.recvbuf.length < n + pos) :
    (buf.parseLoop (handleMessage env) (n + 1) oldpos pos w).map Prod.snd =
      (receiveLoop env n pos w).mapError .handling := by
  induction n generalizing w oldpos pos with
  | zero => omega
  | succ n ih =>
    rw [RecvBuffer.parseLoop,if_neg hne,hb.parse,receiveLoop]
    rcases IrcMessage.create_cases w.server.recvbuf pos with hc | ⟨msg,next,hc,hlt,hle⟩
    · rw [hc]
      change ((buf.parseLoop (handleMessage env) (n + 1) pos pos w >>= _ : Except _ _).map _) = _
      rw [RecvBuffer.parseLoop,if_pos rfl]
      change _ = Except.mapError _ (if pos = pos then _ else _)
      rw [if_pos rfl]
      rfl
    · rw [hc]
      have hspec := handleIf_spec env hw msg
      have hif : RecvBuffer.handleIf (handleMessage env) msg w = (handleIf env msg w).mapError .handling := by
        cases msg <;> rfl
      change ((RecvBuffer.handleIf (handleMessage env) msg w >>= _ : Except _ _).map _) =
        (handleIf env msg w >>= _ : Except _ _).mapError _
      rw [hif]
      cases hh : handleIf env msg w with
      | error e => rfl
      | ok t =>
        rw [hh] at hspec
        have hbuf := hspec.recvbuf
        have ih := ih (w := t) (online_of_received hspec.steps hw) (hbuf ▸ hb) (Nat.ne_of_lt hlt)
          (by rwa [hbuf]) (by rw [hbuf]; omega)
        change ((buf.parseLoop (handleMessage env) (n + 1) pos next t >>= _ : Except _ _).map _) =
          ((if next = pos then _ else _ : Except _ _)).mapError _
        rw [if_neg (by omega),← ih]
        cases buf.parseLoop (handleMessage env) (n + 1) pos next t <;> rfl

def arrived (data : Bytes) (w : World) : World := { w with
  server.idleticks := IDLETICKS
  server.recvbuf := w.server.recvbuf ++ data
  ghost.received := w.ghost.received ++ [data] }

/-- The end of `connDataReceived`, with what the buffer keeps. -/
def received (rest : Bytes) (w : World) : Run :=
  let w := { w with server.recvbuf := rest }
  if w.server.connst = -1 then sendLogin env w else pure w

/-- `connDataReceived` on memory is `connDataReceived`. -/
theorem dataReceived_agrees (hw : w.Online) {conn : ConnId} (hc : w.server.conn = some conn)
    (hb : buf.Holds w.server.recvbuf) (hm : w.server.recvbuf.length ≤ 4096) {data : Bytes}
    (hdata : data.length ≤ 4096) :
    Meets (fun r => ∃ rest, r.buffer.Holds rest ∧ connDataReceived env conn data w = received env rest r.state)
      (fun stop => ∃ e, stop = .handling e ∧ connDataReceived env conn data w = .error e)
      (buf.dataReceived (handleMessage env) data (arrived data w)) := by
  obtain ⟨b,ha,hb'⟩ := hb.append data (by unfold RECVBUFSZ; omega)
  have hon : (arrived data w).Online := ⟨hw.conn,hw.sendQueue⟩
  have hsize := hb'.size
  have hloop := @parseLoop_agrees (arrived data w) b env hon hb' ((w.server.recvbuf ++ data).length + 1)
    IrcMessage.InMemory.NOPOS 0 (by decide) (Nat.zero_le _) (Nat.lt_succ_self _)
  have hspec := receiveLoop_spec env ((w.server.recvbuf ++ data).length + 1) 0 hon (Nat.zero_le _) (Nat.lt_succ_self _)
  have hsafe := RecvBuffer.parseLoop_safe (handleMessage env) hb' IrcMessage.InMemory.NOPOS
    (Nat.zero_le _) (Nat.le_refl ((w.server.recvbuf ++ data).length + 2)) (arrived data w)
  have hconn : connDataReceived env conn data w = (receiveLoop env ((w.server.recvbuf ++ data).length + 1) 0
      (arrived data w) >>= fun r => received env (keepRest r.2.server.recvbuf r.1) r.2) := by
    rw [connDataReceived,if_neg (not_not.mpr hc)]
    dsimp only
    rw [if_neg (by unfold RECVBUFSZ; omega)]
    rfl
  rw [RecvBuffer.dataReceived,ha]
  change Meets _ _ (b.parseLoop (handleMessage env) (b.recvbufsz + 2) _ 0 _ >>= _)
  rw [← hsize]
  cases hp : b.parseLoop (handleMessage env) ((w.server.recvbuf ++ data).length + 2) IrcMessage.InMemory.NOPOS 0
      (arrived data w) with
  | error stop =>
    rw [hp] at hloop hsafe
    obtain ⟨e,rfl⟩ := hsafe
    cases hr : receiveLoop env ((w.server.recvbuf ++ data).length + 1) 0 (arrived data w) with
    | ok r => rw [hr] at hloop; cases hloop
    | error e' =>
      rw [hr] at hloop
      obtain rfl : e = e' := Stop.handling.inj (Except.error.inj hloop)
      exact ⟨e,rfl,by rw [hconn,hr]; rfl⟩
  | ok r =>
    obtain ⟨positions,pos,t⟩ := r
    rw [hp] at hloop hsafe
    cases hr : receiveLoop env ((w.server.recvbuf ++ data).length + 1) 0 (arrived data w) with
    | error e' => rw [hr] at hloop; cases hloop
    | ok r' =>
      rw [hr] at hloop hspec
      obtain rfl : (pos,t) = r' := Except.ok.inj hloop
      obtain ⟨c,hk,hc'⟩ := hb'.keep hsafe.2
      change Meets _ _ (RecvBuffer.access (b.keep pos) >>= _)
      rw [hk]
      refine ⟨_,hc',?_⟩
      rw [hconn,hr]
      change received env (keepRest t.server.recvbuf pos) t = _
      rw [hspec.1.recvbuf]
      rfl

end IrcServer

/-- In every run, and wherever the data of its connection reaches the server: the buffer
holds at most 4096 bytes before and behind the call, the loop ends, its positions ascend
inside the bytes received, and no access to memory fails. -/
theorem receive_buffer_safe {w t : World} (h : w.Reachable) (ht : ReflTransGen Action w t) (env : Env) {conn : ConnId}
    (hc : t.server.conn = some conn) (hl : 0 < (t.conns conn).dataReceived.count () .connDataReceived 0)
    (chunk : Chunk) {buf : RecvBuffer} (hb : buf.Holds t.server.recvbuf) :
    buf.recvbufsz ≤ 4096 ∧
    Meets (fun r => r.buffer.recvbufsz ≤ 4096 ∧
        RecvBuffer.Ascending 0 (buf.recvbufsz + chunk.bytes.length) r.positions ∧
        ∃ rest, r.buffer.Holds rest ∧
          IrcServer.connDataReceived env conn chunk.bytes t = IrcServer.received env rest r.state)
      (fun stop => ∃ e, stop = .handling e ∧ IrcServer.connDataReceived env conn chunk.bytes t = .error e)
      (buf.dataReceived (IrcServer.handleMessage env) chunk.bytes (IrcServer.arrived chunk.bytes t)) := by
  have hi := h.inv.actions ht
  have hm := hi.recvbuf
  have hfits : chunk.bytes.length ≤ 4096 := chunk.fits
  have hon : t.Online := by
    refine ⟨by rw [hc]; rfl,?_⟩
    by_contra hq
    have hfresh := ((hi.attached conn hc).fresh (by simpa using hq)).1
    rw [Event.count,hfresh] at hl
    cases hl
  have hsafe := RecvBuffer.dataReceived_safe (IrcServer.handleMessage env) hb hm hfits (IrcServer.arrived chunk.bytes t)
  have hagrees := IrcServer.dataReceived_agrees env hon hc hb hm hfits
  refine ⟨hb.size ▸ hm,?_⟩
  cases hr : buf.dataReceived (IrcServer.handleMessage env) chunk.bytes (IrcServer.arrived chunk.bytes t) with
  | error stop =>
    rw [hr] at hagrees
    exact hagrees
  | ok r =>
    rw [hr] at hsafe hagrees
    exact ⟨hsafe.size,hb.size ▸ hsafe.positions,hagrees⟩

/-- An empty line, a message that holds a NUL, and the start of another line. -/
def mixedChunk : Chunk := ⟨[CR,LF,0x58,NUL,CR,LF,CR],by decide,by decide⟩

theorem receive_buffer_safe_connected : ∃ buf : RecvBuffer, buf.Holds World.connected.server.recvbuf ∧
    Meets (fun r => r.buffer.recvbufsz ≤ 4096) (fun stop => ∃ e, stop = .handling e)
      (buf.dataReceived (IrcServer.handleMessage .failing) mixedChunk.bytes
        (IrcServer.arrived mixedChunk.bytes World.connected)) := by
  obtain ⟨buf,hb⟩ : ∃ buf : RecvBuffer, buf.Holds World.connected.server.recvbuf := by
    have hbuf : World.connected.server.recvbuf = [] := by decide +kernel
    rw [hbuf]
    exact ⟨.create,.create⟩
  have hc : World.connected.server.conn = some 0 := by decide +kernel
  have h := receive_buffer_safe (t := World.connected) World.connected_reachable .refl .failing hc (by decide +kernel)
    mixedChunk hb
  exact ⟨buf,hb,h.2.mono (fun _ hr => hr.1) (fun _ ⟨e,he,_⟩ => ⟨e,he⟩)⟩

end LibIrcBot
