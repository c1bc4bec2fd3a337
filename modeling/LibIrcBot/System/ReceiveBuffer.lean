import LibIrcBot.Protocol.MessageMemory
import LibIrcBot.System.Receiving

/-! # The receive buffer

`connDataReceived` on the memory of `recvbuf`, with every access and every position
checked. What is done with a message is a parameter.
-/
namespace LibIrcBot
open CString Blocks Outcome IrcMessage.InMemory

structure RecvBuffer where
  recvbuf : Block UInt8
  recvbufsz : ℕ

/-- What ends the receiving early: an access to memory, or the handling of a message. -/
inductive Stop (ε : Type) where
  | memory (fault : MemoryFault)
  | handling (e : ε)

/-- The positions of the loop, the buffer and the state after one read. -/
structure Parsed (σ : Type) where
  positions : List ℕ
  buffer : RecvBuffer
  state : σ

namespace RecvBuffer
variable {σ ε : Type}

def create : RecvBuffer := ⟨malloc RECVBUFSZ,0⟩

def access {α : Type} (r : Checked α) : Except (Stop ε) α := r.mapError .memory

def append (buf : RecvBuffer) (data : Bytes) : Checked RecvBuffer := do
  let recvbuf ← memcpy buf.recvbuf buf.recvbufsz (holding data) 0 data.length
  let recvbufsz ← uint16 (buf.recvbufsz + data.length)
  pure ⟨recvbuf,recvbufsz⟩

def keep (buf : RecvBuffer) (pos : ℕ) : Checked RecvBuffer :=
  if pos = buf.recvbufsz then .ok { buf with recvbufsz := 0 }
  else if (buf.recvbufsz : ℤ) - pos > 4096 then .ok { buf with recvbufsz := 0 }
  else do
    let n ← size_t (buf.recvbufsz - pos)
    let recvbuf ← memcpy buf.recvbuf 0 buf.recvbuf pos n
    let recvbufsz ← uint16 (buf.recvbufsz - pos)
    pure ⟨recvbuf,recvbufsz⟩

variable (handle : IrcMessage → σ → Except ε σ)

def handleIf (msg : Option IrcMessage) (s : σ) : Except (Stop ε) σ :=
  match msg with
  | some msg => (handle msg s).mapError .handling
  | none => .ok s

/-- The loop over the messages, with the positions at which its condition is tested. -/
def parseLoop (buf : RecvBuffer) : ℕ → ℕ → ℕ → σ → Except (Stop ε) (List ℕ × ℕ × σ)
  | 0, _, _, _ => .error (.memory .outOfFuel)
  | n + 1, oldpos, pos, s =>
    if oldpos = pos then .ok ([pos],pos,s)
    else do
      let (msg,next) ← access (IrcMessage.InMemory.create buf.recvbuf buf.recvbufsz pos)
      let s ← handleIf handle msg s
      let (positions,last,s) ← parseLoop buf n pos next s
      pure (pos :: positions,last,s)

def dataReceived (buf : RecvBuffer) (data : Bytes) (s : σ) : Except (Stop ε) (Parsed σ) := do
  let buf ← access (buf.append data)
  let (positions,pos,s) ← parseLoop handle buf (buf.recvbufsz + 2) NOPOS 0 s
  let buf ← access (buf.keep pos)
  pure ⟨positions,buf,s⟩

/-- The given bytes are set at the start of the buffer, up to its size. -/
structure Holds (buf : RecvBuffer) (m : Bytes) : Prop where
  length : buf.recvbuf.length = RECVBUFSZ
  size : m.length = buf.recvbufsz
  bytes : buf.recvbuf.take buf.recvbufsz = holding m

namespace Holds
variable {buf : RecvBuffer} {m : Bytes}

theorem create : RecvBuffer.create.Holds [] := ⟨length_malloc _,rfl,rfl⟩

theorem room (h : buf.Holds m) : m.length ≤ RECVBUFSZ := by
  have hlen := congrArg List.length h.bytes
  rw [List.length_take,h.length,length_holding] at hlen
  omega

theorem append (h : buf.Holds m) (data : Bytes) (hroom : m.length + data.length ≤ RECVBUFSZ) :
    ∃ b, buf.append data = .ok b ∧ b.Holds (m ++ data) := by
  have hl := h.length
  have hs := h.size
  have hsize : uint16 ((buf.recvbufsz : ℤ) + data.length) = .ok (buf.recvbufsz + data.length) :=
    unsigned_ok (by omega) (by unfold RECVBUFSZ at hroom; omega)
  have hcopy : ((holding data).drop 0).take data.length = holding data := by
    rw [List.drop_zero,List.take_of_length_le (by simp)]
  refine ⟨⟨buf.recvbuf.take buf.recvbufsz ++ holding data ++ buf.recvbuf.drop (buf.recvbufsz + data.length),
    buf.recvbufsz + data.length⟩,?_,?_,?_,?_⟩
  · rw [RecvBuffer.append,memcpy_ok (by omega) (by simp),ok_bind,hsize,ok_bind,hcopy]
    rfl
  · simp
    omega
  · simp
    omega
  · dsimp only
    rw [h.bytes,← holding_append,List.take_left' (by simp; omega)]

theorem keep (h : buf.Holds m) {pos : ℕ} (hpos : pos ≤ m.length) :
    ∃ b, buf.keep pos = .ok b ∧ b.Holds (IrcServer.keepRest m pos) := by
  have hl := h.length
  have hs := h.size
  have hroom := h.room
  have hempty : RecvBuffer.Holds { buf with recvbufsz := 0 } [] := ⟨hl,rfl,rfl⟩
  rw [RecvBuffer.keep,IrcServer.keepRest]
  by_cases he : pos = m.length
  · rw [if_pos (he.trans hs),if_pos he]
    exact ⟨_,rfl,hempty⟩
  rw [if_neg (fun hp => he (hp.trans hs.symm)),if_neg he]
  by_cases hlong : m.length - pos > 4096
  · rw [if_pos (by omega),if_pos hlong]
    exact ⟨_,rfl,hempty⟩
  rw [if_neg (by omega),if_neg hlong]
  have hn : size_t ((buf.recvbufsz : ℤ) - pos) = .ok (buf.recvbufsz - pos) :=
    unsigned_ok (by omega) (by unfold RECVBUFSZ at hroom; omega)
  have hsize : uint16 ((buf.recvbufsz : ℤ) - pos) = .ok (buf.recvbufsz - pos) :=
    unsigned_ok (by omega) (by unfold RECVBUFSZ at hroom; omega)
  have hmove : (buf.recvbuf.drop pos).take (buf.recvbufsz - pos) = holding (m.drop pos) := by
    rw [← drop_holding,← h.bytes,List.drop_take]
  rw [hn,ok_bind,memcpy_ok (by omega) (by omega),ok_bind,hsize,ok_bind,hmove]
  refine ⟨_,rfl,?_,?_,?_⟩
  · simp
    omega
  · simp
    omega
  · rw [List.take_zero,List.nil_append,List.take_left' (by simp; omega)]

/-- One call of the parser: it stays where it is, or moves on inside the bytes. -/
theorem parse (h : buf.Holds m) (pos : ℕ) :
    access (ε := ε) (IrcMessage.InMemory.create buf.recvbuf buf.recvbufsz pos) = .ok (IrcMessage.create m pos) := by
  have hroom := h.room
  rw [create_eq h.bytes h.size (by unfold RECVBUFSZ at hroom; omega)]
  rfl

end Holds
end RecvBuffer
end LibIrcBot
