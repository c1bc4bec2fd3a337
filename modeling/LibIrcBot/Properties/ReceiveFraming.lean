import LibIrcBot.System.Receiving
import LibIrcBot.System.Runs

/-! # Framing does not depend on the reads

However the bytes of a connection are cut into reads, the messages that reach
`handleMessage` are those of its lines.
-/
namespace LibIrcBot.IrcServer
open CString Effects Relation Outcome Framing

def receive (conn : ConnId) (reads : List (Env × Bytes)) (w : World) : Run :=
  reads.foldlM (fun w read => connDataReceived read.1 conn read.2 w) w

def bytesOf (reads : List (Env × Bytes)) : List Bytes := reads.map Prod.snd

/-- The lines of a stream, with their ends, and its rest fit half of the receive buffer. -/
structure Bounded (s : Bytes) : Prop where
  lines : ∀ line ∈ (split CR LF s).1, line.length + 2 ≤ 4096
  rest : (split CR LF s).2.length ≤ 4096

theorem Bounded.cut {s t : Bytes} (h : Bounded (s ++ t)) :
    (split CR LF s).2.length ≤ 4096 ∧ Bounded ((split CR LF s).2 ++ t) := by
  have hs := split_append cr_ne_lf s t
  have hb : Bounded ((split CR LF s).2 ++ t) := by
    constructor
    · intro line hl
      refine h.lines line ?_
      rw [hs]
      exact List.mem_append_right _ hl
    · have hr := h.rest
      rwa [hs] at hr
  exact ⟨length_le_of_split (splits_split s).rest hb.lines hb.rest,hb⟩

/-- The messages of a sequence of reads are those of the lines of the whole stream. -/
theorem feeds_eq {recvbuf : Bytes} {reads : List Bytes} (hfree : PairFree CR LF recvbuf)
    (h : Bounded (recvbuf ++ reads.flatten)) : feeds recvbuf reads =
      ((split CR LF (recvbuf ++ reads.flatten)).1.filterMap IrcMessage.parse,
        (split CR LF (recvbuf ++ reads.flatten)).2) := by
  induction reads generalizing recvbuf with
  | nil =>
    rw [List.flatten_nil,List.append_nil,split_of_pairFree hfree]
    rfl
  | cons data reads ih =>
    rw [List.flatten_cons,← List.append_assoc] at h ⊢
    obtain ⟨hle,hb⟩ := h.cut
    have hf := feed_eq recvbuf data
    rw [if_neg (by omega)] at hf
    rw [feeds,hf]
    dsimp only
    rw [ih (splits_split _).rest hb,split_append cr_ne_lf (recvbuf ++ data),List.filterMap_append]

variable {w : World} {conn : ConnId}

/-- Every read hands over the messages that `feeds` finds, up to a fault of their handling. -/
theorem receive_spec {reads : List (Env × Bytes)} (hw : w.Online) (hc : w.server.conn = some conn)
    (hbuf : w.server.recvbuf.length ≤ 4096) (hcut : ∀ read ∈ reads, read.2.length ≤ 4096) :
    Meets (fun w' => w'.ghost.handled = w.ghost.handled ++ (feeds w.server.recvbuf (bytesOf reads)).1 ∧
        w'.server.recvbuf = (feeds w.server.recvbuf (bytesOf reads)).2)
      (fun e => e.2.ghost.handled <+: w.ghost.handled ++ (feeds w.server.recvbuf (bytesOf reads)).1 ∧
        ∃ env, FromHandling env e) (receive conn reads w) := by
  induction reads generalizing w with
  | nil => exact ⟨by simp [bytesOf,feeds],rfl⟩
  | cons read reads ih =>
    have hlen := hcut read List.mem_cons_self
    have hspec := connDataReceived_spec read.1 hw hc (show _ + read.2.length ≤ RECVBUFSZ by unfold RECVBUFSZ; omega)
    rw [receive,List.foldlM_cons]
    simp only [bytesOf,List.map_cons,feeds]
    refine Meets.bind (Meets.mono hspec (fun _ h => h) ?_) ?_
    · rintro e ⟨_,hp,hsrc⟩
      refine ⟨hp.trans ?_,read.1,hsrc⟩
      rw [← List.append_assoc]
      exact List.prefix_append _ _
    · rintro t ⟨hsteps,hh,hr,_⟩
      have ht := ih (online_of_received hsteps hw) ((same_of_received hsteps).conn.trans hc)
        (by rw [hr]; exact feed_length _ _) (fun r hr => hcut r (List.mem_cons_of_mem _ hr))
      rw [hh,hr,List.append_assoc] at ht
      exact ht

/-- From an empty receive buffer on, every way of cutting a stream into reads hands exactly
the messages of its non-empty lines to `handleMessage` and keeps exactly its rest. Only the
handling of a message itself can end this early. -/
theorem receive_framing (conn : ConnId) (reads : List (Env × Bytes)) (hw : w.Online) (hc : w.server.conn = some conn)
    (hempty : w.server.recvbuf = []) (hcut : ∀ read ∈ reads, read.2 ≠ [] ∧ read.2.length ≤ 4096)
    (hb : Bounded (bytesOf reads).flatten) :
    (∀ line ∈ (split CR LF (bytesOf reads).flatten).1, (IrcMessage.parse line).isSome ↔ line ≠ []) ∧
    Meets (fun w' =>
        w'.ghost.handled =
          w.ghost.handled ++ (split CR LF (bytesOf reads).flatten).1.filterMap IrcMessage.parse ∧
        w'.server.recvbuf = (split CR LF (bytesOf reads).flatten).2)
      (fun e =>
        e.2.ghost.handled <+:
          w.ghost.handled ++ (split CR LF (bytesOf reads).flatten).1.filterMap IrcMessage.parse ∧
        ∃ env, FromHandling env e) (receive conn reads w) := by
  constructor
  · intro line hl
    rw [IrcMessage.parse_eq ((splits_split _).lines line hl)]
    split <;> simp [*]
  · have hspec := receive_spec hw hc (by simp [hempty]) (fun read hr => (hcut read hr).2)
    rw [hempty,feeds_eq (pairFree_nil CR LF) hb] at hspec
    exact hspec

/-- A stream that is cut inside of a command, and inside of a CR LF. -/
def cutReads : List (Env × Bytes) :=
  [(Env.failing,lit ":a NOT"),(Env.failing,lit "ICE x\x0d"),(Env.failing,lit "\n\x0d\nre")]

theorem receive_framing_cutReads :
    Meets (fun w' =>
        w'.ghost.handled = [⟨some (lit "a"),lit "NOTICE",some (lit "x"),[lit "x"],.MSG_NOTICE⟩] ∧
        w'.server.recvbuf = lit "re")
      (fun e => e.2.ghost.handled <+: [⟨some (lit "a"),lit "NOTICE",some (lit "x"),[lit "x"],.MSG_NOTICE⟩])
      (receive 0 cutReads World.connected) := by
  have hsplit : split CR LF (bytesOf cutReads).flatten = ([lit ":a NOTICE x",[]],lit "re") := by decide
  have h := (receive_framing (w := World.connected) 0 cutReads
    ⟨by decide +kernel,by decide +kernel⟩ (by decide +kernel) (by decide +kernel) (by simp [cutReads]; decide)
    ⟨by rw [hsplit]; decide,by rw [hsplit]; decide⟩).2
  have hlog : World.connected.ghost.handled = [] := by decide +kernel
  have hparse : [lit ":a NOTICE x",[]].filterMap IrcMessage.parse =
      [⟨some (lit "a"),lit "NOTICE",some (lit "x"),[lit "x"],.MSG_NOTICE⟩] := by decide
  rw [hsplit,hlog,hparse] at h
  exact Meets.mono h (fun _ h => h) (fun _ h => h.1)

end LibIrcBot.IrcServer
