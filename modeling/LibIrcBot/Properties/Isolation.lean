import LibIrcBot.System.Loop

/-! # Messages and connections

The receive buffer belongs to the server and outlives its connections. What it holds when
a connection is established is read in front of the bytes of that connection.
-/
namespace LibIrcBot
open CString Effects Relation Framing IrcServer

variable {w w' : World}

/-- The messages handled and the receive buffer are those of the bytes received since the
connection was established, behind what the buffer held at that time. -/
structure Delivers (w : World) : Prop where
  reads : (w.ghost.handled,w.server.recvbuf) = feeds w.ghost.leftover w.ghost.received
  recvbuf : PairFree CR LF w.server.recvbuf
  leftover : PairFree CR LF w.ghost.leftover

theorem feed_pairFree (recvbuf data : Bytes) : PairFree CR LF (feed recvbuf data).2 := by
  rw [feed_eq]
  dsimp only
  split
  · exact pairFree_nil _ _
  · exact (splits_split _).rest

namespace Delivers

/-- What changes neither the buffer nor the logs keeps the invariant. -/
theorem same (h : Delivers w) (hs : w.SameConn w') : Delivers w' where
  reads := by
    rw [hs.handled,hs.recvbuf,hs.leftover,hs.received]
    exact h.reads
  recvbuf := hs.recvbuf ▸ h.recvbuf
  leftover := hs.leftover ▸ h.leftover

theorem receive {data : Bytes} (h : Delivers w) (hr : Reads w data w') : Delivers w' where
  reads := by
    have hreads := h.reads
    rw [hr.handled,hr.recvbuf,hr.received,(same_of_received hr.steps).leftover,feeds_snoc,← hreads]
  recvbuf := hr.recvbuf ▸ feed_pairFree _ _
  leftover := (same_of_received hr.steps).leftover ▸ h.leftover

theorem action (h : Delivers w) (ha : Action w w') : Delivers w' := by
  cases ha with
  | change hc => exact h.same hc.same
  | receive _ data hw hr => exact h.receive hr
  | establish conn hc hq hst =>
    rw [connConnected,if_pos hc]
    exact ⟨rfl,h.recvbuf,h.recvbuf⟩
  | close t established hc ht =>
    have hs := (same_of_effects (hangUp_effects ht)).toSameConn
    have hangUp : Delivers (hangUp established w) := { h with }
    exact { hangUp.same hs with }
  | connect env hc =>
    rcases connect_shape env hc with he | ⟨fd,conns,_,_,he⟩
    · rw [he]
      exact h
    · rw [he]
      exact { h with }
  | _ => exact { h with }

end Delivers

theorem World.Reachable.delivers (h : w.Reachable) : Delivers w := by
  refine World.Reachable.induct (I := Delivers) (fun w hi => ?_) (fun _ _ _ hd ha => hd.action ha) h
  constructor
  · rw [hi.ghost,hi.recvbuf]
    rfl
  · rw [hi.recvbuf]
    exact pairFree_nil _ _
  · rw [hi.ghost]
    exact pairFree_nil _ _

/-- Of the reads that follow, some are understood differently behind a non-empty rest. -/
theorem feeds_leftover {leftover : Bytes} (hfree : PairFree CR LF leftover) (hne : leftover ≠ []) :
    ∃ data, (feeds leftover [data]).1 ≠ (feeds [] [data]).1 := by
  have hfeeds : ∀ recvbuf data, (feeds recvbuf [data]).1 =
      (split CR LF (recvbuf ++ data)).1.filterMap IrcMessage.parse := by
    intro recvbuf data
    simp only [feeds,feed_eq,List.append_nil]
  have hx : PairFree CR LF (lit "x") := by decide
  have hlx : PairFree CR LF (LF :: lit "x") := by decide
  by_cases hlast : leftover.getLast? = some CR
  · -- The old line ends in front of the first new byte.
    obtain ⟨line,rfl⟩ := List.getLast?_eq_some_iff.mp hlast
    have hline := hfree.mono (List.prefix_append line [CR]).isInfix
    refine ⟨LF :: lit "x" ++ CR :: LF :: [],?_⟩
    have hold : line ++ [CR] ++ (LF :: lit "x" ++ CR :: LF :: []) =
        line ++ CR :: LF :: (lit "x" ++ CR :: LF :: []) := by simp
    rw [hfeeds,hfeeds,hold,List.nil_append,split_line cr_ne_lf hline,split_line cr_ne_lf hx,
      split_line cr_ne_lf hlx]
    simp only [split,List.filterMap_cons,List.filterMap_nil,IrcMessage.parse_eq hline,IrcMessage.parse_eq hx,
      IrcMessage.parse_eq hlx]
    by_cases hl : line = []
    · rw [if_pos hl]
      decide
    · simp [hl,lit]
  · -- The old bytes are the start of the first new line.
    have hpair : PairFree CR LF ([] : Bytes) := pairFree_nil _ _
    refine ⟨[] ++ CR :: LF :: [],?_⟩
    rw [hfeeds,hfeeds,List.nil_append,List.nil_append,split_line cr_ne_lf hfree]
    simp [split,IrcMessage.parse_eq hfree,hne,IrcMessage.parse_eq hpair]

/-- What is handled on a connection is a function of the bytes received on it and of what the
buffer held when it was established. It depends on the bytes alone exactly if the buffer was
empty; all such connections that receive the same bytes then handle the same messages. -/
theorem connections_isolated (h : w.Reachable) :
    w.ghost.handled = (feeds w.ghost.leftover w.ghost.received).1 ∧
    ((∀ reads, (feeds w.ghost.leftover reads).1 = (feeds [] reads).1) ↔ w.ghost.leftover = []) ∧
    (w.ghost.leftover = [] → ∀ w' : World, w'.Reachable → w'.ghost.leftover = [] →
      w'.ghost.received = w.ghost.received → w'.ghost.handled = w.ghost.handled) := by
  have hd := h.delivers
  refine ⟨congrArg Prod.fst hd.reads,⟨fun hall => ?_,fun hl => ?_⟩,fun hl w' h' hl' hr => ?_⟩
  · by_contra hne
    obtain ⟨data,hdata⟩ := feeds_leftover hd.leftover hne
    exact hdata (hall [data])
  · rw [hl]
    exact fun _ => rfl
  · have hd' := congrArg Prod.fst h'.delivers.reads
    rw [hl',hr,← hl] at hd'
    exact hd'.trans (congrArg Prod.fst hd.reads).symm

/-- A server whose first connection received `first` before it was lost, and whose second one
received the rest of a line. -/
def World.rejoined (first : Chunk) : World :=
  after (Label.dropping first ++ Label.reconnecting ++
    Label.iteration (.io [] [4]) 2 3 (.delivering ⟨lit "ICE x\x0d\n",by decide,by decide⟩)) connected

theorem rejoined_reachable : (World.rejoined ⟨lit "y\x0d\n",by decide,by decide⟩).Reachable :=
  World.after_reachable World.connected_reachable (by decide +kernel)

theorem connections_isolated_rejoined : (World.rejoined ⟨lit "y\x0d\n",by decide,by decide⟩).ghost.handled =
    [⟨none,lit "ICE",some (lit "x"),[lit "x"],.CMD_UNKNOWN⟩] :=
  ((connections_isolated rejoined_reachable).1).trans (by decide +kernel)

/-- Two runs that differ in the bytes of the first connection only handle different messages on
the second one: the start of a line that was cut off is read in front of it. -/
theorem rejoined_mixed :
    (World.rejoined ⟨lit ":a NOT",by decide,by decide⟩).Reachable ∧
    (World.rejoined ⟨lit ":a NOT",by decide,by decide⟩).server.connst =
      (World.rejoined ⟨lit "y\x0d\n",by decide,by decide⟩).server.connst ∧
    (World.rejoined ⟨lit ":a NOT",by decide,by decide⟩).ghost.received =
      (World.rejoined ⟨lit "y\x0d\n",by decide,by decide⟩).ghost.received ∧
    (World.rejoined ⟨lit ":a NOT",by decide,by decide⟩).ghost.handled =
      [⟨some (lit "a"),lit "NOTICE",some (lit "x"),[lit "x"],.MSG_NOTICE⟩] ∧
    (World.rejoined ⟨lit ":a NOT",by decide,by decide⟩).ghost.handled ≠
      (World.rejoined ⟨lit "y\x0d\n",by decide,by decide⟩).ghost.handled :=
  ⟨World.after_reachable World.connected_reachable (by decide +kernel),by decide +kernel,by decide +kernel,
    by decide +kernel,by decide +kernel⟩

end LibIrcBot
