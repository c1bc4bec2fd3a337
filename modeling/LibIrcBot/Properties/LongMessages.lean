import LibIrcBot.Properties.ReceiveFraming
import LibIrcBot.Protocol.MessageFormat
import LibIrcBot.System.Loop

/-! # Long messages

The pieces `IrcServer_sendMsg` cuts a message into arrive as messages of their own, and
put together they are the message again.
-/
namespace LibIrcBot.IrcServer
open CString Outcome Framing Chunks

def actionText (action : Bool) (text : Bytes) : Bytes :=
  if action then lit "\x01ACTION " ++ text ++ [1] else text

def privmsgParts (recipient text : Bytes) : MessageParts := ⟨none,lit "PRIVMSG",[recipient],some text⟩

def privmsg (recipient text : Bytes) : IrcMessage where
  msgPrefix := none
  rawCmd := lit "PRIVMSG"
  rawParams := some (recipient ++ [SPACE,COLON] ++ text)
  params := [recipient,text]
  command := .MSG_PRIVMSG

theorem msgLine_eq (recipient : Bytes) (action : Bool) (text : Bytes) :
    msgLine recipient action text = (privmsgParts recipient (actionText action text)).serialise := by
  cases action <;> simp [msgLine,msgHeader,msgEnd,actionText,privmsgParts,MessageParts.serialise,
    MessageParts.text,MessageParts.prefixText,MessageParts.paramText]

theorem privmsgParts_readable {recipient text : Bytes} (hr : MessageParts.Bare recipient) (ht : NUL ∉ text) :
    (privmsgParts recipient text).Readable where
  msgPrefix := nofun
  command := by
    simp only [privmsgParts]
    exact ⟨⟨by decide,by decide,by decide⟩,by decide⟩
  middles := by simpa [privmsgParts] using hr
  trailing := by simpa [privmsgParts] using ht

theorem privmsgParts_message (recipient text : Bytes) :
    (privmsgParts recipient text).message = privmsg recipient text := by
  have hcmd : IrcCommand.parse (lit "PRIVMSG") = .MSG_PRIVMSG := by decide
  simp [privmsgParts,MessageParts.message,MessageParts.paramText,privmsg,hcmd]

theorem nul_not_mem_actionText {text : Bytes} (h : NUL ∉ text) (action : Bool) : NUL ∉ actionText action text := by
  have hhead : NUL ∉ lit "\x01ACTION " := by decide
  cases action with
  | false => exact h
  | true =>
    simp only [actionText,↓reduceIte,List.mem_append,List.mem_singleton,not_or]
    exact ⟨⟨hhead,h⟩,by decide⟩

/-- A line is read back as the piece it was written for. -/
theorem parse_privmsg {recipient text : Bytes} (hr : MessageParts.Bare recipient) (ht : NUL ∉ text)
    (hf : PairFree CR LF (privmsgParts recipient text).text) :
    IrcMessage.parse (privmsgParts recipient text).text = some (privmsg recipient text) := by
  have hread := privmsgParts_readable hr ht
  rw [IrcMessage.parse_eq hf,if_neg (MessageParts.text_ne_nil hread),MessageParts.ofLine_text hread,
    privmsgParts_message]

section Pieces
variable {recipient : Bytes} {action : Bool} {texts : List Bytes}

/-- However the lines for some texts are cut into reads, they are received as messages with these texts. -/
theorem feeds_privmsgs (hr : MessageParts.Bare recipient) (hnul : ∀ t ∈ texts, NUL ∉ t)
    (hl : ∀ t ∈ texts, IsLine (msgLine recipient action t)) {reads : List Bytes}
    (hreads : reads.flatten = (texts.map (msgLine recipient action)).flatten) :
    feeds [] reads = (texts.map fun t => privmsg recipient (actionText action t),[]) := by
  have hfree : ∀ t ∈ texts, (privmsgParts recipient (actionText action t)).text.length ≤ 510 ∧
      PairFree CR LF (privmsgParts recipient (actionText action t)).text := by
    intro t ht
    have hline := hl t ht
    rwa [msgLine_eq,MessageParts.serialise,isLine_append] at hline
  have hsplit : split CR LF reads.flatten =
      (texts.map fun t => (privmsgParts recipient (actionText action t)).text,[]) := by
    have hbodies : ∀ body ∈ texts.map fun t => (privmsgParts recipient (actionText action t)).text,
        PairFree CR LF body := List.forall_mem_map.mpr fun t ht => (hfree t ht).2
    have hjoin := split_join cr_ne_lf hbodies []
    rw [List.append_nil] at hjoin
    have hlines : texts.map (msgLine recipient action) =
        (texts.map fun t => (privmsgParts recipient (actionText action t)).text).map (· ++ [CR,LF]) := by
      rw [List.map_map]
      exact List.map_congr_left fun t _ => msgLine_eq recipient action t
    rw [hreads,hlines]
    simpa [Framing.join,split] using hjoin
  have hb : Bounded ([] ++ reads.flatten) := by
    rw [List.nil_append]
    constructor
    · rw [hsplit]
      simp only [List.forall_mem_map]
      intro t ht
      have hle := (hfree t ht).1
      omega
    · rw [hsplit]
      exact Nat.zero_le _
  rw [feeds_eq (pairFree_nil CR LF) hb,List.nil_append,hsplit]
  refine Prod.ext ?_ rfl
  dsimp only
  rw [List.filterMap_map,← List.filterMap_eq_map]
  refine List.filterMap_congr fun t ht => ?_
  exact parse_privmsg hr (nul_not_mem_actionText (hnul t ht) action) (hfree t ht).2

end Pieces

def pieces (recipient message : Bytes) (action : Bool) : List Bytes :=
  chunks (maxchunk recipient action) message.length message

/-- In every state of every run, what is sent while logged in is queued as a whole unless the queue
gives out an indeterminate pointer. -/
theorem sendMsg_queued {recipient : Bytes} (hlen : recipient.length ≤ 255) (message : Bytes) (action : Bool) {w : World}
    (h : w.Reachable) (hst : 0 < w.server.connst) :
    Meets (fun r => r.1 = 0 ∧ r.2.ghost.commands = w.ghost.commands ++ msgLines recipient message action)
      (fun e => e.1 = .wildPointer ∧ e.2.ghost.commands <+: w.ghost.commands ++ msgLines recipient message action)
      (sendMsg recipient message action w) := by
  have hlog := sendMsg_commands hlen message action hst
  have hsound := sendMsg_changes h.inv.logged recipient message action
  cases hr : sendMsg recipient message action w with
  | ok r =>
    rw [hr] at hlog
    exact hlog
  | error e =>
    rw [hr] at hlog hsound
    obtain ⟨hf,hqueued⟩ := hlog
    obtain ⟨_,_,hs⟩ := hsound
    exact ⟨hf.resolve_right fun hnull => hnull.elim hs.queue hs.conn,hqueued⟩

/-- While logged in, a message is sent in lines that are received as messages without prefix,
with the recipient and a non-empty piece of the text as parameters; the pieces are the whole
message, and each line fits its buffer. -/
theorem sendMsg_received (recipient message : Bytes) (action : Bool) {w : World} (h : w.Reachable)
    (hst : 0 < w.server.connst)
    (hlen : recipient.length ≤ 255) (hr : MessageParts.Bare recipient) (hline : CR ∉ recipient ∧ LF ∉ recipient)
    (hnul : NUL ∉ message) (hfree : PairFree CR LF message) :
    (pieces recipient message action).flatten = message ∧ (∀ t ∈ pieces recipient message action, t ≠ []) ∧
    (∀ line ∈ msgLines recipient message action, line.length ≤ 512 ∧ line.length + 1 ≤ RAWMSGSZ) ∧
    Meets (fun r => r.1 = 0 ∧ r.2.ghost.commands = w.ghost.commands ++ msgLines recipient message action)
      (fun e => e.1 = .wildPointer ∧ e.2.ghost.commands <+: w.ghost.commands ++ msgLines recipient message action)
      (sendMsg recipient message action w) ∧
    ∀ reads : List Bytes, reads.flatten = (msgLines recipient message action).flatten →
      feeds [] reads = ((pieces recipient message action).map fun t => privmsg recipient (actionText action t),[]) := by
  have hm := maxchunk_pos hlen action
  have hflat : (pieces recipient message action).flatten = message := chunks_flatten hm (Nat.le_refl _)
  have hpiece : ∀ t ∈ pieces recipient message action, t <:+: message := by
    intro t ht
    have hp := List.infix_of_mem_flatten ht
    rwa [hflat] at hp
  have hrecipient : PairFree CR LF recipient := fun hp => hline.1 (hp.subset (by simp))
  have hlines : ∀ t ∈ pieces recipient message action, IsLine (msgLine recipient action t) := by
    intro t ht
    exact (isLine_msgLine hlen (chunks_bounds hm t ht).2).mpr ⟨hrecipient,hfree.mono (hpiece t ht)⟩
  refine ⟨hflat,fun t ht => (chunks_bounds hm t ht).1,?_,sendMsg_queued hlen message action h hst,?_⟩
  · intro line hmem
    obtain ⟨t,ht,rfl⟩ := List.mem_map.mp hmem
    have hle := (hlines t ht).1
    exact ⟨hle,Nat.succ_le_succ hle⟩
  · exact fun reads => feeds_privmsgs hr (fun t ht hn => hnul ((hpiece t ht).subset hn)) hlines

/-- An action that is received in two reads. -/
theorem sendMsg_received_hi : feeds [] [lit "PRIVMSG #c :\x01ACT",lit "ION hi\x01\x0d\n"] =
    ([privmsg (lit "#c") (lit "\x01ACTION hi\x01")],[]) :=
  ((sendMsg_received (lit "#c") (lit "hi") true World.loggedIn_reachable (by decide +kernel) (by decide)
     ⟨⟨by decide,by decide,by decide⟩,by decide⟩ (by decide) (by decide) (by decide)).2.2.2.2
      [lit "PRIVMSG #c :\x01ACT",lit "ION hi\x01\x0d\n"] (by decide)).trans (by decide)

end LibIrcBot.IrcServer
