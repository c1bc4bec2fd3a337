import LibIrcBot.System.Sending
import LibIrcBot.Foundations.Chunks

/-! # Commands as lines

Which of the strings that `sendRawCmd` and `IrcServer_sendMsg` hand to `sendRaw` are
lines of the protocol, and what the peer makes of a sequence of lines.
-/
namespace LibIrcBot.IrcServer
open CString Outcome Framing Chunks

/-- At most 512 bytes, with CR LF at the end and nowhere else. -/
def IsLine (s : Bytes) : Prop := s.length ≤ 512 ∧ ∃ body, s = body ++ [CR,LF] ∧ PairFree CR LF body

theorem isLine_append {body : Bytes} : IsLine (body ++ [CR,LF]) ↔ body.length ≤ 510 ∧ PairFree CR LF body := by
  unfold IsLine
  rw [List.length_append]
  constructor
  · rintro ⟨hlen,body',he,hf⟩
    rw [List.append_cancel_right he]
    exact ⟨by rw [← List.append_cancel_right he]; simpa using hlen,hf⟩
  · rintro ⟨hlen,hf⟩
    exact ⟨by simpa using hlen,body,rfl,hf⟩

/-- The peer splits a sequence of lines into exactly these. -/
theorem split_lines {lines : List Bytes} (h : ∀ line ∈ lines, IsLine line) :
    ∃ bodies, lines = bodies.map (· ++ [CR,LF]) ∧ split CR LF lines.flatten = (bodies,[]) := by
  induction lines with
  | nil => exact ⟨[],rfl,rfl⟩
  | cons line lines ih =>
    obtain ⟨_,body,rfl,hf⟩ := h line List.mem_cons_self
    obtain ⟨bodies,rfl,hs⟩ := ih (fun l hl => h l (List.mem_cons_of_mem _ hl))
    refine ⟨body :: bodies,rfl,?_⟩
    rw [List.flatten_cons,List.append_assoc,List.cons_append,List.cons_append,List.nil_append,
      split_line cr_ne_lf hf,hs]

/-- Name, space and arguments fit in front of the line end and have none of their own, or
they have their first line end just where `snprintf` truncates. -/
def FitsLine (x : Bytes) : Prop :=
  (x.length ≤ 510 ∧ PairFree CR LF x) ∨ ∃ a b, x = a ++ CR :: LF :: b ∧ a.length = 510 ∧ PairFree CR LF a

theorem isLine_truncated {x : Bytes} : IsLine ((x ++ [CR,LF]).take 512) ↔ FitsLine x := by
  by_cases hx : x.length ≤ 510
  · rw [List.take_of_length_le (by simp; omega),isLine_append]
    constructor
    · exact Or.inl
    · rintro (h | ⟨a,b,rfl,ha,_⟩)
      · exact h
      · simp only [List.length_append,List.length_cons,ha] at hx
        omega
  · constructor
    · rintro ⟨_,body,hbody,hf⟩
      have hlen := congrArg List.length hbody
      simp only [List.length_take,List.length_append,List.length_cons,List.length_nil] at hlen
      have hp : body ++ [CR,LF] <+: x ++ [CR,LF] := by
        rw [← hbody]
        exact List.take_prefix _ _
      by_cases h511 : x.length = 511
      · -- The string would end with a CR that is followed by nothing.
        have hc : (x ++ [CR,LF]).take 512 = x ++ [CR] := by
          rw [List.take_append,h511,List.take_of_length_le (by omega)]
          rfl
        have hlast := congrArg List.getLast? (hbody.symm.trans hc)
        simp [CR,LF] at hlast
      · have hpx : body ++ [CR,LF] <+: x :=
          List.prefix_of_prefix_length_le hp (List.prefix_append _ _) (by simp; omega)
        obtain ⟨b,rfl⟩ := hpx
        exact Or.inr ⟨body,b,by simp,by omega,hf⟩
    · rintro (⟨h,_⟩ | ⟨a,b,rfl,ha,hf⟩)
      · exact absurd h hx
      · have ht : (a ++ CR :: LF :: b ++ [CR,LF]).take 512 = a ++ [CR,LF] := by
          have he : a ++ CR :: LF :: b ++ [CR,LF] = (a ++ [CR,LF]) ++ (b ++ [CR,LF]) := by simp
          rw [he,List.take_left' (by simp [ha])]
        rw [ht]
        exact isLine_append.mpr ⟨by omega,hf⟩

theorem isLine_rawCmd (name args : Bytes) : IsLine (rawCmd name args) ↔ FitsLine (name ++ SPACE :: args) := by
  rw [← isLine_truncated]
  unfold rawCmd snprintf
  simp

def maxchunk (recipient : Bytes) (action : Bool) : ℕ :=
  RAWMSGSZ - (msgHeader recipient action).length - 3 - if action then 1 else 0

theorem msgHeader_length (recipient : Bytes) (action : Bool) :
    (msgHeader recipient action).length = recipient.length + if action then 18 else 10 := by
  cases action <;> simp [msgHeader,lit]

theorem maxchunk_eq (recipient : Bytes) (action : Bool) :
    maxchunk recipient action = 500 - recipient.length - if action then 9 else 0 := by
  rw [maxchunk,msgHeader_length,RAWMSGSZ]
  cases action <;> simp <;> omega

theorem maxchunk_pos {recipient : Bytes} (h : recipient.length ≤ 255) (action : Bool) :
    0 < maxchunk recipient action := by
  rw [maxchunk_eq]
  cases action <;> simp <;> omega

def msgLine (recipient : Bytes) (action : Bool) (text : Bytes) : Bytes :=
  msgHeader recipient action ++ text ++ msgEnd action

def msgLines (recipient message : Bytes) (action : Bool) : List Bytes :=
  (chunks (maxchunk recipient action) message.length message).map (msgLine recipient action)

theorem msgLine_length (recipient : Bytes) (action : Bool) (text : Bytes) :
    (msgLine recipient action text).length = recipient.length + text.length + if action then 21 else 12 := by
  simp only [msgLine,List.length_append,msgHeader_length]
  cases action <;> simp [msgEnd] <;> omega

theorem pairFree_header (recipient : Bytes) (action : Bool) :
    PairFree CR LF (msgHeader recipient action) ↔ PairFree CR LF recipient := by
  have hcmd : PairFree CR LF (lit "PRIVMSG" ++ [SPACE]) := by decide
  have htail : ∀ action : Bool, PairFree CR LF ([SPACE,COLON] ++ if action then lit "\x01ACTION " else []) := by decide
  have hb : ∀ action : Bool, ([SPACE,COLON] ++ if action then lit "\x01ACTION " else []).head? ≠ some LF := by decide
  have ha : (lit "PRIVMSG" ++ [SPACE]).getLast? ≠ some CR := by decide
  unfold msgHeader
  rw [List.append_assoc _ [SPACE,COLON],pairFree_append,pairFree_append]
  simp only [hcmd,htail,hb,ha,false_and,and_false,not_false_eq_true,and_true,true_and]

theorem isLine_msgLine {recipient text : Bytes} {action : Bool} (hr : recipient.length ≤ 255)
    (ht : text.length ≤ maxchunk recipient action) :
    IsLine (msgLine recipient action text) ↔ PairFree CR LF recipient ∧ PairFree CR LF text := by
  have hlast : (msgHeader recipient action).getLast? ≠ some CR := by
    unfold msgHeader
    rw [List.append_assoc _ [SPACE,COLON],List.getLast?_append]
    cases action <;> simp [lit,SPACE,COLON,CR]
  have hbody : msgLine recipient action text =
      (msgHeader recipient action ++ text ++ if action then [1] else []) ++ [CR,LF] := by
    cases action <;> simp [msgLine,msgEnd]
  have hend : ∀ action : Bool, PairFree CR LF (if action then [1] else []) := by decide
  have hend' : ∀ action : Bool, (if action then [1] else [] : Bytes).head? ≠ some LF := by decide
  have hlen := msgLine_length recipient action text
  rw [maxchunk_eq] at ht
  rw [hbody,List.length_append] at hlen
  rw [hbody,isLine_append,pairFree_append,pairFree_append,pairFree_header]
  have hsize : (msgHeader recipient action ++ text ++ if action then [1] else []).length ≤ 510 := by
    simp only [List.length_cons,List.length_nil] at hlen
    cases action <;> simp at hlen ht ⊢ <;> omega
  simp only [hsize,hlast,hend,hend',false_and,and_false,not_false_eq_true,and_true,true_and]

/-- No CR LF in the recipient, and in the message only across the ends of its pieces. -/
def FitsLines (recipient message : Bytes) (action : Bool) : Prop :=
  message = [] ∨ (PairFree CR LF recipient ∧ ∀ i, message[i]? = some CR → message[i + 1]? = some LF →
    (i + 1) % maxchunk recipient action = 0)

theorem isLine_msgLines {recipient message : Bytes} {action : Bool} (hr : recipient.length ≤ 255) :
    (∀ line ∈ msgLines recipient message action, IsLine line) ↔ FitsLines recipient message action := by
  have hm := maxchunk_pos hr action
  have hlines : (∀ line ∈ msgLines recipient message action, IsLine line) ↔
      ∀ text ∈ chunks (maxchunk recipient action) message.length message,
        PairFree CR LF recipient ∧ PairFree CR LF text := by
    unfold msgLines
    rw [List.forall_mem_map]
    exact forall₂_congr fun text ht => isLine_msgLine hr (chunks_bounds hm text ht).2
  rw [hlines,FitsLines,← pairFree_chunks_iff hm (Nat.le_refl _)]
  cases message with
  | nil => simp [chunks]
  | cons x message =>
    have hmem : ∃ text, text ∈ chunks (maxchunk recipient action) (x :: message).length (x :: message) :=
      ⟨_,List.mem_cons_self⟩
    obtain ⟨text,hmem⟩ := hmem
    constructor
    · intro h
      exact Or.inr ⟨(h text hmem).1,fun t ht => (h t ht).2⟩
    · rintro (h | h)
      · cases h
      · exact fun t ht => ⟨h.1,h.2 t ht⟩

/-- `IrcServer_sendMsg` hands its lines to `sendRaw` one by one and stays inside its buffer. -/
theorem sendChunks_commands {recipient : Bytes} (hr : recipient.length ≤ 255) (action : Bool) {n : ℕ}
    {message : Bytes} (hn : message.length ≤ n) (w : World) :
    Meets (fun w' => w'.ghost.commands =
        w.ghost.commands ++ (chunks (maxchunk recipient action) n message).map (msgLine recipient action))
      (fun e => OfSending e.1 ∧ e.2.ghost.commands <+:
        w.ghost.commands ++ (chunks (maxchunk recipient action) n message).map (msgLine recipient action))
      (sendChunks (msgHeader recipient action) action (maxchunk recipient action) n message w) := by
  have hm := maxchunk_pos hr action
  induction n generalizing message w with
  | zero =>
    rw [sendChunks,if_pos (List.length_eq_zero_iff.mp (by omega))]
    simp [chunks]
  | succ n ih =>
    rw [sendChunks,chunks]
    by_cases he : message = []
    · simp [he]
    · have htake : message.take (if message.length > maxchunk recipient action then maxchunk recipient action
          else message.length) = message.take (maxchunk recipient action) := by
        split
        · rfl
        · rw [List.take_of_length_le (Nat.le_refl _),List.take_of_length_le (by omega)]
      have hdrop : message.drop (if message.length > maxchunk recipient action then maxchunk recipient action
          else message.length) = message.drop (maxchunk recipient action) := by
        split
        · rfl
        · rw [List.drop_of_length_le (Nat.le_refl _),List.drop_of_length_le (by omega)]
      have hlen := msgLine_length recipient action (message.take (maxchunk recipient action))
      have hle := List.length_take_le (maxchunk recipient action) message
      have hfit : ¬ (msgLine recipient action (message.take (maxchunk recipient action))).length + 1 > RAWMSGSZ := by
        rw [hlen,RAWMSGSZ]
        rw [maxchunk_eq] at hle ⊢
        cases action <;> simp at hle ⊢ <;> omega
      rw [if_neg he,if_neg (by simpa using he)]
      dsimp only
      rw [htake,hdrop,List.map_cons,List.append_cons]
      rw [msgLine] at hfit ⊢
      rw [if_neg hfit]
      refine Meets.bind (Meets.mono (sendRaw_commands _ w) (fun _ h => h) ?_) ?_
      · rintro e' ⟨hc,hf⟩
        rw [hc]
        exact ⟨hf,List.prefix_append _ _⟩
      · intro t ht
        rw [← ht]
        exact ih (by rw [List.length_drop]; omega) t

/-- `IrcServer_sendMsg` while logged in. -/
theorem sendMsg_commands {recipient : Bytes} (hr : recipient.length ≤ 255) (message : Bytes) (action : Bool)
    {w : World} (hst : 0 < w.server.connst) :
    Meets (fun r => r.1 = 0 ∧ r.2.ghost.commands = w.ghost.commands ++ msgLines recipient message action)
      (fun e => OfSending e.1 ∧ e.2.ghost.commands <+: w.ghost.commands ++ msgLines recipient message action)
      (sendMsg recipient message action w) := by
  have hlen := msgHeader_length recipient action
  unfold sendMsg
  rw [if_neg (by omega),if_neg (by omega)]
  dsimp only
  rw [if_neg (by rw [hlen,RAWMSGSZ]; split <;> omega)]
  exact Meets.bind (sendChunks_commands hr action (Nat.le_refl _) w) (fun t ht => ⟨rfl,ht⟩)

end LibIrcBot.IrcServer
