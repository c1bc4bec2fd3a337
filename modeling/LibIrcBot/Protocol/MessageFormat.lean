import LibIrcBot.Protocol.MessageParse

/-! # Messages written out

The parts of a message in the order in which the protocol writes them. The parser gives
the parts back, wherever in the buffer the line stands; a buffer has fewer than 2^16
bytes, so that the positions of the source do not wrap around.
-/
namespace LibIrcBot
open CString Framing

structure MessageParts where
  msgPrefix : Option Bytes
  command : Bytes
  middles : List Bytes
  trailing : Option Bytes

namespace MessageParts

structure Word (s : Bytes) : Prop where
  nonempty : s ≠ []
  space : SPACE ∉ s
  nul : NUL ∉ s

/-- A word that is not taken for a prefix or a trailing parameter. -/
structure Bare (s : Bytes) : Prop extends Word s where
  colon : s.head? ≠ some COLON

def paramText : List Bytes → Option Bytes → Bytes
  | [], none => []
  | [], some trailing => SPACE :: COLON :: trailing
  | middle :: middles, trailing => SPACE :: (middle ++ paramText middles trailing)

def prefixText (p : Option Bytes) : Bytes :=
  match p with
  | some p => COLON :: p ++ [SPACE]
  | none => []

variable (m : MessageParts)

/-- The line without its end. -/
def text : Bytes := prefixText m.msgPrefix ++ m.command ++ paramText m.middles m.trailing

/-- The message with these parts. The parameters are all that follows the command's space. -/
def message : IrcMessage where
  msgPrefix := m.msgPrefix
  rawCmd := m.command
  rawParams := if paramText m.middles m.trailing = [] then none else some (paramText m.middles m.trailing).tail
  params := m.middles ++ m.trailing.toList
  command := IrcCommand.parse m.command

structure Readable : Prop where
  msgPrefix : ∀ p ∈ m.msgPrefix, Word p
  command : Bare m.command
  middles : ∀ p ∈ m.middles, Bare p
  trailing : ∀ t ∈ m.trailing, NUL ∉ t

structure OneLine : Prop where
  msgPrefix : ∀ p ∈ m.msgPrefix, CR ∉ p ∧ LF ∉ p
  command : CR ∉ m.command ∧ LF ∉ m.command
  middles : ∀ p ∈ m.middles, CR ∉ p ∧ LF ∉ p
  trailing : ∀ t ∈ m.trailing, CR ∉ t ∧ LF ∉ t

variable {m}

theorem paramText_cases (middles : List Bytes) (trailing : Option Bytes) :
    (middles = [] ∧ trailing = none ∧ paramText middles trailing = []) ∨
      ∃ args, paramText middles trailing = SPACE :: args := by
  cases middles with
  | nil =>
    cases trailing with
    | none => exact Or.inl ⟨rfl,rfl,rfl⟩
    | some t => exact Or.inr ⟨_,rfl⟩
  | cons p middles => exact Or.inr ⟨_,rfl⟩

/-- Between the parts there are spaces and colons only. -/
theorem not_mem_paramText {c : UInt8} (hs : c ≠ SPACE) (hc : c ≠ COLON) {middles : List Bytes}
    {trailing : Option Bytes} (hm : ∀ p ∈ middles, c ∉ p) (ht : ∀ t ∈ trailing, c ∉ t) :
    c ∉ paramText middles trailing := by
  induction middles with
  | nil =>
    cases trailing with
    | none => exact List.not_mem_nil
    | some t =>
      have hct := ht t rfl
      simp [paramText,hs,hc,hct]
  | cons p middles ih =>
    have hp := hm p List.mem_cons_self
    have hrest := ih (fun q hq => hm q (List.mem_cons_of_mem _ hq))
    simp [paramText,hs,hp,hrest]

theorem not_mem_text {c : UInt8} (hs : c ≠ SPACE) (hc : c ≠ COLON) (hp : ∀ p ∈ m.msgPrefix, c ∉ p)
    (hcmd : c ∉ m.command) (hm : ∀ p ∈ m.middles, c ∉ p) (ht : ∀ t ∈ m.trailing, c ∉ t) : c ∉ m.text := by
  have hparams := not_mem_paramText hs hc hm ht
  unfold text
  cases hpre : m.msgPrefix with
  | none => simp [prefixText,hcmd,hparams]
  | some p =>
    have hcp := hp p hpre
    simp [prefixText,hs,hc,hcp,hcmd,hparams]

open IrcMessage in
/-- The parameter loop takes one word at each space, up to the trailing parameter. -/
theorem splitParams_paramText {middles : List Bytes} {trailing : Option Bytes} (hm : ∀ p ∈ middles, Bare p)
    {args : Bytes} (ha : paramText middles trailing = SPACE :: args) :
    splitParams args = middles ++ trailing.toList := by
  induction middles generalizing args with
  | nil =>
    cases trailing with
    | none => cases ha
    | some t =>
      rw [← (List.cons.inj ha).2,splitParams]
      rfl
  | cons p middles ih =>
    have hp := hm p List.mem_cons_self
    have hcolon : ∀ s, (p ++ s).head? ≠ some COLON := by
      intro s
      rw [List.head?_append_of_ne_nil _ hp.nonempty]
      exact hp.colon
    rw [← (List.cons.inj ha).2,splitParams,if_neg (hcolon _)]
    rcases paramText_cases middles trailing with ⟨rfl,rfl,hnil⟩ | ⟨args',hrest⟩
    · rw [hnil,List.append_nil,if_neg hp.space]
      rfl
    · rw [hrest,if_pos (by simp),word_append hp.space,after_append hp.space,
        ih (fun q hq => hm q (List.mem_cons_of_mem _ hq)) hrest]
      rfl

open IrcMessage in
theorem splitPrefix_text (h : m.Readable) :
    splitPrefix m.text = (m.msgPrefix,m.command ++ paramText m.middles m.trailing) := by
  unfold text splitPrefix
  cases hp : m.msgPrefix with
  | none =>
    rw [prefixText,List.nil_append,List.head?_append_of_ne_nil _ h.command.nonempty,if_neg h.command.colon]
  | some p =>
    have hw := h.msgPrefix p hp
    have htail : (prefixText (some p) ++ m.command ++ paramText m.middles m.trailing).tail =
        p ++ SPACE :: (m.command ++ paramText m.middles m.trailing) := by simp [prefixText]
    rw [htail,word_append hw.space,after_append hw.space,if_neg hw.nonempty,cstr_of_nul_free hw.nul]
    exact if_pos rfl

open IrcMessage in
/-- The parser understands a line as the message it was written for. -/
theorem ofLine_text (h : m.Readable) : ofLine m.text = m.message := by
  have hnul := not_mem_paramText (c := NUL) (by decide) (by decide) (fun p hp => (h.middles p hp).nul) h.trailing
  rw [ofLine,splitPrefix_text h]
  dsimp only
  rcases paramText_cases m.middles m.trailing with ⟨hm,ht,hnil⟩ | ⟨args,hargs⟩
  · rw [hnil,List.append_nil,word_of_not_mem h.command.space,after_of_not_mem h.command.space,splitArgs,if_pos rfl,
      cstr_of_nul_free h.command.nul]
    simp [message,hm,ht,paramText]
  · have hne : args ≠ [] := by
      rintro rfl
      have hs := splitParams_paramText h.middles hargs
      rw [splitParams] at hs
      rcases hm : m.middles with _ | ⟨p,middles⟩
      · rw [hm] at hargs
        cases ht : m.trailing with
        | none => simp [ht,paramText] at hargs
        | some t => simp [ht,paramText] at hargs
      · rw [hm,paramText] at hargs
        have hp := (h.middles p (by simp [hm])).nonempty
        simp [hp] at hargs
    rw [hargs] at hnul
    rw [hargs,word_append h.command.space,after_append h.command.space,splitArgs,if_neg hne,
      cstr_of_nul_free (fun hmem => hnul (List.mem_cons_of_mem _ hmem)),splitParams_paramText h.middles hargs,
      cstr_of_nul_free h.command.nul]
    simp [message,hargs]

theorem pairFree_text (h : m.OneLine) : PairFree CR LF m.text := by
  have hcr := not_mem_text (m := m) (c := CR) (by decide) (by decide) (fun p hp => (h.msgPrefix p hp).1) h.command.1
    (fun p hp => (h.middles p hp).1) (fun t ht => (h.trailing t ht).1)
  exact fun hp => hcr (hp.subset (by simp))

variable (m) in
def serialise : Bytes := m.text ++ [CR,LF]

theorem text_ne_nil (h : m.Readable) : m.text ≠ [] := by
  have hne := h.command.nonempty
  simp [text,hne]

/-- Parsing undoes writing out, at any position of a buffer and with any bytes behind the line. -/
theorem create_serialise (h : m.Readable) (hl : m.OneLine) (pre rest : Bytes) :
    IrcMessage.create (pre ++ m.serialise ++ rest) pre.length =
      (some m.message,pre.length + m.serialise.length) := by
  have hbuf : pre ++ m.serialise ++ rest = pre ++ (m.text ++ CR :: LF :: rest) := by simp [serialise]
  have hlen : pre.length + m.serialise.length = pre.length + m.text.length + 2 := by
    rw [serialise,List.length_append,Nat.add_assoc]
    rfl
  rw [hbuf,hlen,IrcMessage.create_line (pairFree_text hl),if_neg (text_ne_nil h),ofLine_text h]

/-- A message with all parts, a colon inside of a parameter, and an empty trailing one. -/
def sample : MessageParts := ⟨some (lit "n!u@h"),lit "MODE",[lit "#c",lit "a:b"],some []⟩

theorem sample_readable : sample.Readable where
  msgPrefix := by
    simp only [sample,Option.mem_some_iff,forall_eq']
    exact ⟨by decide,by decide,by decide⟩
  command := ⟨⟨by decide,by decide,by decide⟩,by decide⟩
  middles := by
    simp only [sample,List.forall_mem_cons]
    exact ⟨⟨⟨by decide,by decide,by decide⟩,by decide⟩,⟨⟨by decide,by decide,by decide⟩,by decide⟩,nofun⟩
  trailing := by
    simp only [sample,Option.mem_some_iff,forall_eq']
    decide

theorem sample_oneLine : sample.OneLine where
  msgPrefix := by simp only [sample,Option.mem_some_iff,forall_eq']; decide
  command := by decide
  middles := by simp only [sample]; decide
  trailing := by simp only [sample,Option.mem_some_iff,forall_eq']; decide

theorem create_serialise_sample : IrcMessage.create (lit "x" ++ sample.serialise ++ lit "y") 1 =
    (some ⟨some (lit "n!u@h"),lit "MODE",some (lit "#c a:b :"),[lit "#c",lit "a:b",[]],.MSG_MODE⟩,23) :=
  (create_serialise sample_readable sample_oneLine (lit "x") (lit "y")).trans (by decide)

end MessageParts
end LibIrcBot
