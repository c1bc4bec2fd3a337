import LibIrcBot.Protocol.MessageMemory

/-! # Parameters and their line

The parser cuts the parameters out of the rest of a line. Nothing is lost in this: the rest of the
line is kept beside them, and they give it back when they are joined.
-/
namespace LibIrcBot.IrcMessage
open CString Framing InMemory

/-- The parameters with single spaces between them, the last one behind a colon if there is one. -/
def joined (colon : Bool) : List Bytes → Bytes
  | [] => []
  | [param] => if colon then COLON :: param else param
  | param :: next :: params => param ++ SPACE :: joined colon (next :: params)

def hasColonField (raw : Bytes) : Bool := (raw.splitOn SPACE).any fun field => field.head? = some COLON

def Middle (param : Bytes) : Prop := SPACE ∉ param ∧ param.head? ≠ some COLON

theorem splitParams_ne_nil (s : Bytes) : splitParams s ≠ [] := by
  rw [splitParams]
  split_ifs <;> exact List.cons_ne_nil _ _

theorem head?_append_space (w t : Bytes) : (w ++ SPACE :: t).head? = some COLON ↔ w.head? = some COLON := by
  cases w with
  | nil => simp [SPACE,COLON]
  | cons x w => rfl

theorem splitParams_colon (s : Bytes) : splitParams (COLON :: s) = [s] := by
  rw [splitParams]
  simp

theorem splitParams_last {s : Bytes} (hc : s.head? ≠ some COLON) (hs : SPACE ∉ s) : splitParams s = [s] := by
  rw [splitParams,if_neg hc,if_neg hs]

theorem splitParams_append {w : Bytes} (hw : Middle w) (t : Bytes) :
    splitParams (w ++ SPACE :: t) = w :: splitParams t := by
  rw [splitParams,if_neg (fun h => hw.2 ((head?_append_space w t).mp h)),if_pos (by simp),
    word_append hw.1,after_append hw.1]

/-- A string ends with its last parameter, or starts with one that has another one behind it. -/
theorem params_cases (s : Bytes) : (∃ t, s = COLON :: t) ∨ s.head? ≠ some COLON ∧ SPACE ∉ s ∨
    ∃ w t, s = w ++ SPACE :: t ∧ Middle w := by
  by_cases hc : s.head? = some COLON
  · cases s with
    | nil => cases hc
    | cons x t => exact .inl ⟨t,by rw [Option.some.inj hc]⟩
  · rcases word_cases s with hs | ⟨w,t,rfl,hw⟩
    · exact .inr (.inl ⟨hc,hs⟩)
    · exact .inr (.inr ⟨w,t,rfl,hw,fun h => hc ((head?_append_space w t).mpr h)⟩)

/-- The three ways a string can start, as an induction over its fields. -/
theorem params_induction {motive : Bytes → Prop} (colon : ∀ s, motive (COLON :: s))
    (last : ∀ s, s.head? ≠ some COLON → SPACE ∉ s → motive s)
    (step : ∀ w t, Middle w → motive t → motive (w ++ SPACE :: t)) (s : Bytes) : motive s := by
  induction hn : s.length using Nat.strong_induction_on generalizing s with
  | _ n ih =>
    rcases params_cases s with ⟨t,rfl⟩ | ⟨hc,hs⟩ | ⟨w,t,rfl,hw⟩
    · exact colon t
    · exact last s hc hs
    · exact step w t hw (ih t.length (by rw [← hn]; simp; omega) t rfl)

theorem hasColonField_colon (s : Bytes) : hasColonField (COLON :: s) = true := by
  rcases word_cases s with hs | ⟨w,t,rfl,hw⟩
  · rw [hasColonField,List.splitOn_eq_singleton (by simpa [SPACE,COLON] using hs)]
    rfl
  · rw [hasColonField,← List.cons_append,
      List.splitOn_append_cons_self_of_not_mem (by simpa [SPACE,COLON] using hw)]
    rfl

theorem hasColonField_last {s : Bytes} (hc : s.head? ≠ some COLON) (hs : SPACE ∉ s) : hasColonField s = false := by
  rw [hasColonField,List.splitOn_eq_singleton hs]
  simpa using hc

theorem hasColonField_append {w : Bytes} (hw : Middle w) (t : Bytes) :
    hasColonField (w ++ SPACE :: t) = hasColonField t := by
  rw [hasColonField,List.splitOn_append_cons_self_of_not_mem hw.1,List.any_cons,decide_eq_false hw.2,Bool.false_or]
  rfl

/-- Only the last parameter may hold spaces or start with a colon. -/
theorem splitParams_middle (s : Bytes) : ∀ param ∈ (splitParams s).dropLast, Middle param := by
  induction s using params_induction with
  | colon s => simp [splitParams_colon]
  | last s hc hs => simp [splitParams_last hc hs]
  | step w t hw ih =>
    rw [splitParams_append hw,List.dropLast_cons_of_ne_nil (splitParams_ne_nil t)]
    exact List.forall_mem_cons.mpr ⟨hw,ih⟩

/-- Joining inverts the split. -/
theorem joined_splitParams (s : Bytes) : joined (hasColonField s) (splitParams s) = s := by
  induction s using params_induction with
  | colon s => rw [splitParams_colon,hasColonField_colon]; rfl
  | last s hc hs => rw [splitParams_last hc hs,hasColonField_last hc hs]; rfl
  | step w t hw ih =>
    rw [splitParams_append hw,hasColonField_append hw]
    rcases hp : splitParams t with _ | ⟨next,params⟩
    · exact absurd hp (splitParams_ne_nil t)
    · rw [joined,← hp,ih]

/-- A message was read from a terminated line, and is a function of it. -/
theorem create_some {buf : Bytes} {pos next : ℕ} {msg : IrcMessage} (h : create buf pos = (some msg,next)) :
    ∃ pre line rest, buf = pre ++ (line ++ CR :: LF :: rest) ∧ pos = pre.length ∧
      next = pre.length + line.length + 2 ∧ msg = ofLine line := by
  rw [create] at h
  cases hf : findEnd buf pos with
  | none => rw [hf] at h; cases h
  | some endpos =>
    rw [hf] at h
    obtain ⟨hmsg,hnext⟩ := Prod.ext_iff.mp h
    dsimp only at hmsg hnext
    have hp := scan_holds hf
    have hle := (scan_bounds hf).1
    simp only [Bool.and_eq_true,decide_eq_true_eq] at hp
    obtain ⟨hcr,hgcr⟩ := List.getElem?_eq_some_iff.mp hp.1
    obtain ⟨hlf,hglf⟩ := List.getElem?_eq_some_iff.mp hp.2
    have hend : buf.drop endpos = CR :: LF :: buf.drop (endpos + 2) := by
      rw [List.drop_eq_getElem_cons hcr,List.drop_eq_getElem_cons hlf,hgcr,hglf]
    have hlen : ((buf.drop pos).take (endpos - pos)).length = endpos - pos := by simp; omega
    have hpre : (buf.take pos).length = pos := by simp; omega
    have hbuf : buf = buf.take pos ++ ((buf.drop pos).take (endpos - pos) ++ CR :: LF :: buf.drop (endpos + 2)) := by
      conv_lhs => rw [← List.take_append_drop pos buf,← List.take_append_drop (endpos - pos) (buf.drop pos)]
      rw [List.drop_drop,Nat.add_sub_cancel' hle,hend]
    refine ⟨_,_,_,hbuf,hpre.symm,by omega,?_⟩
    split at hmsg
    case isTrue => cases hmsg
    case isFalse =>
      have hat := createAt_eq ((buf.drop pos).take (endpos - pos)) (buf.drop (endpos + 2)) (buf.take pos)
      rw [← hbuf,hlen,hpre,Nat.add_sub_cancel' hle] at hat
      exact (Option.some.inj hmsg).symm.trans hat

/-- What a message holds of the line it was read from. -/
structure Keeps (line raw : Bytes) (msg : IrcMessage) : Prop where
  rest : ∃ front, line = front ++ msg.rawCmd ++ SPACE :: raw ∧ SPACE ∉ msg.rawCmd ∧
    (front = [] ∧ line.head? ≠ some COLON ∨ ∃ origin, SPACE ∉ origin ∧ front = COLON :: origin ++ [SPACE])
  middle : ∀ param ∈ msg.params.dropLast, Middle param
  join : joined (hasColonField raw) msg.params = raw

/-- The words of a line stand behind its prefix. -/
theorem splitPrefix_front {line : Bytes} (hne : (splitPrefix line).2 ≠ []) :
    ∃ front, line = front ++ (splitPrefix line).2 ∧
      (front = [] ∧ line.head? ≠ some COLON ∨ ∃ origin, SPACE ∉ origin ∧ front = COLON :: origin ++ [SPACE]) := by
  unfold splitPrefix at hne ⊢
  by_cases hc : line.head? = some COLON
  · rw [if_pos hc] at hne ⊢
    cases line with
    | nil => cases hc
    | cons x t =>
      obtain rfl : x = COLON := Option.some.inj hc
      rcases word_cases t with ht | ⟨origin,words,rfl,ho⟩
      · exact absurd (after_of_not_mem ht) hne
      · refine ⟨COLON :: origin ++ [SPACE],?_,.inr ⟨origin,ho,rfl⟩⟩
        rw [List.tail_cons,after_append ho]
        simp
  · rw [if_neg hc]
    exact ⟨[],rfl,.inl ⟨rfl,hc⟩⟩

theorem keeps_ofLine {line raw : Bytes} (hn : NUL ∉ line) (hraw : (ofLine line).rawParams = some raw) :
    Keeps line raw (ofLine line) := by
  have hargs : after (splitPrefix line).2 ≠ [] := by
    intro he
    have hnone : (ofLine line).rawParams = (splitArgs (after (splitPrefix line).2)).1 := rfl
    rw [hnone,he] at hraw
    cases hraw
  obtain ⟨cmd,args,hwords,hcmd⟩ : ∃ cmd args, (splitPrefix line).2 = cmd ++ SPACE :: args ∧ SPACE ∉ cmd := by
    rcases word_cases (splitPrefix line).2 with hs | hs
    · exact absurd (after_of_not_mem hs) hargs
    · exact hs
  obtain ⟨front,hline,hfront⟩ := @splitPrefix_front line (by rw [hwords]; simp)
  have hfree : NUL ∉ cmd ∧ NUL ∉ args := by
    rw [hline,hwords] at hn
    simp only [List.mem_append,List.mem_cons,not_or] at hn
    exact ⟨hn.2.1,hn.2.2.2⟩
  rw [hwords,after_append hcmd] at hargs
  have hmsg : (ofLine line).rawCmd = cmd ∧ (ofLine line).rawParams = some args ∧ (ofLine line).params = splitParams args := by
    simp only [ofLine,hwords,word_append hcmd,after_append hcmd,splitArgs,if_neg hargs,cstr_of_nul_free hfree.1,
      cstr_of_nul_free hfree.2,and_self]
  obtain rfl : args = raw := Option.some.inj (hmsg.2.1.symm.trans hraw)
  exact {
    rest := by
      refine ⟨front,?_,by rwa [hmsg.1],hfront⟩
      rw [hmsg.1,List.append_assoc,← hwords]
      exact hline
    middle := by rw [hmsg.2.2]; exact splitParams_middle args
    join := by rw [hmsg.2.2]; exact joined_splitParams args }

/-- A message whose line holds no NUL has the rest of that line in `rawParams`, and the parameters
joined again give that rest. -/
theorem create_keeps {buf : Bytes} {pos next : ℕ} {msg : IrcMessage} {raw : Bytes}
    (h : create buf pos = (some msg,next)) (hraw : msg.rawParams = some raw)
    (hn : NUL ∉ slice buf pos (next - 2)) : Keeps (slice buf pos (next - 2)) raw msg := by
  obtain ⟨pre,line,rest,rfl,rfl,rfl,rfl⟩ := create_some h
  have hline : slice (pre ++ (line ++ CR :: LF :: rest)) pre.length (pre.length + line.length + 2 - 2) = line := by
    rw [slice,Nat.add_sub_cancel,Nat.add_sub_cancel_left,List.drop_left,List.take_left]
  rw [hline] at hn ⊢
  exact keeps_ofLine hn hraw

theorem create_keeps_topic : Keeps (lit ":a!b TOPIC  #c :x  y:") (lit " #c :x  y:")
    (ofLine (lit ":a!b TOPIC  #c :x  y:")) :=
  @create_keeps (lit ":a!b TOPIC  #c :x  y:\r\n") 0 23 _ _ (by decide +kernel) (by decide +kernel)
    (by decide +kernel)

end LibIrcBot.IrcMessage
