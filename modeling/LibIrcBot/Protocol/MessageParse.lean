import LibIrcBot.Protocol.IrcMessage
import LibIrcBot.Foundations.Framing

/-! # What the parser makes of a line

The indices of `IrcMessage_create` never leave the line between the position and the
next CR LF. The message is therefore a function of that line alone.
-/
namespace LibIrcBot.IrcMessage
open CString Framing

theorem scan_eq_some {p : ℕ → Bool} {n i j : ℕ} (hij : i ≤ j) (hj : j < i + n) (hp : p j)
    (hlt : ∀ k, i ≤ k → k < j → p k = false) : scan p n i = some j := by
  induction n generalizing i with
  | zero => omega
  | succ n ih =>
    rw [scan]
    rcases Nat.eq_or_lt_of_le hij with rfl | hlt'
    · rw [if_pos hp]
    · rw [if_neg (by simp [hlt i (Nat.le_refl i) hlt'])]
      exact ih (by omega) (by omega) (fun k hk => hlt k (by omega))

theorem scan_eq_none {p : ℕ → Bool} {n i : ℕ} (h : ∀ k, i ≤ k → k < i + n → p k = false) :
    scan p n i = none := by
  induction n generalizing i with
  | zero => rfl
  | succ n ih =>
    rw [scan,if_neg (by simp [h i (Nat.le_refl i) (by omega)])]
    exact ih (fun k hk hk' => h k (by omega) (by omega))

theorem findEnd_of_line {line rest pre : Bytes} (h : PairFree CR LF line) :
    findEnd (pre ++ (line ++ CR :: LF :: rest)) pre.length = some (pre.length + line.length) := by
  have hget : ∀ k, (pre ++ (line ++ CR :: LF :: rest))[pre.length + k]? = (line ++ CR :: LF :: rest)[k]? := by
    intro k
    rw [List.getElem?_append_right (by omega),Nat.add_sub_cancel_left]
  refine scan_eq_some (by omega) (by simp only [List.length_append,List.length_cons]; omega) ?_ ?_
  · rw [Nat.add_assoc,hget,hget]
    simp
  · intro k hk hlt
    obtain ⟨i,rfl⟩ := Nat.exists_eq_add_of_le hk
    have hi : i < line.length := by omega
    rw [Nat.add_assoc,hget,hget,List.getElem?_append_left hi]
    by_contra hp
    simp only [Bool.not_eq_false,Bool.and_eq_true,decide_eq_true_eq] at hp
    by_cases hi' : i + 1 < line.length
    · rw [List.getElem?_append_left hi'] at hp
      exact pair_at hp.1 hp.2 h
    · rw [List.getElem?_append_right (by omega),show i + 1 - line.length = 0 by omega] at hp
      simp [CR,LF] at hp

theorem findEnd_of_pairFree {buf : Bytes} {pos : ℕ} (h : PairFree CR LF (buf.drop pos)) :
    findEnd buf pos = none := by
  refine scan_eq_none ?_
  intro k hk _
  obtain ⟨i,rfl⟩ := Nat.exists_eq_add_of_le hk
  by_contra hp
  simp only [Bool.not_eq_false,Bool.and_eq_true,decide_eq_true_eq] at hp
  exact pair_at (i := i) (by rw [List.getElem?_drop]; exact hp.1)
    (by rw [List.getElem?_drop,← Nat.add_assoc]; exact hp.2) h

/-- A line up to its first space, and what follows that space. -/
def word (s : Bytes) : Bytes := s.takeWhile (· ≠ SPACE)
def after (s : Bytes) : Bytes := (s.dropWhile (· ≠ SPACE)).drop 1

/-- From index `c` on the buffer reads `s` up to a CR at `endpos`. -/
def Reads (buf : Bytes) (c endpos : ℕ) (s : Bytes) : Prop :=
  endpos = c + s.length ∧ ∃ rest, buf.drop c = s ++ CR :: rest

theorem word_append {w : Bytes} (h : SPACE ∉ w) (t : Bytes) : word (w ++ SPACE :: t) = w := by
  rw [word,List.takeWhile_append_of_pos (fun x hx => by simpa using fun he : x = SPACE => h (he ▸ hx))]
  simp

theorem after_append {w : Bytes} (h : SPACE ∉ w) (t : Bytes) : after (w ++ SPACE :: t) = t := by
  rw [after,List.dropWhile_append_of_pos (fun x hx => by simpa using fun he : x = SPACE => h (he ▸ hx))]
  simp

theorem word_of_not_mem {s : Bytes} (h : SPACE ∉ s) : word s = s :=
  List.takeWhile_eq_self_iff.mpr (fun x hx => by simpa using fun he : x = SPACE => h (he ▸ hx))

theorem after_of_not_mem {s : Bytes} (h : SPACE ∉ s) : after s = [] := by
  rw [after,List.dropWhile_eq_nil_iff.mpr (fun x hx => by simpa using fun he : x = SPACE => h (he ▸ hx))]
  rfl

theorem word_cases (s : Bytes) : SPACE ∉ s ∨ ∃ w t, s = w ++ SPACE :: t ∧ SPACE ∉ w := by
  by_cases h : SPACE ∈ s
  · obtain ⟨w,t,hs,hw⟩ := List.eq_append_cons_of_mem h
    exact Or.inr ⟨w,t,hs,hw⟩
  · exact Or.inl h

section Cursor
variable {buf s : Bytes} {c endpos : ℕ}

theorem Reads.getElem? (h : Reads buf c endpos s) (i : ℕ) (hi : i ≤ s.length) :
    buf[c + i]? = (s ++ [CR])[i]? := by
  obtain ⟨rest,hr⟩ := h.2
  rw [← List.getElem?_drop,hr,show s ++ CR :: rest = s ++ [CR] ++ rest by simp,
    List.getElem?_append_left (by simp; omega)]

/-- The byte behind the first word is a space if the line has one, and the CR otherwise. -/
theorem Reads.word_end (h : Reads buf c endpos s) : buf[c + (word s).length]? = some SPACE ↔ SPACE ∈ s := by
  rcases word_cases s with hn | ⟨w,t,rfl,hw⟩
  · rw [word_of_not_mem hn,h.getElem? _ (Nat.le_refl _)]
    simpa [CR,SPACE] using hn
  · rw [word_append hw,h.getElem? _ (by simp)]
    simp

theorem Reads.findSpace (h : Reads buf c endpos s) : findSpace buf c endpos = c + (word s).length := by
  have hend := h.1
  have hlt : ∀ w t, s = w ++ t → SPACE ∉ w → ∀ k, c ≤ k → k < c + w.length →
      decide (buf[k]? = some SPACE) = false := by
    intro w t hs hw k hk hlt
    obtain ⟨i,rfl⟩ := Nat.exists_eq_add_of_le hk
    have hi : i < w.length := by omega
    rw [h.getElem? i (by rw [hs,List.length_append]; omega),hs,List.append_assoc,List.getElem?_append_left hi,
      List.getElem?_eq_getElem hi,decide_eq_false_iff_not]
    intro he
    exact hw (Option.some.inj he ▸ List.getElem_mem hi)
  unfold IrcMessage.findSpace
  rcases word_cases s with hn | ⟨w,t,hs,hw⟩
  · rw [word_of_not_mem hn,scan_eq_none (fun k hk hk' => hlt s [] (by simp) hn k hk (by omega)),hend]
    rfl
  · have hword : word s = w := by rw [hs,word_append hw]
    have hsp := h.word_end.mpr (by rw [hs]; simp)
    rw [hword] at hsp
    have hlen : s.length = w.length + (t.length + 1) := by rw [hs]; simp
    rw [hword,scan_eq_some (by omega) (by omega) (by simpa using hsp) (hlt w (SPACE :: t) hs hw)]
    rfl

theorem Reads.slice_word (h : Reads buf c endpos s) : slice buf c (c + (word s).length) = word s := by
  obtain ⟨rest,hr⟩ := h.2
  rw [slice,hr,Nat.add_sub_cancel_left]
  rcases word_cases s with hn | ⟨w,t,rfl,hw⟩
  · rw [word_of_not_mem hn,List.take_left]
  · rw [word_append hw,List.append_assoc,List.take_left]

theorem Reads.slice_all (h : Reads buf c endpos s) : slice buf c endpos = s := by
  obtain ⟨rest,hr⟩ := h.2
  rw [slice,hr,h.1,Nat.add_sub_cancel_left,List.take_left]

/-- Past the first word and its space the buffer reads the remaining words. -/
theorem Reads.next (h : Reads buf c endpos s) :
    Reads buf (skipSpace buf (c + (word s).length)) endpos (after s) := by
  unfold skipSpace
  obtain ⟨rest,hr⟩ := h.2
  have hend := h.1
  have hsp := h.word_end
  rcases word_cases s with hn | ⟨w,t,rfl,hw⟩
  · rw [if_neg (fun he => hn (hsp.mp he)),word_of_not_mem hn,after_of_not_mem hn]
    refine ⟨by rw [hend]; rfl,rest,?_⟩
    rw [← List.drop_drop,hr,List.drop_left]
    rfl
  · rw [if_pos (hsp.mpr (by simp)),word_append hw,after_append hw]
    refine ⟨by rw [hend]; simp; omega,rest,?_⟩
    rw [Nat.add_assoc,← List.drop_drop,hr,← List.drop_drop,List.append_assoc,List.drop_left]
    rfl

theorem Reads.colon (h : Reads buf c endpos s) : buf[c]? = some COLON ↔ s.head? = some COLON := by
  have hget := h.getElem? 0 (Nat.zero_le _)
  rw [Nat.add_zero] at hget
  rw [hget]
  cases s with
  | nil => simp [CR,COLON]
  | cons x s => simp

theorem Reads.tail (h : Reads buf c endpos (COLON :: s)) : Reads buf (c + 1) endpos s := by
  obtain ⟨rest,hr⟩ := h.2
  refine ⟨by rw [h.1,List.length_cons]; omega,rest,?_⟩
  rw [← List.drop_drop,hr]
  rfl

end Cursor

/-- The parameters in a C string: words up to one that starts with a colon, which is the last. -/
def splitParams (s : Bytes) : List Bytes :=
  if s.head? = some COLON then [s.tail]
  else if SPACE ∈ s then word s :: splitParams (after s) else [s]
termination_by s.length
decreasing_by
  rcases word_cases s with hn | ⟨w,t,rfl,hw⟩
  · contradiction
  · rw [after_append hw]
    simp; omega

/-- What `strsep` does at the start of a string in memory. -/
theorem strsep_of_not_mem {m s rest : Bytes} {p : ℕ} (hm : m.drop p = s ++ NUL :: rest) (hs : NUL ∉ s)
    (hn : SPACE ∉ s) : strsep m p = (m,none) := by
  have hspn : strcspn (cstr (m.drop p)) [SPACE] = s.length := by
    rw [hm,cstr_append_nul hs,strcspn,← congrArg List.length (word_of_not_mem hn)]
    simp [word]
  rw [strsep,hspn,← List.getElem?_drop,hm,List.getElem?_append_right (Nat.le_refl _),if_neg (by simp [NUL,SPACE])]

theorem strsep_append {m w t rest : Bytes} {p : ℕ} (hm : m.drop p = w ++ SPACE :: t ++ NUL :: rest)
    (hs : NUL ∉ w ++ SPACE :: t) (hw : SPACE ∉ w) :
    strsep m p = (m.set (p + w.length) NUL,some (p + w.length + 1)) := by
  have hspn : strcspn (cstr (m.drop p)) [SPACE] = w.length := by
    rw [hm,cstr_append_nul hs,strcspn,← congrArg List.length (word_append hw t)]
    simp [word]
  rw [strsep,hspn,← List.getElem?_drop,hm,List.append_assoc,List.getElem?_append_right (Nat.le_refl _),
    if_pos (by simp)]

theorem paramLoop_params (rest : Bytes) {n : ℕ} {m s : Bytes} {p : ℕ} (hm : m.drop p = s ++ NUL :: rest) (hs : NUL ∉ s)
    (hn : s.length < n) : (paramLoop n m p).1 = splitParams s := by
  induction n generalizing m s p with
  | zero => omega
  | succ n ih =>
    have hget : m[p]? = (s ++ [NUL]).head? := by
      have h0 : m[p]? = (m.drop p)[0]? := by rw [List.getElem?_drop,Nat.add_zero]
      rw [h0,hm]
      cases s <;> simp
    rw [paramLoop,splitParams]
    by_cases hc : s.head? = some COLON
    · obtain ⟨t,rfl⟩ : ∃ t, s = COLON :: t := by
        cases s with
        | nil => cases hc
        | cons x t => exact ⟨t,by rw [Option.some.inj hc]⟩
      rw [if_pos (by simpa using hget),if_pos hc,← List.drop_drop,hm]
      simp only [List.cons_append,List.drop_succ_cons,List.drop_zero,List.tail_cons]
      rw [cstr_append_nul (fun h => hs (List.mem_cons_of_mem _ h))]
    · have hne : ¬ m[p]? = some COLON := by
        rw [hget]
        cases s with
        | nil => simp [NUL,COLON]
        | cons x t => simpa using hc
      rw [if_neg hne,if_neg hc]
      rcases word_cases s with hsp | ⟨w,t,rfl,hw⟩
      · rw [strsep_of_not_mem hm hs hsp,if_neg hsp]
        simp only [hm,cstr_append_nul hs]
      · have hset : (m.set (p + w.length) NUL).drop p = w ++ NUL :: (t ++ NUL :: rest) := by
          rw [List.drop_set,if_neg (by omega),Nat.add_sub_cancel_left,hm,List.append_assoc,
            List.set_append_right _ _ (Nat.le_refl _),Nat.sub_self]
          rfl
        have hnext : (m.set (p + w.length) NUL).drop (p + w.length + 1) = t ++ NUL :: rest := by
          rw [Nat.add_assoc,← List.drop_drop,hset,← List.drop_drop,List.drop_left]
          rfl
        have hnw : NUL ∉ w := fun h => hs (List.mem_append_left _ h)
        have hnt : NUL ∉ t := fun h => hs (List.mem_append_right _ (List.mem_cons_of_mem _ h))
        rw [strsep_append hm hs hw,if_pos (by simp),word_append hw,after_append hw]
        dsimp only
        rw [ih hnext hnt (by simp at hn; omega),hset,cstr_append_nul hnw]

theorem strsep_memory (m : Bytes) (p k : ℕ) (h : m[k]? = some NUL) : (strsep m p).1[k]? = some NUL := by
  simp only [strsep]
  split
  · rw [List.getElem?_set]
    split
    · next he =>
      subst he
      rw [if_pos (List.getElem?_eq_some_iff.mp h).1]
    · exact h
  · exact h

/-- The loop overwrites bytes with NUL only. -/
theorem paramLoop_memory (n : ℕ) (m : Bytes) (p k : ℕ) (h : m[k]? = some NUL) :
    (paramLoop n m p).2[k]? = some NUL := by
  induction n generalizing m p with
  | zero => exact h
  | succ n ih =>
    have hm := strsep_memory m p k h
    rw [paramLoop]
    split
    · exact h
    · rcases hs : strsep m p with ⟨m',_ | q⟩
      · rw [hs] at hm
        exact hm
      · rw [hs] at hm
        exact ih m' q hm

def splitPrefix (line : Bytes) : Option Bytes × Bytes :=
  if line.head? = some COLON then
    (if word line.tail = [] then none else some (cstr (word line.tail)),after line.tail)
  else (none,line)

/-- `rawParams` and `params` for the bytes behind the command. -/
def splitArgs (args : Bytes) : Option Bytes × List Bytes :=
  if args = [] then (none,[]) else (some (cstr args),splitParams (cstr args))

def ofLine (line : Bytes) : IrcMessage :=
  let (msgPrefix,words) := splitPrefix line
  let (rawParams,params) := splitArgs (after words)
  { msgPrefix := msgPrefix
    rawCmd := cstr (word words)
    rawParams := rawParams
    params := params
    command := IrcCommand.parse (cstr (word words)) }

section Lines
variable {buf s : Bytes} {c endpos : ℕ}

theorem Reads.readPrefix (h : Reads buf c endpos s) :
    (readPrefix buf c endpos).1 = (splitPrefix s).1 ∧
      Reads buf (readPrefix buf c endpos).2 endpos (splitPrefix s).2 := by
  unfold IrcMessage.readPrefix splitPrefix
  by_cases hc : s.head? = some COLON
  · obtain ⟨t,rfl⟩ : ∃ t, s = COLON :: t := by
      cases s with
      | nil => cases hc
      | cons x t => exact ⟨t,by rw [Option.some.inj hc]⟩
    have ht := h.tail
    rw [if_pos (h.colon.mpr hc),if_pos hc]
    simp only [List.tail_cons]
    rw [ht.findSpace,ht.slice_word]
    refine ⟨?_,ht.next⟩
    by_cases hw : word t = []
    · simp [hw]
    · rw [if_pos (by have := List.length_pos_iff.mpr hw; omega)]
      exact (if_neg hw).symm
  · rw [if_neg (fun he => hc (h.colon.mp he)),if_neg hc]
    exact ⟨rfl,h⟩

theorem paramLoop_restored (copy : Bytes) (n : ℕ) :
    cstr (copy ++ (paramLoop n (copy ++ [NUL]) 0).2.drop copy.length) = cstr copy := by
  have hend := paramLoop_memory n (copy ++ [NUL]) 0 copy.length (by simp)
  obtain ⟨hlt,hget⟩ := List.getElem?_eq_some_iff.mp hend
  rw [List.drop_eq_getElem_cons hlt,hget]
  by_cases hm : NUL ∈ copy
  · obtain ⟨a,b,rfl,ha⟩ := List.eq_append_cons_of_mem hm
    rw [List.append_assoc,List.cons_append,cstr_append_nul ha,cstr_append_nul ha]
  · rw [cstr_append_nul hm,cstr_of_nul_free hm]

theorem Reads.readParams (h : Reads buf c endpos s) : readParams buf c endpos = splitArgs s := by
  have hend := h.1
  unfold IrcMessage.readParams splitArgs
  by_cases hs : s = []
  · rw [if_neg (by rw [hend,hs]; simp),if_pos hs]
  · have hpos := List.length_pos_iff.mpr hs
    rw [if_pos (by omega),if_neg hs,h.slice_all]
    dsimp only
    rw [paramLoop_restored]
    congr 1
    -- The loop sees the C string in the copy: all of it, or its part in front of a NUL.
    by_cases hm : NUL ∈ s
    · obtain ⟨a,b,rfl,ha⟩ := List.eq_append_cons_of_mem hm
      rw [cstr_append_nul ha]
      exact paramLoop_params (b ++ [NUL]) (by simp) ha (by simp only [List.length_append,List.length_cons]; omega)
    · rw [cstr_of_nul_free hm]
      exact paramLoop_params [] (by simp) hm (by omega)

end Lines

theorem createAt_eq (line rest pre : Bytes) :
    createAt (pre ++ (line ++ CR :: LF :: rest)) pre.length (pre.length + line.length) = ofLine line := by
  have hr : Reads (pre ++ (line ++ CR :: LF :: rest)) pre.length (pre.length + line.length) line :=
    ⟨rfl,LF :: rest,by rw [List.drop_left]⟩
  obtain ⟨hp,hw⟩ := hr.readPrefix
  unfold createAt ofLine
  dsimp only
  rw [hw.findSpace,hw.slice_word,hw.next.readParams,hp]

/-- The parser at the start of a terminated line. -/
theorem create_line {line : Bytes} (h : PairFree CR LF line) (rest pre : Bytes) :
    create (pre ++ (line ++ CR :: LF :: rest)) pre.length =
      (if line = [] then none else some (ofLine line),pre.length + line.length + 2) := by
  rw [create,findEnd_of_line h]
  dsimp only
  rw [createAt_eq]
  by_cases hl : line = []
  · simp [hl]
  · have hpos := List.length_pos_iff.mpr hl
    rw [if_neg (by omega),if_neg hl]

/-- The parser at the start of an unterminated rest. -/
theorem create_rest {buf : Bytes} {pos : ℕ} (h : PairFree CR LF (buf.drop pos)) :
    create buf pos = (none,pos) := by
  rw [create,findEnd_of_pairFree h]

def parse (line : Bytes) : Option IrcMessage := (create (line ++ [CR,LF]) 0).1

theorem parse_eq {line : Bytes} (h : PairFree CR LF line) :
    parse line = if line = [] then none else some (ofLine line) := by
  have hc := create_line h [] []
  rw [List.nil_append] at hc
  rw [parse]
  exact congrArg Prod.fst hc

end LibIrcBot.IrcMessage
