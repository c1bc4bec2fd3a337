import LibIrcBot.Foundations.Blocks
import LibIrcBot.Protocol.MessageStream

/-! # The parser on checked memory

`IrcMessage_create` with every access to memory and the range of every integer checked.
On the set bytes of a buffer that fits `uint16_t` it meets no fault, and finds the message
and the position of the parser without checks.
-/
namespace LibIrcBot.IrcMessage.InMemory
open CString Blocks

def uint16 : ℤ → Checked ℕ := unsigned 65536

def size_t : ℤ → Checked ℕ := unsigned 18446744073709551616

def NOPOS : ℕ := 65535

def readString : Block UInt8 → Checked Bytes
  | [] => .error .outOfBounds
  | none :: _ => .error .unset
  | some c :: b =>
    if c = NUL then .ok []
    else do
      let s ← readString b
      pure (c :: s)

def findEnd (buf : Block UInt8) (size pos : ℕ) : Checked ℕ := do
  let endpos ← search 65536 (fun s => do
    if (← load buf s) = CR then do
      let next ← load buf (s + 1)
      pure (next = LF)
    else pure false) (size - 1) 65536 pos
  pure (endpos.getD NOPOS)

def findSpace (buf : Block UInt8) (currpos endpos : ℕ) : Checked ℕ := do
  let e ← search 65536 (fun e => do
    let c ← load buf e
    pure (c = SPACE)) endpos 65536 currpos
  pure (e.getD (max currpos endpos))

/-- An allocation for the bytes from `a` up to `b`, with their terminating NUL. -/
def copyString (buf : Block UInt8) (a b : ℕ) : Checked (Block UInt8) := do
  let size ← size_t (b - a + 1)
  let n ← size_t (b - a)
  let s ← memcpy (malloc size) 0 buf a n
  store s n NUL

def skipSpace (buf : Block UInt8) (e : ℕ) : Checked ℕ := do
  if (← load buf e) = SPACE then uint16 (e + 1) else pure e

def readPrefix (buf : Block UInt8) (currpos endpos : ℕ) : Checked (Option (Block UInt8) × ℕ) := do
  if (← load buf currpos) = COLON then do
    let currpos ← uint16 (currpos + 1)
    let e ← findSpace buf currpos endpos
    let msgPrefix ← if e > currpos then some <$> copyString buf currpos e else pure none
    let currpos ← skipSpace buf e
    pure (msgPrefix,currpos)
  else pure (none,currpos)

/-- `IB_copystr` on the string at index `p`: the string in the new allocation. -/
def copystr (b : Block UInt8) (p : ℕ) : Checked Bytes := do
  let s ← readString (b.drop p)
  let n ← size_t (s.length + 1)
  let copy ← memcpy (malloc n) 0 b p n
  readString copy

def strsep (b : Block UInt8) (p : ℕ) : Checked (Block UInt8 × Option ℕ) := do
  let s ← readString (b.drop p)
  let i := p + strcspn s [SPACE]
  if (← load b i) = NUL then pure (b,none)
  else do
    let b ← store b i NUL
    pure (b,some (i + 1))

def paramLoop : ℕ → Block UInt8 → ℕ → Checked (List Bytes × Block UInt8)
  | 0, _, _ => .error .outOfFuel
  | n + 1, b, p => do
    if (← load b p) = COLON then do
      let param ← copystr b (p + 1)
      pure ([param],b)
    else do
      let (b,next) ← strsep b p
      let param ← copystr b p
      match next with
      | none => pure ([param],b)
      | some q => do
        let (params,b) ← paramLoop n b q
        pure (param :: params,b)

def readParams (buf : Block UInt8) (currpos endpos : ℕ) : Checked (Option (Block UInt8) × List Bytes) :=
  if currpos < endpos then do
    let rawParams ← copyString buf currpos endpos
    let (params,rawParams) ← paramLoop rawParams.length rawParams 0
    let n ← size_t (endpos - currpos)
    let rawParams ← memcpy rawParams 0 buf currpos n
    pure (some rawParams,params)
  else .ok (none,[])

/-- A string field of a message, which may be null. -/
def readField : Option (Block UInt8) → Checked (Option Bytes)
  | none => .ok none
  | some b => some <$> readString b

def createAt (buf : Block UInt8) (currpos endpos : ℕ) : Checked IrcMessage := do
  let (msgPrefix,currpos) ← readPrefix buf currpos endpos
  let e ← findSpace buf currpos endpos
  let rawCmd ← copyString buf currpos e
  let cmd ← readString rawCmd
  let currpos ← skipSpace buf e
  let (rawParams,params) ← readParams buf currpos endpos
  let msgPrefix ← readField msgPrefix
  let rawParams ← readField rawParams
  pure {
    msgPrefix := msgPrefix
    rawCmd := cmd
    rawParams := rawParams
    params := params
    command := IrcCommand.parse cmd }

/-- `IrcMessage_create`. Only the bytes below `size` may be read. -/
def create (buf : Block UInt8) (size pos : ℕ) : Checked (Option IrcMessage × ℕ) := do
  let buf := buf.take size
  let endpos ← findEnd buf size pos
  if endpos = NOPOS then pure (none,pos)
  else do
    let next ← uint16 (endpos + 2)
    if endpos = pos then pure (none,next)
    else do
      -- The debug log prints the line.
      let n ← size_t (endpos - pos)
      let _ ← memcpy (malloc n) 0 buf pos n
      let msg ← createAt buf pos endpos
      pure (some msg,next)

theorem scan_holds {p : ℕ → Bool} {n i j : ℕ} (h : scan p n i = some j) : p j := by
  induction n generalizing i with
  | zero => cases h
  | succ n ih =>
    rw [scan] at h
    split at h
    · next hp => exact Option.some.inj h ▸ hp
    · exact ih h

theorem cstr_snoc (s : Bytes) : cstr (s ++ [NUL]) = cstr s := by
  by_cases h : NUL ∈ s
  · obtain ⟨a,b,rfl,ha⟩ := List.eq_append_cons_of_mem h
    rw [List.append_assoc,List.cons_append,cstr_append_nul ha,cstr_append_nul ha]
  · rw [cstr_append_nul h,cstr_of_nul_free h]

theorem readString_holding {m : Bytes} (h : NUL ∈ m) : readString (holding m) = .ok (cstr m) := by
  induction m with
  | nil => cases h
  | cons c m ih =>
    change (if c = NUL then _ else _) = _
    by_cases hc : c = NUL
    · rw [if_pos hc,hc]
      rfl
    · have ih := ih ((List.mem_cons.mp h).resolve_left (Ne.symm hc))
      rw [if_neg hc,cstr,List.takeWhile_cons_of_pos (by simpa using hc)]
      change (readString (holding m) >>= _) = _
      rw [ih]
      rfl

theorem scan_of_finds {p : ℕ → Bool} {stop : ℤ} {n i : ℕ} {r : Option ℕ} (h : Finds p stop i r)
    (hn : n = (stop - i).toNat) : scan p n i = r := by
  cases r with
  | none => exact scan_eq_none (fun k hk hlt => h k hk (by omega))
  | some j => exact scan_eq_some h.1 (by have := h.2.1; omega) h.2.2.1 h.2.2.2

variable {m : Bytes} {pos currpos endpos : ℕ}

theorem findEnd_eq (h : m.length < 65536) :
    findEnd (holding m) m.length pos = .ok ((IrcMessage.findEnd m pos).getD NOPOS) := by
  have htest : ∀ k : ℕ, pos ≤ k → k < (m.length : ℤ) - 1 → (do
      if (← load (holding m) k) = CR then do
        let next ← load (holding m) (k + 1)
        pure (decide (next = LF))
      else pure false) = .ok (decide (m[k]? = some CR) && decide (m[k + 1]? = some LF)) := by
    intro k _ hk
    have hk0 : k < m.length := by omega
    have hk1 : k + 1 < m.length := by omega
    rw [load_holding (List.getElem?_eq_getElem hk0),load_holding (List.getElem?_eq_getElem hk1),
      List.getElem?_eq_getElem hk0,List.getElem?_eq_getElem hk1]
    dsimp only [bind,Except.bind]
    by_cases hc : m[k] = CR
    · simp [hc,pure,Except.pure]
    · simp [hc,pure,Except.pure]
  obtain ⟨r,hr,hf⟩ := @search_finds 65536 _ _ _ 65536 _ htest (by omega) (by omega)
  rw [findEnd,hr,IrcMessage.findEnd,scan_of_finds hf (by omega)]
  rfl

theorem findSpace_eq (hle : currpos ≤ endpos) (hend : endpos < m.length) (h : m.length < 65536) :
    findSpace (holding m) currpos endpos = .ok (IrcMessage.findSpace m currpos endpos) := by
  have htest : ∀ k : ℕ, currpos ≤ k → k < (endpos : ℤ) → (do
      let c ← load (holding m) k
      pure (decide (c = SPACE))) = .ok (decide (m[k]? = some SPACE)) := by
    intro k _ hk
    have hk0 : k < m.length := by omega
    rw [load_holding (List.getElem?_eq_getElem hk0),List.getElem?_eq_getElem hk0]
    simp [bind,Except.bind,pure,Except.pure]
  obtain ⟨r,hr,hf⟩ := @search_finds 65536 _ _ _ 65536 _ htest (by omega) (by omega)
  rw [findSpace,hr,IrcMessage.findSpace,scan_of_finds hf (by omega),Nat.max_eq_right hle]
  rfl

theorem findSpace_bounds (m : Bytes) (hle : currpos ≤ endpos) :
    currpos ≤ IrcMessage.findSpace m currpos endpos ∧ IrcMessage.findSpace m currpos endpos ≤ endpos := by
  unfold IrcMessage.findSpace
  cases hs : scan (fun e => decide (m[e]? = some SPACE)) (endpos - currpos) currpos with
  | none => exact ⟨hle,Nat.le_refl _⟩
  | some e =>
    have hb := scan_bounds hs
    exact ⟨hb.1,by rw [Option.getD_some]; omega⟩

theorem copyString_eq {a b : ℕ} (hab : a ≤ b) (hb : b ≤ m.length) (h : m.length < 65536) :
    copyString (holding m) a b = .ok (holding (slice m a b ++ [NUL])) := by
  have hsize : size_t ((b : ℤ) - a + 1) = .ok (b - a + 1) := unsigned_ok (by omega) (by omega)
  have hn : size_t ((b : ℤ) - a) = .ok (b - a) := unsigned_ok (by omega) (by omega)
  rw [copyString,hsize,hn]
  exact store_memcpy (by omega) NUL

theorem skipSpace_eq {e : ℕ} (he : e < m.length) (h : m.length < 65536) :
    skipSpace (holding m) e = .ok (IrcMessage.skipSpace m e) := by
  rw [skipSpace,load_holding (List.getElem?_eq_getElem he),IrcMessage.skipSpace,List.getElem?_eq_getElem he]
  dsimp only [bind,Except.bind]
  by_cases hc : m[e] = SPACE
  · rw [if_pos hc,if_pos (congrArg some hc)]
    exact unsigned_ok (by omega) (by omega)
  · rw [if_neg hc,if_neg (fun hs => hc (Option.some.inj hs))]
    rfl

section Parameters
variable {s rest : Bytes} {p : ℕ}

theorem readString_drop (hm : m.drop p = s ++ NUL :: rest) (hs : NUL ∉ s) :
    readString ((holding m).drop p) = .ok s := by
  rw [drop_holding,hm,readString_holding (by simp),cstr_append_nul hs]

theorem load_drop (hm : m.drop p = s ++ rest) {i : ℕ} {c : UInt8} (hc : rest.head? = some c) (hi : i = p + s.length) :
    load (holding m) i = .ok c := by
  refine load_holding ?_
  rw [hi,← List.getElem?_drop,hm,List.getElem?_append_right (Nat.le_refl _),Nat.sub_self,← List.head?_eq_getElem?,hc]

theorem length_of_drop (hm : m.drop p = s ++ NUL :: rest) : m.length = p + s.length + 1 + rest.length := by
  have hlen := congrArg List.length hm
  simp only [List.length_drop,List.length_append,List.length_cons] at hlen
  omega

theorem size_succ {n : ℕ} (h : n + 1 < 18446744073709551616) : size_t ((n : ℤ) + 1) = .ok (n + 1) := unsigned_ok (by omega) h

/-- The copy of a string and its NUL fills its allocation. -/
theorem memcpy_string (hm : m.drop p = s ++ NUL :: rest) :
    memcpy (malloc (s.length + 1)) 0 (holding m) p (s.length + 1) = .ok (holding (s ++ [NUL])) := by
  have hlen := length_of_drop hm
  have htake : (m.drop p).take (s.length + 1) = s ++ [NUL] := by
    rw [hm,show s ++ NUL :: rest = (s ++ [NUL]) ++ rest by simp,List.take_left' (by simp)]
  rw [memcpy_ok (by simp) (by simp; omega),drop_holding,take_holding,htake,List.take_zero,List.nil_append,malloc,
    List.drop_replicate,Nat.zero_add,Nat.sub_self,List.replicate_zero,List.append_nil]

theorem copystr_eq (hm : m.drop p = s ++ NUL :: rest) (hs : NUL ∉ s) (h : m.length < 18446744073709551616) :
    copystr (holding m) p = .ok s := by
  have hlen := length_of_drop hm
  rw [copystr,readString_drop hm hs,ok_bind,size_succ (by omega),ok_bind,memcpy_string hm,ok_bind,
    readString_holding (by simp),cstr_append_nul hs]

theorem strsep_eq (hm : m.drop p = s ++ NUL :: rest) (hs : NUL ∉ s) :
    strsep (holding m) p = .ok (holding (IrcMessage.strsep m p).1,(IrcMessage.strsep m p).2) := by
  rw [strsep,readString_drop hm hs]
  dsimp only [bind,Except.bind]
  rcases word_cases s with hsp | ⟨w,t,rfl,hw⟩
  · have hspn : strcspn s [SPACE] = s.length := by
      rw [strcspn,← congrArg List.length (word_of_not_mem hsp)]
      simp [word]
    rw [load_drop hm rfl (by rw [hspn]),strsep_of_not_mem hm hs hsp]
    rfl
  · have hspn : strcspn (w ++ SPACE :: t) [SPACE] = w.length := by
      rw [strcspn,← congrArg List.length (word_append hw t)]
      simp [word]
    have hm' : m.drop p = w ++ (SPACE :: t ++ NUL :: rest) := by rw [hm,List.append_assoc]
    have hlen := length_of_drop hm
    simp only [List.length_append,List.length_cons] at hlen
    rw [load_drop hm' rfl (by rw [hspn]),hspn,strsep_append hm hs hw]
    dsimp only
    rw [if_neg (by decide),store_holding (by omega)]
    rfl

/-- What `strsep` leaves where it cut a string in two. -/
theorem drop_set {w t : Bytes} (hm : m.drop p = w ++ SPACE :: t ++ NUL :: rest) :
    (m.set (p + w.length) NUL).drop p = w ++ NUL :: (t ++ NUL :: rest) := by
  rw [List.drop_set,if_neg (by omega),Nat.add_sub_cancel_left,hm,List.append_assoc,
    List.set_append_right _ _ (Nat.le_refl _),Nat.sub_self]
  rfl

theorem drop_set_next {w t : Bytes} (hm : m.drop p = w ++ SPACE :: t ++ NUL :: rest) :
    (m.set (p + w.length) NUL).drop (p + w.length + 1) = t ++ NUL :: rest := by
  rw [Nat.add_assoc,← List.drop_drop,drop_set hm,← List.drop_drop,List.drop_left]
  rfl

theorem paramLoop_eq (rest : Bytes) {n : ℕ} (hm : m.drop p = s ++ NUL :: rest) (hs : NUL ∉ s) (hn : s.length < n)
    (h : m.length < 18446744073709551616) : paramLoop n (holding m) p =
      .ok ((IrcMessage.paramLoop n m p).1,holding (IrcMessage.paramLoop n m p).2) := by
  induction n generalizing m s p with
  | zero => omega
  | succ n ih =>
    have hget : m[p]? = (s ++ NUL :: rest).head? := by
      rw [← hm,List.head?_drop]
    obtain ⟨c,hc⟩ : ∃ c, (s ++ NUL :: rest).head? = some c := by cases s <;> exact ⟨_,rfl⟩
    rw [paramLoop,IrcMessage.paramLoop,load_holding (hget.trans hc),ok_bind,hget,hc]
    by_cases hcolon : c = COLON
    · obtain ⟨t,rfl⟩ : ∃ t, s = COLON :: t := by
        cases s with
        | nil => exact absurd ((Option.some.inj hc).trans hcolon) (by decide)
        | cons x t => exact ⟨t,by rw [Option.some.inj hc,hcolon]⟩
      have hdrop : m.drop (p + 1) = t ++ NUL :: rest := by rw [← List.drop_drop,hm]; rfl
      have hnt : NUL ∉ t := fun h => hs (List.mem_cons_of_mem _ h)
      rw [if_pos hcolon,if_pos (congrArg some hcolon),copystr_eq hdrop hnt h,hdrop,cstr_append_nul hnt]
      rfl
    · rw [if_neg hcolon,if_neg (fun he => hcolon (Option.some.inj he)),strsep_eq hm hs,ok_bind]
      dsimp only
      rcases word_cases s with hsp | ⟨w,t,rfl,hw⟩
      · rw [strsep_of_not_mem hm hs hsp]
        dsimp only
        rw [copystr_eq hm hs h,hm,cstr_append_nul hs]
        rfl
      · have hnw : NUL ∉ w := fun h => hs (List.mem_append_left _ h)
        have hnt : NUL ∉ t := fun h => hs (List.mem_append_right _ (List.mem_cons_of_mem _ h))
        have hlen : (m.set (p + w.length) NUL).length < 18446744073709551616 := by rwa [List.length_set]
        rw [strsep_append hm hs hw]
        dsimp only
        rw [copystr_eq (drop_set hm) hnw hlen,ok_bind,drop_set hm,cstr_append_nul hnw,
          ih (drop_set_next hm) hnt (by simp at hn; omega) hlen]
        rfl

end Parameters

theorem length_paramLoop (n : ℕ) (m : Bytes) (p : ℕ) : (IrcMessage.paramLoop n m p).2.length = m.length := by
  induction n generalizing m p with
  | zero => rfl
  | succ n ih =>
    rw [IrcMessage.paramLoop]
    split
    · rfl
    · have hm : (IrcMessage.strsep m p).1.length = m.length := by
        simp only [IrcMessage.strsep]
        split
        · exact List.length_set
        · rfl
      rcases hs : IrcMessage.strsep m p with ⟨m',_ | q⟩
      · rw [hs] at hm
        exact hm
      · rw [hs] at hm
        exact (ih m' q).trans hm

/-- The end of a line in the set part of the buffer. -/
structure LineEnd (m : Bytes) (endpos : ℕ) : Prop where
  cr : m[endpos]? = some CR
  room : endpos + 1 < m.length
  fits : m.length < 65536

variable (h : LineEnd m endpos)
include h

theorem LineEnd.lt : endpos < m.length := Nat.lt_of_succ_lt h.room

/-- The byte behind a word is skipped only in front of the line end. -/
theorem LineEnd.skipSpace_le {e : ℕ} (he : e ≤ endpos) : IrcMessage.skipSpace m e ≤ endpos := by
  unfold IrcMessage.skipSpace
  split
  · next hs =>
    rcases Nat.eq_or_lt_of_le he with rfl | hlt
    · rw [h.cr] at hs
      cases hs
    · exact hlt
  · exact he

theorem readPrefix_eq (hlt : currpos < endpos) :
    ∃ b, readPrefix (holding m) currpos endpos = .ok (b,(IrcMessage.readPrefix m currpos endpos).2) ∧
      readField b = .ok (IrcMessage.readPrefix m currpos endpos).1 ∧
      (IrcMessage.readPrefix m currpos endpos).2 ≤ endpos := by
  have hcurr : currpos < m.length := Nat.lt_trans hlt h.lt
  rw [readPrefix,IrcMessage.readPrefix,load_holding (List.getElem?_eq_getElem hcurr),ok_bind,
    List.getElem?_eq_getElem hcurr]
  by_cases hc : m[currpos] = COLON
  · have hnext : uint16 ((currpos : ℤ) + 1) = .ok (currpos + 1) :=
      unsigned_ok (by omega) (by have := h.fits; omega)
    obtain ⟨hle,hend⟩ := findSpace_bounds m (show currpos + 1 ≤ endpos from hlt)
    have hskip := skipSpace_eq (Nat.lt_of_le_of_lt hend h.lt) h.fits
    rw [if_pos hc,if_pos (congrArg some hc),hnext,ok_bind,findSpace_eq hlt h.lt h.fits,ok_bind]
    dsimp only
    by_cases he : IrcMessage.findSpace m (currpos + 1) endpos > currpos + 1
    · rw [if_pos he,if_pos he,copyString_eq hle (Nat.le_of_lt (Nat.lt_of_le_of_lt hend h.lt)) h.fits]
      refine ⟨_,by rw [hskip]; rfl,?_,h.skipSpace_le hend⟩
      rw [readField,readString_holding (by simp),cstr_snoc]
      rfl
    · rw [if_neg he,if_neg he]
      exact ⟨_,by rw [hskip]; rfl,rfl,h.skipSpace_le hend⟩
  · rw [if_neg hc,if_neg (fun he => hc (Option.some.inj he))]
    exact ⟨none,rfl,rfl,Nat.le_of_lt hlt⟩

theorem readParams_eq (hle : currpos ≤ endpos) :
    ∃ b, readParams (holding m) currpos endpos = .ok (b,(IrcMessage.readParams m currpos endpos).2) ∧
      readField b = .ok (IrcMessage.readParams m currpos endpos).1 := by
  unfold readParams IrcMessage.readParams
  by_cases hlt : currpos < endpos
  case neg =>
    rw [if_neg hlt,if_neg hlt]
    exact ⟨none,rfl,rfl⟩
  have hroom := h.lt
  have hfits := h.fits
  have hn : size_t ((endpos : ℤ) - currpos) = .ok (endpos - currpos) := unsigned_ok (by omega) (by omega)
  have hcopy : (slice m currpos endpos).length = endpos - currpos := by rw [slice]; simp; omega
  rw [if_pos hlt,if_pos hlt,copyString_eq hle (Nat.le_of_lt hroom) hfits,ok_bind]
  dsimp only
  generalize hs : slice m currpos endpos = copy at hcopy
  have hloop : paramLoop (copy.length + 1) (holding (copy ++ [NUL])) 0 =
      .ok ((IrcMessage.paramLoop (copy.length + 1) (copy ++ [NUL]) 0).1,
        holding (IrcMessage.paramLoop (copy.length + 1) (copy ++ [NUL]) 0).2) := by
    have hbound : (copy ++ [NUL]).length < 18446744073709551616 := by simp; omega
    by_cases hm : NUL ∈ copy
    · obtain ⟨a,b,rfl,ha⟩ := List.eq_append_cons_of_mem hm
      exact paramLoop_eq (b ++ [NUL]) (by simp) ha
        (by simp only [List.length_append,List.length_cons]; omega) hbound
    · exact paramLoop_eq [] (by simp) hm (by omega) hbound
  have hnul := paramLoop_memory (copy.length + 1) (copy ++ [NUL]) 0 copy.length (by simp)
  have hlen := length_paramLoop (copy.length + 1) (copy ++ [NUL]) 0
  rw [List.length_append,List.length_singleton] at hlen
  rw [length_holding,List.length_append,List.length_singleton,hloop,ok_bind]
  dsimp only
  generalize IrcMessage.paramLoop (copy.length + 1) (copy ++ [NUL]) 0 = r at hnul hlen
  have hsrc : ((holding m).drop currpos).take (endpos - currpos) = holding copy := by
    rw [drop_holding,take_holding,← hs,slice]
  rw [hn,ok_bind,memcpy_ok (by simp; omega) (by simp; omega),hsrc,List.take_zero,List.nil_append,Nat.zero_add,
    drop_holding,← holding_append,← hcopy]
  refine ⟨_,rfl,?_⟩
  rw [readField,readString_holding (List.mem_append_right _ ?_)]
  · rfl
  · obtain ⟨hk,hget⟩ := List.getElem?_eq_some_iff.mp hnul
    rw [List.drop_eq_getElem_cons hk,hget]
    exact List.mem_cons_self

theorem createAt_eq (hlt : currpos < endpos) :
    createAt (holding m) currpos endpos = .ok (IrcMessage.createAt m currpos endpos) := by
  obtain ⟨b,hb,hfield,hle⟩ := readPrefix_eq h hlt
  rw [createAt,IrcMessage.createAt,hb,ok_bind]
  generalize IrcMessage.readPrefix m currpos endpos = r at hfield hle
  dsimp only
  obtain ⟨hword,hend⟩ := findSpace_bounds m hle
  have hroom := Nat.lt_of_le_of_lt hend h.lt
  obtain ⟨c,hc,hparams⟩ := readParams_eq h (h.skipSpace_le hend)
  rw [findSpace_eq hle h.lt h.fits,ok_bind,copyString_eq hword (Nat.le_of_lt hroom) h.fits,ok_bind,
    readString_holding (by simp),ok_bind,skipSpace_eq hroom h.fits,ok_bind,hc,ok_bind]
  dsimp only
  rw [hfield,ok_bind,hparams,cstr_snoc]
  rfl

omit h

theorem lineEnd_of_findEnd (hm : m.length < 65536) (hf : IrcMessage.findEnd m pos = some endpos) :
    LineEnd m endpos ∧ pos ≤ endpos := by
  have hb := scan_bounds hf
  have hp := scan_holds hf
  simp only [Bool.and_eq_true,decide_eq_true_eq] at hp
  exact ⟨⟨hp.1,(List.getElem?_eq_some_iff.mp hp.2).1,hm⟩,hb.1⟩

/-- The parser meets no fault on a buffer whose bytes below `size` are set, and computes
what the parser without checks does. -/
theorem create_eq {buf : Block UInt8} {size : ℕ} (hbuf : buf.take size = holding m) (hsize : m.length = size)
    (hm : m.length < 65536) (pos : ℕ) : create buf size pos = .ok (IrcMessage.create m pos) := by
  rw [create,IrcMessage.create,hbuf,← hsize]
  rw [findEnd_eq hm,ok_bind]
  cases hf : IrcMessage.findEnd m pos with
  | none => rfl
  | some endpos =>
    obtain ⟨h,hle⟩ := lineEnd_of_findEnd hm hf
    have hroom := h.room
    have hpos : endpos ≠ NOPOS := by rw [NOPOS]; omega
    have hnext : uint16 ((endpos : ℤ) + 2) = .ok (endpos + 2) := unsigned_ok (by omega) (by omega)
    dsimp only [Option.getD_some]
    rw [if_neg hpos,hnext,ok_bind]
    by_cases he : endpos = pos
    · rw [if_pos he,if_pos he]
      rfl
    · have hn : size_t ((endpos : ℤ) - pos) = .ok (endpos - pos) := unsigned_ok (by omega) (by omega)
      rw [if_neg he,if_neg he,hn,ok_bind,memcpy_ok (by simp) (by simp; omega),ok_bind,
        createAt_eq h (Nat.lt_of_le_of_ne hle (Ne.symm he))]
      rfl

end LibIrcBot.IrcMessage.InMemory
