import LibIrcBot.Containers.ListRefinement
import LibIrcBot.Foundations.Allocation
import LibIrcBot.Protocol.MessageMemory

/-! # Strings in allocated blocks

The copying and joining of `util.c` and the splitting of `list.c`. Lengths are counted in an `int` and
in a `size_t`, and every byte is stored through a checked access.
-/
namespace LibIrcBot
open CString Blocks
open IrcMessage.InMemory (readString readString_holding)

/-- A string that a program can have: an object of `PTRDIFF_MAX` bytes at most, its NUL included. -/
structure CStr where
  bytes : Bytes
  nulFree : NUL ∉ bytes
  object : bytes.length < PTRDIFF_MAX

namespace Strings

def INT_MAX : ℕ := 2147483647

def storeAll (b : Block UInt8) (p : ℕ) : Bytes → Checked (Block UInt8)
  | [] => .ok b
  | c :: s => do
    let b ← store b p c
    storeAll b (p + 1) s

def strcpy (b : Block UInt8) (p : ℕ) (s : Bytes) : Checked (Block UInt8) := storeAll b p (s ++ [NUL])

def copystr (src : Bytes) : Allocating (Block UInt8) := do
  let copy ← resize [] (sizeT (src.length + 1)) 1
  access (strcpy copy 0 src)

/-- The first loop of `IB_joinstr`, from a number of strings and their length on. -/
def measure : List Bytes → ℕ → ℕ → Allocating (ℕ × ℕ)
  | [], n, rlen => .ok (n,rlen)
  | cur :: strings, n, rlen =>
    if n < INT_MAX then measure strings (n + 1) (sizeT (rlen + cur.length)) else .error .overflow

/-- The second loop of `IB_joinstr`, with the index `w` points to. -/
def joinLoop (delim : Bytes) : List Bytes → Block UInt8 → ℕ → Checked (Block UInt8)
  | [], joined, _ => .ok joined
  | cur :: strings, joined, w => do
    let joined ← strcpy joined w delim
    let joined ← strcpy joined (w + delim.length) cur
    joinLoop delim strings joined (w + delim.length + cur.length)

/-- `IB_joinstr`; `none` is a null result. -/
def joinstr (delim : Bytes) (strings : List Bytes) : Allocating (Option (Block UInt8)) := do
  let (n,rlen) ← measure strings 0 0
  match strings with
  | [] => .ok none
  | first :: rest => do
    let rlen := if n > 1 then sizeT (rlen + (n - 1) * delim.length) else rlen
    let joined ← resize [] (sizeT (rlen + 1)) 1
    let joined ← access (strcpy joined 0 first)
    let joined ← access (joinLoop delim rest joined first.length)
    .ok (some joined)

/-- `strsep` at an index: the memory with the delimiter overwritten, and the new index. -/
def strsep (delim : Bytes) (b : Block UInt8) (p : ℕ) : Checked (Block UInt8 × Option ℕ) := do
  let s ← readString (b.drop p)
  let i := p + strcspn s delim
  if (← load b i) = NUL then pure (b,none)
  else do
    let b ← store b i NUL
    pure (b,some (i + 1))

/-- The deleter of the strings of a list. -/
inductive Deleter where
  | free
deriving DecidableEq, Repr

abbrev StringList := IBList Bytes Deleter

def onList {α : Type} : Except ListFault α → Allocating α
  | .ok a => .ok a
  | .error .memory => .error .memory
  | .error .indeterminate => .error (.access .unset)
  | .error .endless => .error (.access .outOfFuel)

/-- A word at the end of a list, which is created with its first one. -/
def addWord (list : Option StringList) (word : Bytes) : Allocating StringList := do
  let copy ← copystr word
  let copy ← access (readString copy)
  onList ((list.getD IBList.create).append copy (some .free))

/-- The body of the loop of `IBList_fromString`: empty words are left out. -/
def gather (list : Option StringList) (word : Bytes) : Allocating (Option StringList) :=
  if word = [] then .ok list else some <$> addWord list word

/-- The loop of `IBList_fromString` from an index on, with a bound on its passes. -/
def splitLoop (delim : Bytes) : ℕ → Block UInt8 → Option ℕ → Option StringList → Allocating (Option StringList)
  | _, _, none, list => .ok list
  | 0, _, some _, _ => .error (.access .outOfFuel)
  | n + 1, buf, some p, list => do
    let (buf,next) ← access (strsep delim buf p)
    let word ← access (readString (buf.drop p))
    let list ← gather list word
    splitLoop delim n buf next list

/-- `IBList_fromString`; `none` is a null result. -/
def fromString (str delim : Bytes) : Allocating (Option StringList) := do
  let buf ← copystr str
  splitLoop delim (str.length + 1) buf (some 0) none

variable {b : Block UInt8} {m s : Bytes}

theorem storeAll_starts (h : Starts b m) (hroom : m.length + s.length ≤ b.length) :
    ∃ b', storeAll b m.length s = .ok b' ∧ Starts b' (m ++ s) ∧ b'.length = b.length := by
  induction s generalizing b m with
  | nil => exact ⟨b,rfl,by rwa [List.append_nil],rfl⟩
  | cons c s ih =>
    rw [List.length_cons] at hroom
    obtain ⟨b₁,hstore,h₁,hlen⟩ := h.store (by omega) c
    obtain ⟨b₂,hall,h₂,hlen₂⟩ := ih (m := m ++ [c]) h₁ (by rw [hlen]; simp; omega)
    rw [storeAll,hstore,ok_bind]
    rw [List.length_append] at hall
    exact ⟨b₂,hall,by simpa using h₂,hlen₂.trans hlen⟩

theorem storeAll_error {p : ℕ} (hp : p ≤ b.length) (hroom : b.length < p + s.length) :
    storeAll b p s = .error .outOfBounds := by
  induction s generalizing b p with
  | nil => exact absurd hroom (by simpa using hp)
  | cons c s ih =>
    rw [List.length_cons] at hroom
    rw [storeAll,store]
    by_cases hlt : p < b.length
    · rw [if_pos hlt,ok_bind]
      exact ih (by rw [List.length_set]; omega) (by rw [List.length_set]; omega)
    · rw [if_neg hlt]
      rfl

theorem strcpy_starts (h : Starts b m) (hroom : m.length + s.length < b.length) :
    ∃ b', strcpy b m.length s = .ok b' ∧ Starts b' (m ++ s ++ [NUL]) ∧ b'.length = b.length := by
  obtain ⟨b',hb,hs,hlen⟩ := storeAll_starts (s := s ++ [NUL]) h (by simp; omega)
  exact ⟨b',hb,by rwa [List.append_assoc],hlen⟩

theorem strcpy_error {p : ℕ} (hp : p ≤ b.length) (hroom : b.length ≤ p + s.length) :
    strcpy b p s = .error .outOfBounds :=
  storeAll_error hp (by simp; omega)

variable {delim : Bytes} {strings : List Bytes}

def tails (delim : Bytes) (strings : List Bytes) : Bytes := strings.flatMap (delim ++ ·)

theorem intercalate_tails (delim first : Bytes) (strings : List Bytes) :
    delim.intercalate (first :: strings) = first ++ tails delim strings := by
  induction strings generalizing first with
  | nil => simp [tails]
  | cons cur strings ih => rw [List.intercalate_cons_cons,ih,tails,tails,List.flatMap_cons,List.append_assoc,List.append_assoc]

theorem measure_ok {n : ℕ} (hn : n + strings.length ≤ INT_MAX) (k : ℤ) :
    measure strings n (sizeT k) = .ok (n + strings.length,sizeT (k + (strings.map List.length).sum)) := by
  induction strings generalizing n k with
  | nil => rw [measure,List.length_nil,Nat.add_zero,List.map_nil,List.sum_nil,Int.natCast_zero,Int.add_zero]
  | cons cur strings ih =>
    rw [List.length_cons] at hn
    rw [measure,if_pos (by omega),sizeT_add,ih (by omega),List.map_cons,List.sum_cons,List.length_cons,Int.natCast_add,
      Int.add_assoc,Nat.add_right_comm,Nat.add_assoc]

theorem measure_overflow {n : ℕ} (hn : n ≤ INT_MAX) (hlarge : INT_MAX < n + strings.length) (rlen : ℕ) :
    measure strings n rlen = .error .overflow := by
  induction strings generalizing n rlen with
  | nil => exact absurd hlarge (by simpa using hn)
  | cons cur strings ih =>
    rw [List.length_cons] at hlarge
    rw [measure]
    by_cases hlt : n < INT_MAX
    · rw [if_pos hlt]
      exact ih hlt (by omega) _
    · rw [if_neg hlt]

theorem joinLoop_starts (h : Starts b (m ++ [NUL])) (hroom : m.length + (tails delim strings).length < b.length) :
    ∃ b', joinLoop delim strings b m.length = .ok b' ∧ Starts b' (m ++ tails delim strings ++ [NUL]) ∧
      b'.length = b.length := by
  induction strings generalizing b m with
  | nil => exact ⟨b,rfl,by rwa [tails,List.flatMap_nil,List.append_nil],rfl⟩
  | cons cur strings ih =>
    rw [tails,List.flatMap_cons,← tails] at hroom ⊢
    simp only [List.length_append] at hroom
    obtain ⟨b₁,hdelim,h₁,hlen₁⟩ := strcpy_starts (s := delim) h.left (by omega)
    obtain ⟨b₂,hcur,h₂,hlen₂⟩ := strcpy_starts (m := m ++ delim) (s := cur) h₁.left (by rw [hlen₁]; simp; omega)
    obtain ⟨b₃,hrest,h₃,hlen₃⟩ := ih (m := m ++ delim ++ cur) h₂ (by rw [hlen₂,hlen₁]; simp; omega)
    rw [List.length_append] at hcur
    rw [List.length_append,List.length_append] at hrest
    rw [joinLoop,hdelim,ok_bind,hcur,ok_bind,hrest]
    exact ⟨b₃,rfl,by simpa using h₃,by rw [hlen₃,hlen₂,hlen₁]⟩

/-- A block without room for the strings is left through its end. -/
theorem joinLoop_error (h : Starts b (m ++ [NUL])) (hroom : b.length ≤ m.length + (tails delim strings).length) :
    joinLoop delim strings b m.length = .error .outOfBounds := by
  have hend := h.length_le
  rw [List.length_append,List.length_singleton] at hend
  induction strings generalizing b m with
  | nil =>
    rw [tails,List.flatMap_nil,List.length_nil] at hroom
    omega
  | cons cur strings ih =>
    rw [tails,List.flatMap_cons,← tails] at hroom
    simp only [List.length_append] at hroom
    rw [joinLoop]
    by_cases hd : m.length + delim.length < b.length
    case neg => rw [strcpy_error (by omega) (by omega)]; rfl
    obtain ⟨b₁,hdelim,h₁,hlen₁⟩ := strcpy_starts (s := delim) h.left hd
    rw [hdelim,ok_bind]
    by_cases hc : m.length + delim.length + cur.length < b.length
    case neg => rw [strcpy_error (by omega) (by omega)]; rfl
    obtain ⟨b₂,hcur,h₂,hlen₂⟩ := strcpy_starts (m := m ++ delim) (s := cur) h₁.left (by rw [hlen₁]; simp; omega)
    have hrest := ih (m := m ++ delim ++ cur) h₂ (by rw [hlen₂,hlen₁]; simp; omega) (by rw [hlen₂,hlen₁]; simp; omega)
    rw [List.length_append] at hcur
    rw [List.length_append,List.length_append] at hrest
    rw [hcur,ok_bind,hrest]

theorem length_tails (delim : Bytes) (strings : List Bytes) :
    (tails delim strings).length = (strings.map List.length).sum + strings.length * delim.length := by
  induction strings with
  | nil => simp [tails]
  | cons cur strings ih =>
    rw [tails,List.flatMap_cons,← tails,List.length_append,ih,List.length_append,List.map_cons,List.sum_cons,
      List.length_cons,Nat.add_one_mul]
    omega

/-- What is allocated for the joined string. -/
theorem joinstr_allocates {first : Bytes} {rest : List Bytes} (hn : (first :: rest).length ≤ INT_MAX) :
    joinstr delim (first :: rest) = (do
      let joined ← resize [] (sizeT ((delim.intercalate (first :: rest)).length + 1)) 1
      let joined ← access (strcpy joined 0 first)
      let joined ← access (joinLoop delim rest joined first.length)
      .ok (some joined)) := by
  have hm := measure_ok (n := 0) (by rwa [Nat.zero_add]) 0
  have htotal : (delim.intercalate (first :: rest)).length =
      ((first :: rest).map List.length).sum + rest.length * delim.length := by
    rw [intercalate_tails,List.length_append,length_tails,List.map_cons,List.sum_cons,Nat.add_assoc]
  have hzero : sizeT 0 = 0 := rfl
  rw [hzero,Nat.zero_add,Int.zero_add] at hm
  rw [joinstr,hm,allocated_bind]
  dsimp only
  have hsize : sizeT ((if (first :: rest).length > 1 then
      sizeT (sizeT ((first :: rest).map List.length).sum + (((first :: rest).length : ℤ) - 1) * delim.length)
        else sizeT ((first :: rest).map List.length).sum : ℕ) + 1) =
      sizeT ((delim.intercalate (first :: rest)).length + 1) := by
    have hrest : ((first :: rest).length : ℤ) - 1 = rest.length := by simp
    rw [hrest,htotal]
    split
    · rw [sizeT_add,Int.add_assoc,sizeT_add]
      simp [Int.add_assoc]
    · next hone =>
      obtain rfl : rest = [] := List.eq_nil_of_length_eq_zero (by simpa using hone)
      rw [sizeT_add]
      simp
  rw [hsize]

/-- A string that its allocation has room for fills it. -/
theorem joinstr_ok {first : Bytes} {rest : List Bytes} (hn : (first :: rest).length ≤ INT_MAX)
    (hroom : (delim.intercalate (first :: rest)).length < PTRDIFF_MAX) :
    joinstr delim (first :: rest) = .ok (some (holding (delim.intercalate (first :: rest) ++ [NUL]))) := by
  have hsize : sizeT ((delim.intercalate (first :: rest)).length + 1) = (delim.intercalate (first :: rest)).length + 1 := by
    simp only [PTRDIFF_MAX] at hroom
    exact sizeT_of_lt (by simp) (by omega)
  rw [joinstr_allocates hn,hsize,resize_nil hroom,allocated_bind]
  rw [intercalate_tails] at hroom ⊢
  generalize hb : (malloc _ : Block UInt8) = b
  have hlen : b.length = first.length + (tails delim rest).length + 1 := by
    rw [← hb,length_malloc,List.length_append]
  obtain ⟨b₁,hfirst,h₁,hlen₁⟩ := strcpy_starts (m := []) (s := first) (starts_nil b) (by simp; omega)
  obtain ⟨b₂,hrest,h₂,hlen₂⟩ := @joinLoop_starts b₁ first delim rest h₁ (by omega)
  rw [List.length_nil] at hfirst
  rw [hfirst,access_ok,allocated_bind,hrest,access_ok,allocated_bind]
  congr 2
  exact h₂.full (by simp; omega)

/-- A size that wraps leaves no room for the string. -/
theorem joinstr_wraps {first : Bytes} {rest : List Bytes} (hn : (first :: rest).length ≤ INT_MAX)
    (hwraps : 18446744073709551616 ≤ (delim.intercalate (first :: rest)).length + 1)
    (hroom : sizeT ((delim.intercalate (first :: rest)).length + 1) ≤ PTRDIFF_MAX) :
    joinstr delim (first :: rest) = .error (.access .outOfBounds) := by
  rw [joinstr_allocates hn,resize_nil hroom,allocated_bind]
  rw [intercalate_tails,List.length_append] at hwraps hroom ⊢
  generalize hb : (malloc _ : Block UInt8) = b
  have hlen : b.length ≤ first.length + (tails delim rest).length := by
    rw [← hb,length_malloc]
    simp only [PTRDIFF_MAX] at hroom
    omega
  by_cases hc : first.length < b.length
  case neg => rw [strcpy_error (Nat.zero_le _) (by omega)]; rfl
  obtain ⟨b₁,hfirst,h₁,hlen₁⟩ := strcpy_starts (m := []) (s := first) (starts_nil b) (by simpa using hc)
  rw [List.length_nil] at hfirst
  rw [hfirst,access_ok,allocated_bind,joinLoop_error (m := first) h₁ (by omega)]
  rfl

theorem joinstr_memory {first : Bytes} {rest : List Bytes} (hn : (first :: rest).length ≤ INT_MAX)
    (hroom : PTRDIFF_MAX < sizeT ((delim.intercalate (first :: rest)).length + 1)) :
    joinstr delim (first :: rest) = .error .memory := by
  rw [joinstr_allocates hn,resize_error hroom]
  rfl

theorem joinstr_overflow (hlarge : INT_MAX < strings.length) : joinstr delim strings = .error .overflow := by
  rw [joinstr,measure_overflow (Nat.zero_le _) (by omega)]
  rfl

/-- The runs of bytes that are no delimiters, between the delimiters and the ends of the string. -/
def fields (delim s : Bytes) : List Bytes := (s.splitOnP (· ∈ delim)).filter (· ≠ [])

/-- A string ends with its last field, or starts with one that has a delimiter behind it. -/
theorem fields_cases (delim s : Bytes) : (∀ c ∈ s, c ∉ delim) ∨
    ∃ w c t, s = w ++ c :: t ∧ (∀ x ∈ w, x ∉ delim) ∧ c ∈ delim := by
  induction s with
  | nil => exact .inl (by simp)
  | cons x s ih =>
    by_cases hx : x ∈ delim
    · exact .inr ⟨[],x,s,rfl,by simp,hx⟩
    · rcases ih with h | ⟨w,c,t,rfl,hw,hc⟩
      · exact .inl (List.forall_mem_cons.mpr ⟨hx,h⟩)
      · exact .inr ⟨x :: w,c,t,rfl,List.forall_mem_cons.mpr ⟨hx,hw⟩,hc⟩

theorem fields_last (h : ∀ c ∈ s, c ∉ delim) : fields delim s = [s].filter (· ≠ []) := by
  rw [fields,List.splitOnP_eq_singleton (by simpa using h)]

theorem fields_append {w t : Bytes} {c : UInt8} (hw : ∀ x ∈ w, x ∉ delim) (hc : c ∈ delim) :
    fields delim (w ++ c :: t) = [w].filter (· ≠ []) ++ fields delim t := by
  rw [fields,List.splitOnP_append_cons_of_forall_mem (by simpa using hw) c (by simpa using hc),fields,
    ← List.filter_append]
  rfl

theorem strcspn_last (h : ∀ c ∈ s, c ∉ delim) : strcspn s delim = s.length := by
  rw [strcspn,List.takeWhile_eq_self_iff.mpr (by simpa using h)]

theorem strcspn_append {w t : Bytes} {c : UInt8} (hw : ∀ x ∈ w, x ∉ delim) (hc : c ∈ delim) :
    strcspn (w ++ c :: t) delim = w.length := by
  rw [strcspn,List.takeWhile_append_of_pos (by simpa using hw),List.takeWhile_cons_of_neg (by simpa using hc),
    List.append_nil]

theorem copystr_ok (h : s.length < PTRDIFF_MAX) : copystr s = .ok (holding (s ++ [NUL])) := by
  have hsize : sizeT (s.length + 1) = s.length + 1 := by
    simp only [PTRDIFF_MAX] at h
    exact sizeT_of_lt (by simp) (by omega)
  rw [copystr,hsize,resize_nil h,allocated_bind]
  obtain ⟨b,hb,hs,hlen⟩ := strcpy_starts (b := malloc (s.length + 1)) (m := []) (s := s) (starts_nil _) (by simp)
  rw [length_malloc] at hlen
  rw [List.length_nil] at hb
  rw [hb,access_ok,hs.full (by simp [hlen]),List.nil_append]

section Memory
variable {pre rest : Bytes}

theorem readString_at (hs : NUL ∉ s) :
    readString ((holding (pre ++ (s ++ NUL :: rest))).drop pre.length) = .ok s := by
  rw [drop_holding,List.drop_left,readString_holding (by simp),cstr_append_nul hs]

theorem load_at (m : Bytes) (c : UInt8) : load (holding (m ++ c :: rest)) m.length = .ok c :=
  load_holding (by simp)

theorem strsep_last (hs : NUL ∉ s) (h : ∀ c ∈ s, c ∉ delim) :
    strsep delim (holding (pre ++ (s ++ NUL :: rest))) pre.length = .ok (holding (pre ++ (s ++ NUL :: rest)),none) := by
  rw [strsep,readString_at hs,ok_bind]
  dsimp only
  rw [strcspn_last h,← List.append_assoc,← List.length_append,load_at,ok_bind,if_pos rfl]
  rfl

theorem strsep_append {w t : Bytes} {c : UInt8} (hs : NUL ∉ w ++ c :: t) (hw : ∀ x ∈ w, x ∉ delim) (hc : c ∈ delim) :
    strsep delim (holding (pre ++ (w ++ c :: t ++ NUL :: rest))) pre.length =
      .ok (holding (pre ++ (w ++ NUL :: (t ++ NUL :: rest))),some (pre ++ (w ++ [NUL])).length) := by
  have hne : c ≠ NUL := by
    rintro rfl
    exact hs (by simp)
  rw [strsep,readString_at hs,ok_bind]
  dsimp only
  rw [strcspn_append hw hc,show pre ++ (w ++ c :: t ++ NUL :: rest) = pre ++ w ++ c :: (t ++ NUL :: rest) by simp,
    ← List.length_append,load_at,ok_bind,if_neg hne,store_holding (by simp),ok_bind,
    List.set_append_right _ _ (Nat.le_refl _),Nat.sub_self]
  simp [pure,Except.pure,Nat.add_assoc]

end Memory

def Gathers : Option StringList → List Bytes → Prop
  | none, words => words = []
  | some list, words => words ≠ [] ∧ IBList.Holds list (words.map fun word => ⟨word,some .free⟩)

theorem gather_gathers {list : Option StringList} {words : List Bytes} {w : Bytes} (h : Gathers list words)
    (hw : NUL ∉ w) (hlen : w.length < PTRDIFF_MAX) :
    (∃ list', gather list w = .ok list' ∧ Gathers list' (words ++ [w].filter (· ≠ []))) ∨
      (gather list w = .error .memory ∧ 288230376151711744 ≤ words.length) := by
  unfold gather
  by_cases he : w = []
  · rw [if_pos he]
    exact .inl ⟨list,rfl,by simpa [he] using h⟩
  · have hlist : IBList.Holds (list.getD IBList.create) (words.map fun word => ⟨word,some .free⟩) := by
      cases list with
      | none =>
        obtain rfl : words = [] := h
        exact IBList.create_holds
      | some list => exact h.2
    have hword : [w].filter (· ≠ []) = [w] := by simp [he]
    rw [if_neg he,addWord,copystr_ok hlen,allocated_bind,readString_holding (by simp),cstr_append_nul hw,access_ok,
      allocated_bind,hword]
    rcases hlist.append w (some .free) with ⟨list',hl,hh⟩ | ⟨herr,hlarge⟩
    · rw [hl]
      exact .inl ⟨some list',rfl,by simp,by simpa using hh⟩
    · rw [herr]
      refine .inr ⟨rfl,?_⟩
      rw [List.length_map] at hlarge
      exact hlarge

/-- The loop gathers the fields from its index on. -/
theorem splitLoop_fields {n : ℕ} {pre rest : Bytes} {list : Option StringList} {words : List Bytes} (hn : s.length < n)
    (hs : NUL ∉ s) (hlen : s.length < PTRDIFF_MAX) (h : Gathers list words) :
    (∃ list', splitLoop delim n (holding (pre ++ (s ++ NUL :: rest))) (some pre.length) list = .ok list' ∧
      Gathers list' (words ++ fields delim s)) ∨
    (splitLoop delim n (holding (pre ++ (s ++ NUL :: rest))) (some pre.length) list = .error .memory ∧
      288230376151711744 ≤ words.length + s.length) := by
  induction n generalizing s pre list words with
  | zero => omega
  | succ n ih =>
    rw [splitLoop]
    rcases fields_cases delim s with hlast | ⟨w,c,t,rfl,hw,hc⟩
    · rw [strsep_last hs hlast,access_ok,allocated_bind]
      dsimp only
      rw [readString_at hs,access_ok,allocated_bind,fields_last hlast]
      rcases gather_gathers h hs hlen with ⟨list',hg,hh⟩ | ⟨herr,hlarge⟩
      · rw [hg,allocated_bind]
        exact .inl ⟨list',by cases n <;> rfl,hh⟩
      · rw [herr]
        exact .inr ⟨rfl,by omega⟩
    · have hnw : NUL ∉ w := fun hm => hs (List.mem_append_left _ hm)
      have hnt : NUL ∉ t := fun hm => hs (List.mem_append_right _ (List.mem_cons_of_mem _ hm))
      simp only [List.length_append,List.length_cons] at hn hlen ⊢
      rw [strsep_append hs hw hc,access_ok,allocated_bind]
      dsimp only
      rw [readString_at hnw,access_ok,allocated_bind,fields_append hw hc,← List.append_assoc words]
      rcases gather_gathers h hnw (by omega) with ⟨list',hg,hh⟩ | ⟨herr,hlarge⟩
      · have hmem : pre ++ (w ++ NUL :: (t ++ NUL :: rest)) = pre ++ (w ++ [NUL]) ++ (t ++ NUL :: rest) := by simp
        have hone : ([w].filter (· ≠ [])).length ≤ 1 := List.length_filter_le _ _
        rw [hg,allocated_bind,hmem]
        rcases @ih t (pre ++ (w ++ [NUL])) _ _ (by omega) hnt (by omega) hh with hok | ⟨herr,hlarge⟩
        · exact .inl hok
        · rw [List.length_append] at hlarge
          exact .inr ⟨herr,by omega⟩
      · rw [herr]
        exact .inr ⟨rfl,by omega⟩

end Strings
end LibIrcBot
