import LibIrcBot.Containers.Strings

/-! # The string builder of `stringbuilder.c`

The buffer grows in chunks and keeps room for the terminating NUL. It is not allocated before the first
string is appended.
-/
namespace LibIrcBot
open CString Blocks
open IrcMessage.InMemory (readString readString_holding)

/-- A null `str` is `none`. -/
structure IBStringBuilder where
  size : ℕ
  capa : ℕ
  str : Option (Block UInt8)

namespace IBStringBuilder

def SBCHUNKSZ : ℕ := 512

def create : IBStringBuilder where
  size := 0
  capa := 0
  str := none

/-- The loop that counts up the capacity, with a bound on its passes. -/
def grow : ℕ → ℕ → ℕ → Checked ℕ
  | 0, capa, newsz => if capa ≤ newsz then .error .outOfFuel else .ok capa
  | n + 1, capa, newsz => if capa ≤ newsz then grow n (sizeT (capa + SBCHUNKSZ)) newsz else .ok capa

/-- The reallocation of a buffer that is too small. -/
def reserve (self : IBStringBuilder) (newsz : ℕ) : Allocating IBStringBuilder :=
  if self.capa ≤ newsz then do
    let capa ← access (grow (newsz + 1) self.capa newsz)
    let str ← resize (self.str.getD []) capa 1
    .ok { self with capa := capa, str := some str }
  else .ok self

def append (self : IBStringBuilder) (str : Bytes) : Allocating IBStringBuilder := do
  let newsz := sizeT (self.size + str.length)
  let self ← self.reserve newsz
  match self.str with
  | none => .error (.access .outOfBounds)
  | some buf =>
    let buf ← access (Strings.strcpy buf self.size str)
    .ok { self with str := some buf, size := newsz }

def run (strs : List Bytes) : Allocating IBStringBuilder := strs.foldlM append create

def chunked (newsz : ℕ) : ℕ := (newsz / SBCHUNKSZ + 1) * SBCHUNKSZ

theorem lt_chunked (newsz : ℕ) : newsz < chunked newsz := by
  unfold chunked SBCHUNKSZ
  omega

/-- The loop ends at that multiple, if that is a `size_t`. -/
theorem grow_chunked {n capa newsz : ℕ} (hc : capa % SBCHUNKSZ = 0) (hle : capa ≤ newsz + SBCHUNKSZ)
    (hlarge : newsz < capa → capa = chunked newsz) (hn : newsz < capa + n * SBCHUNKSZ)
    (hfits : chunked newsz < 18446744073709551616) : grow n capa newsz = .ok (chunked newsz) := by
  induction n generalizing capa with
  | zero =>
    rw [grow,if_neg (by omega),hlarge (by omega)]
  | succ n ih =>
    rw [grow]
    by_cases hlt : newsz < capa
    · rw [if_neg (Nat.not_le.mpr hlt),hlarge hlt]
    · have hnext : sizeT (capa + SBCHUNKSZ) = capa + SBCHUNKSZ := by
        refine sizeT_of_lt rfl ?_
        simp only [chunked,SBCHUNKSZ] at hfits hc ⊢
        omega
      rw [if_pos (by omega),hnext]
      refine ih (by simpa using hc) (by omega) (fun hgt => ?_) ?_
      · simp only [chunked,SBCHUNKSZ] at hc hgt ⊢
        omega
      · rw [Nat.add_one_mul] at hn
        omega

/-- The text is in the buffer with its NUL, and the capacity is a number of chunks. -/
structure Holds (sb : IBStringBuilder) (text : Bytes) : Prop where
  size : sb.size = text.length
  chunks : sb.capa % SBCHUNKSZ = 0
  memory : sb.capa ≤ PTRDIFF_MAX
  buffer : (sb.str = none ∧ text = [] ∧ sb.capa = 0) ∨
    ∃ buf, sb.str = some buf ∧ Starts buf (text ++ [NUL]) ∧ buf.length = sb.capa

theorem create_holds : Holds create [] where
  size := rfl
  chunks := rfl
  memory := Nat.zero_le _
  buffer := .inl ⟨rfl,rfl,rfl⟩

variable {sb : IBStringBuilder} {text s : Bytes}

theorem Holds.size_lt (h : Holds sb text) : text.length < 9223372036854775296 := by
  have hmem := h.memory
  have hchunks := h.chunks
  simp only [PTRDIFF_MAX,SBCHUNKSZ] at hmem hchunks
  rcases h.buffer with ⟨_,rfl,_⟩ | ⟨buf,_,hstarts,hlen⟩
  · simp
  · have := hstarts.length_le
    rw [List.length_append,List.length_singleton] at this
    omega

/-- A buffer with room for a size, whose first cells are those of the old one. -/
theorem Holds.reserve (h : Holds sb text) {newsz : ℕ} (hle : text.length ≤ newsz)
    (hlt : newsz < 18446744073709551104) :
    (∃ buf capa, sb.reserve newsz = .ok { sb with capa := capa, str := some buf } ∧ Starts buf text ∧
      buf.length = capa ∧ newsz < capa ∧ capa % SBCHUNKSZ = 0 ∧ capa ≤ PTRDIFF_MAX) ∨
    (sb.reserve newsz = .error .memory ∧ PTRDIFF_MAX < newsz + SBCHUNKSZ) := by
  unfold IBStringBuilder.reserve
  by_cases hfull : sb.capa ≤ newsz
  · have hfits : chunked newsz < 18446744073709551616 := by
      unfold chunked SBCHUNKSZ
      omega
    have hgrow : grow (newsz + 1) sb.capa newsz = .ok (chunked newsz) :=
      grow_chunked h.chunks (by omega) (fun hgt => by omega) (by simp only [SBCHUNKSZ]; omega) hfits
    rw [if_pos hfull,hgrow,access_ok,allocated_bind]
    by_cases hmem : chunked newsz ≤ PTRDIFF_MAX
    · have hlt := lt_chunked newsz
      have hlen : (sb.str.getD []).length = sb.capa := by
        rcases h.buffer with ⟨hnone,_,hzero⟩ | ⟨buf,hsome,_,hlen⟩
        · rw [hnone,hzero]
          rfl
        · rw [hsome]
          exact hlen
      have hstarts : Starts (sb.str.getD []) text := by
        rcases h.buffer with ⟨_,rfl,_⟩ | ⟨buf,hsome,hs,_⟩
        · exact starts_nil _
        · rw [hsome]
          exact hs.left
      rw [resize_bytes (by omega) hmem]
      refine .inl ⟨_,_,rfl,hstarts.append _,?_,hlt,?_,hmem⟩
      · rw [List.length_append,length_malloc]
        omega
      · simp [chunked,Nat.mul_mod_left]
    · rw [resize_error (Nat.not_le.mp hmem)]
      refine .inr ⟨rfl,?_⟩
      simp only [chunked,SBCHUNKSZ] at hmem ⊢
      omega
  · rw [if_neg hfull]
    rcases h.buffer with ⟨_,_,hzero⟩ | ⟨buf,hsome,hs,hlen⟩
    · omega
    · exact .inl ⟨buf,sb.capa,by rw [← hsome],hs.left,hlen,by omega,h.chunks,h.memory⟩

/-- Appending puts the string behind the text, or there is no memory for it. -/
theorem Holds.append (h : Holds sb text) (hs : s.length < PTRDIFF_MAX) :
    (∃ sb', sb.append s = .ok sb' ∧ Holds sb' (text ++ s) ∧ sb'.str ≠ none) ∨
      (sb.append s = .error .memory ∧ PTRDIFF_MAX < (text ++ s).length + SBCHUNKSZ) := by
  have hlt := h.size_lt
  simp only [PTRDIFF_MAX] at hs
  have hnewsz : sizeT (sb.size + s.length) = (text ++ s).length := by
    rw [h.size,List.length_append]
    exact sizeT_of_lt (Int.natCast_add _ _).symm (by omega)
  unfold IBStringBuilder.append
  dsimp only
  rw [hnewsz]
  rcases @Holds.reserve _ _ h (text ++ s).length (by simp) (by rw [List.length_append]; omega) with
    ⟨buf,capa,hres,hbuf,hlen,hroom,hchunks,hmem⟩ | ⟨herr,hlarge⟩
  · obtain ⟨buf',hcpy,hbuf',hlen'⟩ := Strings.strcpy_starts (s := s) hbuf
      (by rw [hlen]; rwa [List.length_append] at hroom)
    rw [hres,allocated_bind]
    dsimp only
    rw [h.size,hcpy,access_ok,allocated_bind]
    exact .inl ⟨_,rfl,⟨rfl,hchunks,hmem,.inr ⟨buf',rfl,hbuf',hlen'.trans hlen⟩⟩,Option.some_ne_none _⟩
  · rw [herr]
    exact .inr ⟨rfl,hlarge⟩

/-- A sequence of strings that is appended leaves their concatenation behind the text. -/
theorem Holds.appends (h : Holds sb text) {strs : List Bytes} (hs : ∀ s ∈ strs, s.length < PTRDIFF_MAX) :
    (∃ sb', strs.foldlM IBStringBuilder.append sb = .ok sb' ∧ Holds sb' (text ++ strs.flatten) ∧
      (strs ≠ [] ∨ sb.str ≠ none → sb'.str ≠ none)) ∨
    (strs.foldlM IBStringBuilder.append sb = .error .memory ∧ PTRDIFF_MAX < (text ++ strs.flatten).length + SBCHUNKSZ) := by
  induction strs generalizing sb text with
  | nil =>
    refine .inl ⟨sb,rfl,by simpa using h,fun hne => ?_⟩
    simpa using hne
  | cons s strs ih =>
    obtain ⟨hhead,htail⟩ := List.forall_mem_cons.mp hs
    rw [List.foldlM_cons,List.flatten_cons,← List.append_assoc]
    rcases h.append hhead with ⟨sb',hap,hh,hsome⟩ | ⟨herr,hlarge⟩
    · rw [hap,allocated_bind]
      rcases ih hh htail with ⟨sb'',hrun,hh',hsome'⟩ | herr
      · exact .inl ⟨sb'',hrun,hh',fun _ => hsome' (.inr hsome)⟩
      · exact .inr herr
    · rw [herr]
      refine .inr ⟨rfl,?_⟩
      rw [List.length_append]
      omega

end IBStringBuilder
end LibIrcBot
