import LibIrcBot.Foundations.Blocks

/-! # Blocks that grow

An allocation either has its cells or ends the program, since no object is larger than
`PTRDIFF_MAX` bytes. Values of type `size_t` wrap. The cells of a block that are in use are its
first ones, and the lemmas below say what an access makes of them.
-/
namespace LibIrcBot.Blocks
universe u
variable {α β : Type u}

inductive Failure where
  /-- The program ends because it has no memory. -/
  | memory
  /-- A signed integer leaves its type. -/
  | overflow
  | access (fault : MemoryFault)
deriving DecidableEq, Repr

abbrev Allocating := Except Failure

def access : Checked α → Allocating α
  | .ok a => .ok a
  | .error fault => .error (.access fault)

def PTRDIFF_MAX : ℕ := 9223372036854775807

/-- The value of an integer in a `size_t`. -/
def sizeT (n : ℤ) : ℕ := (n % 18446744073709551616).toNat

/-- `realloc` to a number of bytes, with cells of the given size. -/
def resize (b : Block α) (bytes cell : ℕ) : Allocating (Block α) :=
  if bytes ≤ PTRDIFF_MAX then .ok (b.take (bytes / cell) ++ malloc (bytes / cell - b.length)) else .error .memory

@[simp] theorem access_ok (a : α) : access (.ok a) = .ok a := rfl

@[simp] theorem allocated_bind (a : α) (f : α → Allocating β) : ((.ok a : Allocating α) >>= f) = f a := rfl

theorem sizeT_of_lt {n : ℕ} {k : ℤ} (hk : k = n) (h : n < 18446744073709551616) : sizeT k = n := by
  rw [sizeT,hk]
  omega

theorem sizeT_add (k x : ℤ) : sizeT (sizeT k + x) = sizeT (k + x) := by
  unfold sizeT
  omega

theorem resize_grow {b : Block α} {n cell : ℕ} (hb : b.length ≤ n) (hc : 0 < cell) (hn : n * cell ≤ PTRDIFF_MAX) :
    resize b (n * cell) cell = .ok (b ++ malloc (n - b.length)) := by
  rw [resize,if_pos hn,Nat.mul_div_cancel n hc,List.take_of_length_le hb]

theorem resize_bytes {b : Block α} {n : ℕ} (hb : b.length ≤ n) (hn : n ≤ PTRDIFF_MAX) :
    resize b n 1 = .ok (b ++ malloc (n - b.length)) := by
  have h := resize_grow hb Nat.one_pos (by rwa [Nat.mul_one])
  rwa [Nat.mul_one] at h

/-- An allocation of bytes. -/
theorem resize_nil {n : ℕ} (hn : n ≤ PTRDIFF_MAX) : resize ([] : Block α) n 1 = .ok (malloc n) :=
  resize_bytes (Nat.zero_le n) hn

theorem resize_error {b : Block α} {bytes : ℕ} (h : PTRDIFF_MAX < bytes) (cell : ℕ) :
    resize b bytes cell = .error .memory := if_neg (Nat.not_le.mpr h)

def Starts (b : Block α) (m : List α) : Prop := ∃ rest, b = holding m ++ rest

variable {b : Block α} {m l₁ l₂ : List α} {x : α}

theorem starts_nil (b : Block α) : Starts b [] := ⟨b,rfl⟩

theorem Starts.append (h : Starts b m) (c : Block α) : Starts (b ++ c) m := by
  obtain ⟨rest,rfl⟩ := h
  exact ⟨rest ++ c,List.append_assoc _ _ _⟩

theorem Starts.left (h : Starts b (l₁ ++ l₂)) : Starts b l₁ := by
  obtain ⟨rest,rfl⟩ := h
  exact ⟨holding l₂ ++ rest,by rw [holding_append,List.append_assoc]⟩

theorem Starts.length_le (h : Starts b m) : m.length ≤ b.length := by
  obtain ⟨rest,rfl⟩ := h
  simp

/-- A block all of whose cells are in use. -/
theorem Starts.full (h : Starts b m) (hlen : b.length ≤ m.length) : b = holding m := by
  obtain ⟨rest,rfl⟩ := h
  rw [List.length_append,length_holding] at hlen
  obtain rfl : rest = [] := List.eq_nil_of_length_eq_zero (by omega)
  rw [List.append_nil]

theorem Starts.take (h : Starts b m) : b.take m.length = holding m := by
  obtain ⟨rest,rfl⟩ := h
  rw [← length_holding m,List.take_left]

theorem Starts.load (h : Starts b (l₁ ++ x :: l₂)) : load b l₁.length = .ok x := by
  obtain ⟨rest,rfl⟩ := h
  have hget : (holding (l₁ ++ x :: l₂) ++ rest)[l₁.length]? = some (some x) := by
    rw [List.getElem?_append_left (by simp),holding,List.getElem?_map]
    simp
  rw [Blocks.load,hget]

/-- A store behind the cells in use. -/
theorem Starts.store (h : Starts b m) (hlt : m.length < b.length) (x : α) :
    ∃ b', store b m.length x = .ok b' ∧ Starts b' (m ++ [x]) ∧ b'.length = b.length := by
  refine ⟨_,if_pos hlt,?_,List.length_set⟩
  obtain ⟨rest,rfl⟩ := h
  rw [List.set_append_right _ _ (Nat.le_of_eq (length_holding m)),length_holding,Nat.sub_self]
  cases rest with
  | nil => simp at hlt
  | cons c rest => exact ⟨rest,by simp [holding]⟩

/-- A store to a cell in use. -/
theorem Starts.replace (h : Starts b (l₁ ++ x :: l₂)) (y : α) :
    ∃ b', Blocks.store b l₁.length y = .ok b' ∧ Starts b' (l₁ ++ y :: l₂) ∧ b'.length = b.length := by
  have hlen := h.length_le
  rw [List.length_append,List.length_cons] at hlen
  refine ⟨_,if_pos (by omega),?_,List.length_set⟩
  obtain ⟨rest,rfl⟩ := h
  exact ⟨rest,by simp [holding]⟩

/-- The cells behind one in use move over it. -/
theorem Starts.close (h : Starts b (l₁ ++ x :: l₂)) :
    ∃ b', memcpy b l₁.length b (l₁.length + 1) l₂.length = .ok b' ∧ Starts b' (l₁ ++ l₂) ∧ b'.length = b.length := by
  have hlen := h.length_le
  rw [List.length_append,List.length_cons] at hlen
  have hdrop : (b.drop (l₁.length + 1)).take l₂.length = holding l₂ := by
    obtain ⟨rest,rfl⟩ := h
    rw [holding_append,List.append_assoc,← length_holding l₁,List.drop_length_add_append,← length_holding l₂]
    exact List.take_left
  have htake : b.take l₁.length = holding l₁ := by
    obtain ⟨rest,rfl⟩ := h
    rw [holding_append,List.append_assoc,← length_holding l₁,List.take_left]
  refine ⟨_,memcpy_ok (by omega) (by omega),?_,?_⟩
  · rw [htake,hdrop,← holding_append]
    exact ⟨_,rfl⟩
  · rw [htake,hdrop,List.length_append,List.length_append,length_holding,length_holding,List.length_drop]
    omega

end LibIrcBot.Blocks
