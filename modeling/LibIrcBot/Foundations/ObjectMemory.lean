import Mathlib.Data.List.Basic
import Mathlib.Tactic.Common

/-! # Object memory at byte granularity

A byte of memory is either indeterminate or the `k`-th byte of a stored value.
A load yields a value only when all of its bytes are present in order, so a copy
that is too short leaves indeterminate objects behind instead of stale ones.
-/
namespace LibIrcBot.ObjectMemory
variable {V : Type*}

/-- One byte: `none` is indeterminate, `some (v,k)` is byte `k` of the value `v`. -/
abbrev Cell (V : Type*) := Option (V × ℕ)
abbrev Memory (V : Type*) := List (Cell V)

def encode (w : ℕ) (v : V) : Memory V := (List.range w).map (fun k => some (v,k))

/-- The value whose complete representation the bytes are, if there is one. -/
def decode [DecidableEq V] (w : ℕ) (bytes : Memory V) : Option V :=
  match bytes.head? with
  | some (some (v,_)) => if bytes = encode w v then some v else none
  | _ => none

def load [DecidableEq V] (w : ℕ) (mem : Memory V) (addr : ℕ) : Option V :=
  decode w ((mem.drop addr).take w)

def store (mem : Memory V) (addr : ℕ) (bytes : Memory V) : Memory V :=
  mem.take addr ++ (bytes ++ mem.drop (addr + bytes.length))

/-- Growing an allocation appends indeterminate bytes. -/
def realloc (mem : Memory V) (size : ℕ) : Memory V :=
  mem.take size ++ List.replicate (size - mem.length) none

def memcpy (mem : Memory V) (dst src n : ℕ) : Memory V :=
  store mem dst ((mem.drop src).take n)

@[simp] theorem encode_length (w : ℕ) (v : V) : (encode w v).length = w := by simp [encode]

theorem decode_encode [DecidableEq V] {w : ℕ} (hw : 0 < w) (v : V) : decode w (encode w v) = some v := by
  cases w with
  | zero => omega
  | succ w => simp [decode,encode,List.range_succ_eq_map]

/-- An indeterminate byte anywhere in the object makes the load fail. -/
theorem decode_of_indeterminate [DecidableEq V] {w : ℕ} {bytes : Memory V} (h : none ∈ bytes) :
    decode w bytes = none := by
  unfold decode
  split
  · next v _ =>
    rw [if_neg]
    intro he
    rw [he] at h
    simp [encode] at h
  · rfl

@[simp] theorem realloc_length {mem : Memory V} {size : ℕ} (h : mem.length ≤ size) :
    (realloc mem size).length = size := by
  simp only [realloc,List.length_append,List.length_take,List.length_replicate]
  omega

theorem realloc_eq {mem : Memory V} {size : ℕ} (h : mem.length ≤ size) :
    realloc mem size = mem ++ List.replicate (size - mem.length) none := by
  rw [realloc,List.take_of_length_le h]

theorem store_length {mem bytes : Memory V} {addr : ℕ} (h : addr + bytes.length ≤ mem.length) :
    (store mem addr bytes).length = mem.length := by
  simp only [store,List.length_append,List.length_take,List.length_drop]
  omega

/-- Bytes outside the stored range are unchanged. -/
theorem getElem?_store_of_disjoint {mem bytes : Memory V} {addr i : ℕ}
    (h : addr + bytes.length ≤ mem.length) (hi : i < addr ∨ addr + bytes.length ≤ i) :
    (store mem addr bytes)[i]? = mem[i]? := by
  unfold store
  rcases hi with hi | hi
  · rw [List.getElem?_append_left (by rw [List.length_take]; omega),List.getElem?_take_of_lt hi]
  · rw [List.getElem?_append_right (by rw [List.length_take]; omega),List.length_take,
      Nat.min_eq_left (by omega),List.getElem?_append_right (by omega),List.getElem?_drop]
    congr 1
    omega

theorem getElem?_store_of_mem {mem bytes : Memory V} {addr i : ℕ}
    (h : addr + bytes.length ≤ mem.length) (hi : i < bytes.length) :
    (store mem addr bytes)[addr + i]? = bytes[i]? := by
  unfold store
  rw [List.getElem?_append_right (by rw [List.length_take]; omega),List.length_take,
    Nat.min_eq_left (by omega),List.getElem?_append_left (by omega)]
  congr 1
  omega

/-- A load only depends on the bytes of the object. -/
theorem load_congr [DecidableEq V] {w addr : ℕ} {mem mem' : Memory V}
    (h : ∀ i < w, mem'[addr + i]? = mem[addr + i]?) : load w mem' addr = load w mem addr := by
  unfold load
  congr 1
  apply List.ext_getElem?
  intro i
  by_cases hi : i < w
  · rw [List.getElem?_take_of_lt hi,List.getElem?_take_of_lt hi,List.getElem?_drop,List.getElem?_drop]
    exact h i hi
  · rw [List.getElem?_take,List.getElem?_take,if_neg hi,if_neg hi]

theorem load_store_self [DecidableEq V] {w addr : ℕ} {mem : Memory V} (hw : 0 < w)
    (h : addr + w ≤ mem.length) (v : V) : load w (store mem addr (encode w v)) addr = some v := by
  have hb : ((store mem addr (encode w v)).drop addr).take w = encode w v := by
    unfold store
    rw [List.drop_left' (by rw [List.length_take]; omega),List.take_left' (encode_length w v)]
  rw [load,hb,decode_encode hw]

theorem load_store_of_disjoint [DecidableEq V] {w addr a : ℕ} {mem bytes : Memory V}
    (h : addr + bytes.length ≤ mem.length) (ha : a + w ≤ addr ∨ addr + bytes.length ≤ a) :
    load w (store mem addr bytes) a = load w mem a := by
  apply load_congr
  intro i hi
  exact getElem?_store_of_disjoint h (by omega)

/-- Growing keeps every object that was inside the old allocation. -/
theorem load_realloc [DecidableEq V] {w addr size : ℕ} {mem : Memory V} (h : mem.length ≤ size)
    (ha : addr + w ≤ mem.length) : load w (realloc mem size) addr = load w mem addr := by
  apply load_congr
  intro i hi
  rw [realloc_eq h,List.getElem?_append_left (by omega)]

/-- Fresh bytes that no store covered stay indeterminate. -/
theorem load_eq_none [DecidableEq V] {w addr i : ℕ} {mem : Memory V} (hi : i < w)
    (h : mem[addr + i]? = some none) : load w mem addr = none := by
  apply decode_of_indeterminate
  apply List.mem_of_getElem? (i := i)
  rw [List.getElem?_take_of_lt hi,List.getElem?_drop,h]

theorem memcpy_source_length {mem : Memory V} {src n : ℕ} (h : src + n ≤ mem.length) :
    ((mem.drop src).take n).length = n := by
  rw [List.length_take,List.length_drop]
  omega

/-- An object inside of the copied bytes is found in the copy. -/
theorem load_memcpy [DecidableEq V] {w dst src n k : ℕ} {mem : Memory V} (hdst : dst + n ≤ mem.length)
    (hsrc : src + n ≤ mem.length) (hk : k + w ≤ n) : load w (memcpy mem dst src n) (dst + k) = load w mem (src + k) := by
  have hlen := memcpy_source_length hsrc
  unfold load
  congr 1
  apply List.ext_getElem?
  intro i
  by_cases hi : i < w
  · rw [List.getElem?_take_of_lt hi,List.getElem?_take_of_lt hi,List.getElem?_drop,List.getElem?_drop,Nat.add_assoc,
      memcpy,getElem?_store_of_mem (by omega) (by omega),List.getElem?_take_of_lt (by omega),List.getElem?_drop]
    congr 1
    omega
  · rw [List.getElem?_take,List.getElem?_take,if_neg hi,if_neg hi]

end LibIrcBot.ObjectMemory
