import LibIrcBot.Foundations.CString
import Mathlib.Data.List.Perm.Basic
import Mathlib.Logic.Function.Basic
import Mathlib.Algebra.Group.Nat.Defs

/-! # The hash table of `hashtable.c`

Buckets are chains of entries. The bucket of a key is its hash masked with the number
of bits, as the source passes it. A call that drops an object returns the deleter call
it makes, for the caller of the model to perform. An entry owns its copy of the key: the
table numbers the copies it makes, and frees each one with its entry.
-/
namespace LibIrcBot
open CString

/-- `hashstr`, on a `size_t` of 64 bits. -/
def hashstr (key : Bytes) (mask : ℕ) : ℕ :=
  key.foldl (fun h c => (h + ((h <<< 5) + c.toNat)) % 2 ^ 64) 5381 &&& mask

def HT_MASK (bits : ℕ) : ℕ := ((1 <<< bits) - 1) &&& 0xff
def HT_SIZE (bits : ℕ) : ℕ := HT_MASK bits + 1

structure IBHashTableEntry (α δ : Type*) where
  key : Bytes
  obj : α
  deleter : Option δ
  /-- The number of the copy of the key. -/
  copy : ℕ
deriving DecidableEq, Repr

structure IBHashTable (α δ : Type*) where
  count : ℕ
  bits : ℕ
  bucket : ℕ → List (IBHashTableEntry α δ)
  /-- The copies of keys that were made. -/
  copies : ℕ

namespace IBHashTableEntry
variable {α δ : Type*}

def has (key : Bytes) (entry : IBHashTableEntry α δ) : Bool := entry.key = key

@[simp] theorem has_iff {key : Bytes} {entry : IBHashTableEntry α δ} : entry.has key ↔ entry.key = key :=
  decide_eq_true_iff

/-- The call of the deleter, where there is one. -/
def call (entry : IBHashTableEntry α δ) : Option (δ × α) := entry.deleter.map (·,entry.obj)

/-- A chain with the entry of the key overwritten, or added at the end with a copy of the key. -/
def put (key : Bytes) (obj : α) (deleter : Option δ) (copy : ℕ) :
    List (IBHashTableEntry α δ) → List (IBHashTableEntry α δ)
  | [] => [⟨key,obj,deleter,copy⟩]
  | entry :: next =>
    if entry.has key then { entry with obj := obj, deleter := deleter } :: next
    else entry :: put key obj deleter copy next

end IBHashTableEntry

namespace IBHashTable
open IBHashTableEntry
variable {α δ : Type*}

def create (bits : ℕ) : IBHashTable α δ where
  count := 0
  bits := bits
  bucket := fun _ => []
  copies := 0

def find (self : IBHashTable α δ) (key : Bytes) : Option (IBHashTableEntry α δ) :=
  (self.bucket (hashstr key self.bits)).find? (has key)

def get (self : IBHashTable α δ) (key : Bytes) : Option α := (self.find key).map IBHashTableEntry.obj

/-- `IBHashTable_set`, with the deleter call for an object it replaces. -/
def set (self : IBHashTable α δ) (key : Bytes) (obj : α) (deleter : Option δ) :
    Option (δ × α) × IBHashTable α δ :=
  let h := hashstr key self.bits
  let bucket := Function.update self.bucket h (put key obj deleter self.copies (self.bucket h))
  match self.find key with
  | some entry => (entry.call,{ self with bucket := bucket })
  | none => (none,{ self with bucket := bucket, count := self.count + 1, copies := self.copies + 1 })

/-- `IBHashTable_delete`: whether the key was there, and the deleter call for its object. -/
def delete (self : IBHashTable α δ) (key : Bytes) : Bool × Option (δ × α) × IBHashTable α δ :=
  let h := hashstr key self.bits
  match self.find key with
  | some entry =>
    (true,entry.call,{ self with
      bucket := Function.update self.bucket h ((self.bucket h).eraseP (has key))
      count := self.count - 1 })
  | none => (false,none,self)

def entries (self : IBHashTable α δ) : List (IBHashTableEntry α δ) :=
  (List.range (HT_SIZE self.bits)).flatMap self.bucket

/-- `IBHashTable_destroy`: the deleter calls in the order they are made. -/
def destroy (self : IBHashTable α δ) : List (δ × α) := self.entries.filterMap call

theorem find_put_self (key : Bytes) (obj : α) (deleter : Option δ) (copy : ℕ) (l : List (IBHashTableEntry α δ)) :
    ∃ kept, (put key obj deleter copy l).find? (has key) = some ⟨key,obj,deleter,kept⟩ := by
  induction l with
  | nil => exact ⟨copy,by simp [put,has]⟩
  | cons e l ih =>
    by_cases he : e.has key
    · have hk := has_iff.mp he
      exact ⟨e.copy,by simp [put,has,hk]⟩
    · rw [put,if_neg he,List.find?_cons_of_neg he]
      exact ih

theorem find_put_ne {key key' : Bytes} (hne : key' ≠ key) (obj : α) (deleter : Option δ) (copy : ℕ)
    (l : List (IBHashTableEntry α δ)) : (put key obj deleter copy l).find? (has key') = l.find? (has key') := by
  have hno : ∀ e : IBHashTableEntry α δ, e.key = key → ¬ has key' e := by
    intro e he hk
    exact hne ((has_iff.mp hk).symm.trans he)
  induction l with
  | nil => rw [put,List.find?_cons_of_neg (hno _ rfl)]
  | cons e l ih =>
    by_cases he : e.has key
    · have hk := has_iff.mp he
      rw [put,if_pos he,List.find?_cons_of_neg (hno e hk),List.find?_cons_of_neg (hno ⟨e.key,obj,deleter,e.copy⟩ hk)]
    · rw [put,if_neg he]
      by_cases he' : has key' e
      · rw [List.find?_cons_of_pos he',List.find?_cons_of_pos he']
      · rw [List.find?_cons_of_neg he',List.find?_cons_of_neg he',ih]

theorem put_of_find_none {key : Bytes} {l : List (IBHashTableEntry α δ)} (h : l.find? (has key) = none)
    (obj : α) (deleter : Option δ) (copy : ℕ) : put key obj deleter copy l = l ++ [⟨key,obj,deleter,copy⟩] := by
  induction l with
  | nil => rfl
  | cons e l ih =>
    rw [List.find?_eq_none] at h
    have he : ¬ e.has key := h e List.mem_cons_self
    rw [put,if_neg he,ih (List.find?_eq_none.mpr (fun x hx => h x (List.mem_cons_of_mem _ hx))),List.cons_append]

theorem find_eraseP_ne {key key' : Bytes} (hne : key' ≠ key) (l : List (IBHashTableEntry α δ)) :
    (l.eraseP (has key)).find? (has key') = l.find? (has key') := by
  induction l with
  | nil => rfl
  | cons e l ih =>
    by_cases he : e.has key
    · have hno : ¬ has key' e := fun hk => hne ((has_iff.mp hk).symm.trans (has_iff.mp he))
      rw [List.eraseP_cons_of_pos he,List.find?_cons_of_neg hno]
    · rw [List.eraseP_cons_of_neg he]
      by_cases he' : has key' e
      · rw [List.find?_cons_of_pos he',List.find?_cons_of_pos he']
      · rw [List.find?_cons_of_neg he',List.find?_cons_of_neg he',ih]

/-- Every entry is in the bucket of its key, and no chain has a key twice. -/
structure Wf (t : IBHashTable α δ) : Prop where
  placed : ∀ h, ∀ e ∈ t.bucket h, hashstr e.key t.bits = h
  distinct : ∀ h, (t.bucket h).Pairwise (fun a b => a.key ≠ b.key)

theorem create_wf (bits : ℕ) : (create bits : IBHashTable α δ).Wf := by
  constructor <;> simp [create]

@[simp] theorem get_create (bits : ℕ) (key : Bytes) : (create bits : IBHashTable α δ).get key = none := rfl

section Table
variable (t : IBHashTable α δ) (key : Bytes) (obj : α) (deleter : Option δ)

@[simp] theorem set_bits : (t.set key obj deleter).2.bits = t.bits := by
  unfold set
  split <;> rfl

theorem set_bucket : (t.set key obj deleter).2.bucket =
    Function.update t.bucket (hashstr key t.bits) (put key obj deleter t.copies (t.bucket (hashstr key t.bits))) := by
  unfold set
  split <;> rfl

@[simp] theorem delete_bits : (t.delete key).2.2.bits = t.bits := by
  unfold delete
  split <;> rfl

theorem delete_bucket : (t.delete key).2.2.bucket =
    Function.update t.bucket (hashstr key t.bits) ((t.bucket (hashstr key t.bits)).eraseP (has key)) := by
  unfold delete
  split
  · rfl
  · next h =>
    rw [List.eraseP_of_forall_not (fun e he => by simpa using List.find?_eq_none.mp h e he),
      Function.update_eq_self]

theorem find_set_self : ∃ kept, (t.set key obj deleter).2.find key = some ⟨key,obj,deleter,kept⟩ := by
  rw [find,set_bits,set_bucket,Function.update_self]
  exact find_put_self ..

@[simp] theorem get_set_self : (t.set key obj deleter).2.get key = some obj := by
  obtain ⟨_,h⟩ := t.find_set_self key obj deleter
  rw [get,h]
  rfl

variable {key} in
theorem find_set_ne {key' : Bytes} (h : key' ≠ key) : (t.set key obj deleter).2.find key' = t.find key' := by
  rw [find,set_bits,set_bucket,find]
  by_cases hb : hashstr key' t.bits = hashstr key t.bits
  · rw [hb,Function.update_self,find_put_ne h]
  · rw [Function.update_of_ne hb]

theorem delete_found : (t.delete key).1 = (t.get key).isSome := by
  unfold delete get
  cases t.find key <;> simp

variable {key} in
theorem find_delete_ne {key' : Bytes} (h : key' ≠ key) : (t.delete key).2.2.find key' = t.find key' := by
  rw [find,delete_bits,delete_bucket,find]
  by_cases hb : hashstr key' t.bits = hashstr key t.bits
  · rw [hb,Function.update_self,find_eraseP_ne h]
  · rw [Function.update_of_ne hb]

end Table

theorem find_delete_self {t : IBHashTable α δ} (h : t.Wf) (key : Bytes) :
    (t.delete key).2.2.find key = none := by
  rw [find,delete_bits,delete_bucket,Function.update_self,List.find?_eq_none]
  have hd := h.distinct (hashstr key t.bits)
  generalize t.bucket (hashstr key t.bits) = l at hd
  induction l with
  | nil => simp
  | cons e l ih =>
    obtain ⟨hne,hd⟩ := List.pairwise_cons.mp hd
    by_cases he : e.has key
    · rw [List.eraseP_cons_of_pos he]
      intro x hx hk
      exact hne x hx ((has_iff.mp he).trans (has_iff.mp hk).symm)
    · rw [List.eraseP_cons_of_neg he]
      intro x hx
      rcases List.mem_cons.mp hx with rfl | hx
      · exact he
      · exact ih hd x hx

theorem key_of_find {t : IBHashTable α δ} {key : Bytes} {e : IBHashTableEntry α δ} (h : t.find key = some e) :
    e.key = key := has_iff.mp (List.find?_some h)

theorem mem_put {key : Bytes} {obj : α} {deleter : Option δ} {copy : ℕ} {l : List (IBHashTableEntry α δ)}
    {x : IBHashTableEntry α δ} (h : x ∈ put key obj deleter copy l) : (∃ kept, x = ⟨key,obj,deleter,kept⟩) ∨ x ∈ l := by
  induction l with
  | nil => exact Or.inl ⟨copy,by simpa [put] using h⟩
  | cons e l ih =>
    rw [put] at h
    split at h
    · next he =>
      rcases List.mem_cons.mp h with rfl | h
      · exact Or.inl ⟨e.copy,by rw [has_iff.mp he]⟩
      · exact Or.inr (List.mem_cons_of_mem _ h)
    · rcases List.mem_cons.mp h with rfl | h
      · exact Or.inr List.mem_cons_self
      · exact (ih h).imp id (List.mem_cons_of_mem _)

theorem put_distinct {key : Bytes} {obj : α} {deleter : Option δ} {copy : ℕ} {l : List (IBHashTableEntry α δ)}
    (h : l.Pairwise (fun a b => a.key ≠ b.key)) :
    (put key obj deleter copy l).Pairwise (fun a b => a.key ≠ b.key) := by
  induction l with
  | nil => simp [put]
  | cons e l ih =>
    obtain ⟨hne,h⟩ := List.pairwise_cons.mp h
    rw [put]
    split
    · exact List.pairwise_cons.mpr ⟨hne,h⟩
    · next he =>
      refine List.pairwise_cons.mpr ⟨?_,ih h⟩
      intro x hx
      rcases mem_put hx with ⟨_,rfl⟩ | hx
      · exact fun hk => he (has_iff.mpr hk)
      · exact hne x hx

theorem set_wf {t : IBHashTable α δ} (h : t.Wf) (key : Bytes) (obj : α) (deleter : Option δ) :
    (t.set key obj deleter).2.Wf := by
  constructor
  · intro i e he
    rw [set_bucket] at he
    rw [set_bits]
    by_cases hi : i = hashstr key t.bits
    · rw [hi,Function.update_self] at he
      rcases mem_put he with ⟨_,rfl⟩ | he
      · exact hi.symm
      · exact hi ▸ h.placed _ e he
    · rw [Function.update_of_ne hi] at he
      exact h.placed i e he
  · intro i
    rw [set_bucket]
    by_cases hi : i = hashstr key t.bits
    · rw [hi,Function.update_self]
      exact put_distinct (h.distinct _)
    · rw [Function.update_of_ne hi]
      exact h.distinct i

theorem delete_wf {t : IBHashTable α δ} (h : t.Wf) (key : Bytes) : (t.delete key).2.2.Wf := by
  constructor
  · intro i e he
    rw [delete_bucket] at he
    rw [delete_bits]
    by_cases hi : i = hashstr key t.bits
    · rw [hi,Function.update_self] at he
      exact hi ▸ h.placed _ e (List.mem_of_mem_eraseP he)
    · rw [Function.update_of_ne hi] at he
      exact h.placed i e he
  · intro i
    rw [delete_bucket]
    by_cases hi : i = hashstr key t.bits
    · rw [hi,Function.update_self]
      exact (h.distinct _).sublist List.eraseP_sublist
    · rw [Function.update_of_ne hi]
      exact h.distinct i

theorem hashstr_lt (key : Bytes) {bits : ℕ} (h : bits ≤ HT_MASK bits) : hashstr key bits < HT_SIZE bits :=
  Nat.lt_succ_of_le (Nat.le_trans Nat.and_le_right h)

/-- Changing one bucket by one more entry at its end adds that entry to the whole. -/
theorem flatMap_update_perm {f : ℕ → List (IBHashTableEntry α δ)} {i : ℕ} (e : IBHashTableEntry α δ)
    {l : List ℕ} (hl : l.Nodup) (hi : i ∈ l) :
    (l.flatMap (Function.update f i (f i ++ [e]))).Perm (e :: l.flatMap f) := by
  have hsame : ∀ {l : List ℕ}, i ∉ l → l.flatMap (Function.update f i (f i ++ [e])) = l.flatMap f := by
    intro l hl
    refine List.flatMap_congr fun x hx => ?_
    rw [Function.update_of_ne (fun he => hl (by rwa [← he]))]
  induction l with
  | nil => cases hi
  | cons x l ih =>
    obtain ⟨hx,hl⟩ := List.nodup_cons.mp hl
    rw [List.flatMap_cons,List.flatMap_cons]
    by_cases hxi : x = i
    · subst hxi
      rw [Function.update_self,hsame hx,List.append_assoc]
      exact List.perm_middle
    · have hmem : i ∈ l := (List.mem_cons.mp hi).resolve_left (fun he => hxi he.symm)
      rw [Function.update_of_ne hxi]
      exact ((ih hl hmem).append_left _).trans List.perm_middle

/-- A key that was not there adds one entry to the table. -/
theorem entries_set_perm {t : IBHashTable α δ} {key : Bytes} (h : t.find key = none)
    (hb : t.bits ≤ HT_MASK t.bits) (obj : α) (deleter : Option δ) :
    (t.set key obj deleter).2.entries.Perm (⟨key,obj,deleter,t.copies⟩ :: t.entries) := by
  rw [entries,set_bits,set_bucket,put_of_find_none h]
  exact flatMap_update_perm _ List.nodup_range (List.mem_range.mpr (hashstr_lt key hb))

end IBHashTable
end LibIrcBot
