import LibIrcBot.Containers.HashTable

/-! # The buckets that keys are put in

The number of bits is passed to `hashstr` where it expects the mask for them. The buckets in use are
therefore those whose index has no bit that this number does not have.
-/
namespace LibIrcBot.IBHashTable
open CString IBHashTableEntry

def djb2 (key : Bytes) : ℕ := key.foldl (fun h c => (h + ((h <<< 5) + c.toNat)) % 2 ^ 64) 5381

theorem hashstr_eq (key : Bytes) (mask : ℕ) : hashstr key mask = djb2 key &&& mask := rfl

/-- The functions of a table with this number of bits look for the key in bucket `i` and put it there. -/
structure Uses (bits : ℕ) (key : Bytes) (i : ℕ) : Prop where
  set : ∀ {α δ : Type} (self : IBHashTable α δ) obj deleter, self.bits = bits →
    ∃ entry ∈ (self.set key obj deleter).2.bucket i, entry.key = key
  get : ∀ {α δ : Type} (self other : IBHashTable α δ), self.bits = bits → other.bits = bits →
    self.bucket i = other.bucket i → self.get key = other.get key
  delete : ∀ {α δ : Type} (self other : IBHashTable α δ), self.bits = bits → other.bits = bits →
    self.bucket i = other.bucket i → (self.delete key).1 = (other.delete key).1 ∧
      (self.delete key).2.1 = (other.delete key).2.1

theorem find_congr {α δ : Type} {self other : IBHashTable α δ} {key : Bytes} (hb : self.bits = other.bits)
    (h : self.bucket (hashstr key self.bits) = other.bucket (hashstr key self.bits)) : self.find key = other.find key := by
  rw [find,h,hb]
  rfl

/-- A key has one bucket, the one of its hash under the number of bits as mask. -/
theorem uses_iff {bits : ℕ} {key : Bytes} {i : ℕ} : Uses bits key i ↔ i = djb2 key &&& bits := by
  constructor
  · intro h
    obtain ⟨entry,he,_⟩ := h.set (create bits : IBHashTable Unit Unit) () none rfl
    rw [set_bucket] at he
    by_contra hne
    have hother : i ≠ hashstr key (create bits : IBHashTable Unit Unit).bits := hne
    rw [Function.update_of_ne hother] at he
    exact absurd he List.not_mem_nil
  · rintro rfl
    refine ⟨fun self obj deleter hb => ?_,fun self other hb ho hbucket => ?_,fun self other hb ho hbucket => ?_⟩
    · subst hb
      rw [set_bucket,← hashstr_eq,Function.update_self]
      obtain ⟨_,hfind⟩ := find_put_self key obj deleter self.copies (self.bucket (hashstr key self.bits))
      exact ⟨_,List.mem_of_find?_eq_some hfind,rfl⟩
    · subst hb
      rw [IBHashTable.get,IBHashTable.get,find_congr ho.symm hbucket]
    · subst hb
      have hfind := find_congr ho.symm hbucket
      unfold IBHashTable.delete
      rw [hfind]
      cases other.find key <;> exact ⟨rfl,rfl⟩

/-- Every bucket is that of some key, and the bucket of each key is its value modulo the number of buckets. -/
structure UsesAll (bits : ℕ) : Prop where
  every : ∀ i < HT_SIZE bits, ∃ key, NUL ∉ key ∧ Uses bits key i
  modulo : ∀ key, NUL ∉ key → Uses bits key (djb2 key % HT_SIZE bits)

def keyOf (i : ℕ) : Bytes := if i = 165 then [0x01,0x3f] else [UInt8.ofNat (i + 91)]

theorem djb2_keyOf : ∀ i < 256, NUL ∉ keyOf i ∧ djb2 (keyOf i) % 256 = i := by
  decide +kernel

theorem and_mod {bits : ℕ} (hb : bits < 256) (n : ℕ) : n % 256 &&& bits = n &&& bits := by
  have hmask : (255 : ℕ) &&& bits = bits := by
    rw [Nat.and_comm,show (255 : ℕ) = 2 ^ 8 - 1 from rfl,Nat.and_two_pow_sub_one_eq_mod]
    exact Nat.mod_eq_of_lt hb
  rw [show n % 256 = n &&& 255 from (Nat.and_two_pow_sub_one_eq_mod n 8).symm,Nat.and_assoc,hmask]

/-- The buckets in use are those with no bit outside of the number of bits. -/
theorem used_iff {bits : ℕ} (hb : bits < 256) (i : ℕ) :
    (∃ key, NUL ∉ key ∧ Uses bits key i) ↔ i &&& bits = i := by
  constructor
  · rintro ⟨key,_,huses⟩
    rw [uses_iff.mp huses,Nat.and_assoc,Nat.and_self]
  · intro hi
    have hlt : i < 256 := Nat.lt_of_le_of_lt (hi ▸ Nat.and_le_right) hb
    obtain ⟨hnul,hkey⟩ := djb2_keyOf i hlt
    refine ⟨keyOf i,hnul,uses_iff.mpr ?_⟩
    rw [← and_mod hb,hkey,hi]

theorem mask_bits : ∀ bits < 9, 2 ≤ bits → HT_SIZE bits = 2 ^ bits ∧ HT_MASK bits = 2 ^ bits - 1 ∧ bits < HT_MASK bits := by
  decide

theorem last_unused {bits : ℕ} (hl : 2 ≤ bits) (hu : bits ≤ 8) : ¬ ∃ key, NUL ∉ key ∧ Uses bits key (HT_MASK bits) := by
  obtain ⟨_,_,hlt⟩ := mask_bits bits (by omega) hl
  rw [used_iff (by omega)]
  intro he
  have hle : HT_MASK bits &&& bits ≤ bits := Nat.and_le_right
  omega

/-- No table uses all its buckets: it uses those whose index has no bit that the number of bits does not have.
A key is in the bucket of its value modulo the number of buckets exactly if its value has no such bit. -/
theorem buckets_unused {bits : ℕ} (hl : 2 ≤ bits) (hu : bits ≤ 8) :
    ¬ UsesAll bits ∧ (∀ i, (∃ key, NUL ∉ key ∧ Uses bits key i) ↔ i &&& bits = i) ∧
      ∀ key, Uses bits key (djb2 key % HT_SIZE bits) ↔ djb2 key &&& HT_MASK bits = djb2 key &&& bits := by
  obtain ⟨hsize,hmask,_⟩ := mask_bits bits (by omega) hl
  refine ⟨fun h => last_unused hl hu (h.every _ (Nat.lt_succ_self _)),used_iff (by omega),fun key => ?_⟩
  rw [uses_iff,hsize,hmask,Nat.and_two_pow_sub_one_eq_mod]

theorem buckets_unused_eight : ¬ UsesAll 8 ∧ (∀ i, (∃ key, NUL ∉ key ∧ Uses 8 key i) ↔ i &&& 8 = i) :=
  have h := @buckets_unused 8 (by decide) (by decide)
  ⟨h.1,h.2.1⟩

/-- A table of four buckets, whose bucket 3 is that of no key. -/
theorem bucket_three_unused : ¬ UsesAll 2 :=
  fun h => last_unused (Nat.le_refl 2) (by decide) (h.every 3 (by decide))

end LibIrcBot.IBHashTable
