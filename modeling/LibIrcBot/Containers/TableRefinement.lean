import LibIrcBot.Containers.HashTable
import Mathlib.Data.Finmap
import Mathlib.Tactic.IntervalCases

/-! # Hash tables as finite maps

A table that was created with 2 to 8 bits behaves like the finite map that sees the same
calls. Its counter is the number of its entries.
-/
namespace LibIrcBot

namespace IBHashTable
open IBHashTableEntry CString
open scoped List
variable {α δ : Type*}

def keys (self : IBHashTable α δ) : Finset Bytes := (self.entries.map IBHashTableEntry.key).toFinset

/-- A bucket within the entries of all buckets. -/
theorem flatMap_update_split {β : Type*} (f : ℕ → List β) {i : ℕ} {l : List ℕ} (hl : l.Nodup) (hi : i ∈ l) :
    ∃ before behind, ∀ bucket, l.flatMap (Function.update f i bucket) = before ++ (bucket ++ behind) := by
  have hsame : ∀ {l : List ℕ}, i ∉ l → ∀ bucket, l.flatMap (Function.update f i bucket) = l.flatMap f := by
    intro l hl bucket
    refine List.flatMap_congr fun x hx => ?_
    rw [Function.update_of_ne (fun he => hl (by rwa [← he]))]
  obtain ⟨l₁,l₂,rfl⟩ := List.append_of_mem hi
  have hl' := List.nodup_middle.mp hl
  have hout := (List.nodup_cons.mp hl').1
  refine ⟨l₁.flatMap f,l₂.flatMap f,fun bucket => ?_⟩
  rw [List.flatMap_append,List.flatMap_cons,Function.update_self,
    hsame (fun h => hout (List.mem_append_left _ h)),hsame (fun h => hout (List.mem_append_right _ h))]

/-- A chain around the entry of a key. -/
theorem chain_split {key : Bytes} {l : List (IBHashTableEntry α δ)} {e : IBHashTableEntry α δ}
    (h : l.find? (has key) = some e) : ∃ before behind, l = before ++ e :: behind ∧
      l.eraseP (has key) = before ++ behind ∧
      ∀ (obj : α) (deleter : Option δ) (copy : ℕ),
        put key obj deleter copy l = before ++ ⟨key,obj,deleter,e.copy⟩ :: behind := by
  induction l with
  | nil => cases h
  | cons x l ih =>
    by_cases hx : x.has key
    · rw [List.find?_cons_of_pos hx] at h
      cases h
      refine ⟨[],l,rfl,List.eraseP_cons_of_pos hx,fun obj deleter copy => ?_⟩
      rw [put,if_pos hx,List.nil_append,← has_iff.mp hx]
    · rw [List.find?_cons_of_neg hx] at h
      obtain ⟨before,behind,hl,he,hput⟩ := ih h
      refine ⟨x :: before,behind,by rw [hl,List.cons_append],?_,fun obj deleter copy => ?_⟩
      · rw [List.eraseP_cons_of_neg hx,he,List.cons_append]
      · rw [put,if_neg hx,hput,List.cons_append]

section Calls
variable {t : IBHashTable α δ} {key : Bytes} {e : IBHashTableEntry α δ} {obj : α} {deleter : Option δ}

/-- The entries around the bucket of a key. -/
theorem entries_bucket (hb : t.bits ≤ HT_MASK t.bits) (key : Bytes) : ∃ before behind, ∀ bucket,
    (List.range (HT_SIZE t.bits)).flatMap (Function.update t.bucket (hashstr key t.bits) bucket) =
      before ++ (bucket ++ behind) :=
  flatMap_update_split _ List.nodup_range (List.mem_range.mpr (hashstr_lt key hb))

/-- The call for a key that is there edits its entry and no other. -/
theorem entries_found (hb : t.bits ≤ HT_MASK t.bits) (h : t.find key = some e) : ∃ before behind,
    t.entries = before ++ e :: behind ∧ (t.delete key).2.2.entries = before ++ behind ∧
      ∀ (obj : α) (deleter : Option δ),
        (t.set key obj deleter).2.entries = before ++ ⟨key,obj,deleter,e.copy⟩ :: behind := by
  obtain ⟨before,behind,hsplit⟩ := entries_bucket hb key
  obtain ⟨b₁,b₂,hl,he,hput⟩ := chain_split h
  refine ⟨before ++ b₁,b₂ ++ behind,?_,?_,fun obj deleter => ?_⟩
  · have hself := hsplit (t.bucket (hashstr key t.bits))
    rw [Function.update_eq_self] at hself
    rw [entries,hself,hl]
    simp only [List.append_assoc,List.cons_append]
  · rw [entries,delete_bits,delete_bucket,hsplit,he]
    simp only [List.append_assoc]
  · rw [entries,set_bits,set_bucket,hsplit,hput]
    simp only [List.append_assoc,List.cons_append]

/-- The entries are in the buckets that exist, and the counter is their number. -/
structure Sized (t : IBHashTable α δ) : Prop where
  wf : t.Wf
  mask : t.bits ≤ HT_MASK t.bits
  count : t.count = t.entries.length

theorem create_sized {bits : ℕ} (h : bits ≤ HT_MASK bits) : (create bits : IBHashTable α δ).Sized := by
  refine ⟨create_wf bits,h,?_⟩
  have hnone : (create bits : IBHashTable α δ).entries = [] := List.flatMap_eq_nil_iff.mpr fun _ _ => rfl
  rw [hnone]
  rfl

theorem Sized.set (h : t.Sized) (key : Bytes) (obj : α) (deleter : Option δ) : (t.set key obj deleter).2.Sized := by
  refine ⟨set_wf h.wf key obj deleter,?_,?_⟩
  · rw [set_bits]
    exact h.mask
  · have hcount := h.count
    cases hf : t.find key with
    | none =>
      have hlen := (entries_set_perm hf h.mask obj deleter).length_eq
      have hnew : (t.set key obj deleter).2.count = t.count + 1 := by
        unfold IBHashTable.set
        rw [hf]
      rw [hlen,hnew,hcount,List.length_cons]
    | some e =>
      obtain ⟨before,behind,hl,_,hset⟩ := entries_found h.mask hf
      have hsame : (t.set key obj deleter).2.count = t.count := by
        unfold IBHashTable.set
        rw [hf]
      rw [hset,hsame,hcount,hl]
      simp only [List.length_append,List.length_cons]

theorem Sized.delete (h : t.Sized) (key : Bytes) : (t.delete key).2.2.Sized := by
  refine ⟨delete_wf h.wf key,?_,?_⟩
  · rw [delete_bits]
    exact h.mask
  · have hcount := h.count
    cases hf : t.find key with
    | none =>
      have hsame : t.delete key = (false,none,t) := by
        unfold IBHashTable.delete
        rw [hf]
      rw [hsame]
      exact hcount
    | some e =>
      obtain ⟨before,behind,hl,hdel,_⟩ := entries_found h.mask hf
      have hless : (t.delete key).2.2.count = t.count - 1 := by
        unfold IBHashTable.delete
        rw [hf]
      rw [hdel,hless,hcount,hl]
      simp only [List.length_append,List.length_cons]
      omega

/-- The search finds the entries of the table, and these only. -/
theorem Sized.find_iff (h : t.Sized) : t.find key = some e ↔ e ∈ t.entries ∧ e.key = key := by
  constructor
  · intro hf
    refine ⟨List.mem_flatMap.mpr ⟨_,List.mem_range.mpr (hashstr_lt key h.mask),List.mem_of_find?_eq_some hf⟩,?_⟩
    exact key_of_find hf
  · rintro ⟨hmem,rfl⟩
    obtain ⟨i,_,hi⟩ := List.mem_flatMap.mp hmem
    have hplace := h.wf.placed i e hi
    have hdistinct := h.wf.distinct i
    rw [find,hplace]
    obtain ⟨l₁,l₂,hl⟩ := List.append_of_mem hi
    rw [hl] at hdistinct ⊢
    refine List.find?_eq_some_iff_append.mpr ⟨has_iff.mpr rfl,l₁,l₂,rfl,fun x hx => ?_⟩
    have hne := (List.pairwise_append.mp hdistinct).2.2 x hx e List.mem_cons_self
    simpa [has] using hne

theorem Sized.keys_nodup (h : t.Sized) : (t.entries.map IBHashTableEntry.key).Nodup := by
  refine List.pairwise_map.mpr (List.pairwise_flatMap.mpr ⟨fun i _ => h.wf.distinct i,?_⟩)
  refine List.nodup_range.imp fun {i j} hij x hx y hy hkey => hij ?_
  rw [← h.wf.placed i x hx,← h.wf.placed j y hy,hkey]

theorem Sized.mem_keys (h : t.Sized) : key ∈ t.keys ↔ (t.find key).isSome := by
  rw [keys,List.mem_toFinset,List.mem_map,Option.isSome_iff_exists]
  simp only [h.find_iff]

theorem Sized.keys_set (h : t.Sized) (key : Bytes) (obj : α) (deleter : Option δ) :
    (t.set key obj deleter).2.keys = insert key t.keys := by
  ext k
  rw [Finset.mem_insert,(h.set key obj deleter).mem_keys,h.mem_keys]
  by_cases hk : k = key
  · obtain ⟨_,hself⟩ := t.find_set_self key obj deleter
    rw [hk,hself]
    simp
  · rw [find_set_ne _ _ _ hk]
    simp [hk]

theorem Sized.keys_delete (h : t.Sized) (key : Bytes) : (t.delete key).2.2.keys = t.keys.erase key := by
  ext k
  rw [Finset.mem_erase,(h.delete key).mem_keys,h.mem_keys]
  by_cases hk : k = key
  · rw [hk,find_delete_self h.wf]
    simp
  · rw [find_delete_ne _ hk]
    simp [hk]

theorem Sized.delete_iff (h : t.Sized) : (t.delete key).1 = true ↔ key ∈ t.keys := by
  rw [delete_found,get,Option.isSome_map,h.mem_keys]

theorem keys_create (bits : ℕ) : (create bits : IBHashTable α δ).keys = ∅ := by
  have hnone : (create bits : IBHashTable α δ).entries = [] := List.flatMap_eq_nil_iff.mpr fun _ _ => rfl
  rw [keys,hnone]
  rfl

/-- The deleter calls for some entries, with the one for a certain entry in front. -/
theorem calls_middle (before behind : List (IBHashTableEntry α δ)) (e : IBHashTableEntry α δ) :
    ((before ++ e :: behind).filterMap call).Perm (e.call.toList ++ (before ++ behind).filterMap call) := by
  have hmid : (before ++ e :: behind).Perm (e :: (before ++ behind)) := List.perm_middle
  refine (hmid.filterMap call).trans (List.Perm.of_eq ?_)
  cases hc : e.call with
  | none => rw [List.filterMap_cons_none hc,Option.toList_none,List.nil_append]
  | some c => rw [List.filterMap_cons_some hc,Option.toList_some,List.singleton_append]

/-- `IBHashTable_set` calls the deleter of the object that it replaces. -/
theorem set_call (t : IBHashTable α δ) (key : Bytes) (obj : α) (deleter : Option δ) :
    (t.set key obj deleter).1 = (t.find key).bind IBHashTableEntry.call := by
  unfold IBHashTable.set
  cases t.find key <;> rfl

/-- `IBHashTable_delete` calls the deleter of the object that it removes. -/
theorem delete_call (t : IBHashTable α δ) (key : Bytes) :
    (t.delete key).2.1 = (t.find key).bind IBHashTableEntry.call := by
  unfold IBHashTable.delete
  cases t.find key <;> rfl

/-- The deleter calls of a set and those left for later are those that were left, and the one for the new object. -/
theorem Sized.set_calls (h : t.Sized) (key : Bytes) (obj : α) (deleter : Option δ) :
    ((t.set key obj deleter).1.toList ++ (t.set key obj deleter).2.destroy).Perm
      (t.destroy ++ (deleter.map (·,obj)).toList) := by
  have hnew : ∀ copy, (⟨key,obj,deleter,copy⟩ : IBHashTableEntry α δ).call = deleter.map (·,obj) := fun _ => rfl
  rw [set_call]
  cases hf : t.find key with
  | none =>
    have hentries := (entries_set_perm hf h.mask obj deleter).filterMap IBHashTableEntry.call
    have hfront := calls_middle [] t.entries ⟨key,obj,deleter,t.copies⟩
    exact (hentries.trans hfront).trans List.perm_append_comm
  | some e =>
    obtain ⟨before,behind,hl,_,hset⟩ := entries_found h.mask hf
    have hafter := calls_middle before behind ⟨key,obj,deleter,e.copy⟩
    have hbefore := calls_middle before behind e
    rw [destroy,destroy,hset,hl]
    calc e.call.toList ++ (before ++ ⟨key,obj,deleter,e.copy⟩ :: behind).filterMap call
      _ ~ e.call.toList ++ ((deleter.map (·,obj)).toList ++ (before ++ behind).filterMap call) :=
        hafter.append_left _
      _ ~ e.call.toList ++ ((before ++ behind).filterMap call ++ (deleter.map (·,obj)).toList) :=
        List.perm_append_comm.append_left _
      _ ~ (before ++ e :: behind).filterMap call ++ (deleter.map (·,obj)).toList := by
        rw [← List.append_assoc]
        exact hbefore.symm.append_right _

theorem Sized.delete_calls (h : t.Sized) (key : Bytes) :
    ((t.delete key).2.1.toList ++ (t.delete key).2.2.destroy).Perm t.destroy := by
  rw [delete_call]
  cases hf : t.find key with
  | none =>
    have hsame : t.delete key = (false,none,t) := by
      unfold IBHashTable.delete
      rw [hf]
    rw [hsame]
    rfl
  | some e =>
    obtain ⟨before,behind,hl,hdel,_⟩ := entries_found h.mask hf
    rw [destroy,destroy,hdel,hl]
    exact (calls_middle before behind e).symm

end Calls

inductive TableCall (α δ : Type*) where
  | set (key : Bytes) (obj : α) (deleter : Option δ)
  | delete (key : Bytes)
deriving DecidableEq

/-- A table, with a ghost log of the deleter calls. -/
structure Logged (α δ : Type*) where
  table : IBHashTable α δ
  calls : List (δ × α)

def Logged.step (self : Logged α δ) : TableCall α δ → Logged α δ
  | .set key obj deleter =>
    let (call,table) := self.table.set key obj deleter
    ⟨table,self.calls ++ call.toList⟩
  | .delete key =>
    let (_,call,table) := self.table.delete key
    ⟨table,self.calls ++ call.toList⟩

/-- The finite map of keys to objects with their deleters. -/
abbrev TableMap (α δ : Type*) := Finmap fun _ : Bytes => α × Option δ

def TableMap.step (m : TableMap α δ) : TableCall α δ → TableMap α δ
  | .set key obj deleter => m.insert key (obj,deleter)
  | .delete key => m.erase key

def TableCall.key : TableCall α δ → Bytes
  | .set key _ _ => key
  | .delete key => key

/-- The deleter that a call hands to the table, with its object. -/
def TableCall.given : TableCall α δ → List (δ × α)
  | .set _ obj deleter => (deleter.map (·,obj)).toList
  | .delete _ => []

/-- The deleter call for the object of a key. -/
def TableMap.drop (m : TableMap α δ) (key : Bytes) : List (δ × α) :=
  ((m.lookup key).bind fun entry => entry.2.map (·,entry.1)).toList

def Logged.create (bits : ℕ) : Logged α δ := ⟨IBHashTable.create bits,[]⟩

def Logged.run (self : Logged α δ) (calls : List (TableCall α δ)) : Logged α δ := calls.foldl step self

def TableMap.run (m : TableMap α δ) (calls : List (TableCall α δ)) : TableMap α δ := calls.foldl step m

/-- The table holds what the finite map says, and its deleters have been called for all other objects. -/
structure Refines (s : Logged α δ) (m : TableMap α δ) (given : List (δ × α)) : Prop where
  sized : s.table.Sized
  lookup : ∀ key, (s.table.find key).map (fun e => (e.obj,e.deleter)) = m.lookup key
  deleted : (s.calls ++ s.table.destroy) ~ given

variable {s : Logged α δ} {m : TableMap α δ} {given : List (δ × α)}

/-- The object that a call drops is the one that the finite map has for its key. -/
theorem Refines.step_calls (h : Refines s m given) (call : TableCall α δ) :
    (s.step call).calls = s.calls ++ m.drop call.key := by
  have hdrop : ∀ key, ((s.table.find key).bind IBHashTableEntry.call).toList = m.drop key := by
    intro key
    rw [TableMap.drop,← h.lookup key]
    cases s.table.find key <;> rfl
  cases call with
  | set key obj deleter => exact congrArg (s.calls ++ ·) ((congrArg Option.toList (set_call ..)).trans (hdrop key))
  | delete key => exact congrArg (s.calls ++ ·) ((congrArg Option.toList (delete_call ..)).trans (hdrop key))

theorem Refines.step (h : Refines s m given) (call : TableCall α δ) :
    Refines (s.step call) (m.step call) (given ++ call.given) := by
  cases call with
  | set key obj deleter =>
    refine ⟨h.sized.set key obj deleter,fun other => ?_,?_⟩
    · by_cases hk : other = key
      · subst hk
        obtain ⟨_,hself⟩ := s.table.find_set_self other obj deleter
        exact (congrArg _ hself).trans (Finmap.lookup_insert m).symm
      · exact (congrArg _ (find_set_ne _ _ _ hk)).trans ((h.lookup other).trans (Finmap.lookup_insert_of_ne m hk).symm)
    · have hcalls := (h.sized.set_calls key obj deleter).append_left s.calls
      refine (List.Perm.of_eq (List.append_assoc ..)).trans (hcalls.trans ?_)
      rw [← List.append_assoc]
      exact h.deleted.append_right _
  | delete key =>
    refine ⟨h.sized.delete key,fun other => ?_,?_⟩
    · by_cases hk : other = key
      · subst hk
        exact (congrArg _ (find_delete_self h.sized.wf other)).trans (Finmap.lookup_erase other m).symm
      · exact (congrArg _ (find_delete_ne _ hk)).trans ((h.lookup other).trans (Finmap.lookup_erase_ne hk).symm)
    · have hcalls := (h.sized.delete_calls key).append_left s.calls
      refine (List.Perm.of_eq (List.append_assoc ..)).trans (hcalls.trans ?_)
      exact h.deleted.trans (List.Perm.of_eq (List.append_nil _).symm)

theorem Refines.run (h : Refines s m given) (calls : List (TableCall α δ)) :
    Refines (s.run calls) (m.run calls) (given ++ calls.flatMap TableCall.given) := by
  induction calls generalizing s m given with
  | nil =>
    rw [List.flatMap_nil,List.append_nil]
    exact h
  | cons call calls ih =>
    rw [List.flatMap_cons,← List.append_assoc]
    exact ih (h.step call)

theorem create_refines {bits : ℕ} (h : bits ≤ HT_MASK bits) :
    Refines (.create bits : Logged α δ) ∅ [] := by
  have hsized : (create bits : IBHashTable α δ).Sized := create_sized h
  refine ⟨hsized,fun key => (Finmap.lookup_empty key) ▸ rfl,?_⟩
  have hnone : (create bits : IBHashTable α δ).entries = [] := List.eq_nil_of_length_eq_zero hsized.count.symm
  exact List.Perm.of_eq (congrArg (List.filterMap IBHashTableEntry.call) hnone)

/-- The keys of the entries are the keys of the finite map. -/
theorem Refines.keys (h : Refines s m given) : (s.table.entries.map IBHashTableEntry.key).toFinset = m.keys := by
  ext key
  rw [List.mem_toFinset,List.mem_map,Finmap.mem_keys,← Finmap.lookup_isSome,← h.lookup key,Option.isSome_map]
  constructor
  · rintro ⟨e,he,hk⟩
    rw [h.sized.find_iff.mpr ⟨he,hk⟩]
    rfl
  · intro hsome
    obtain ⟨e,he⟩ := Option.isSome_iff_exists.mp hsome
    exact ⟨e,h.sized.find_iff.mp he⟩

theorem Refines.count (h : Refines s m given) : s.table.count = m.keys.card := by
  rw [← h.keys,List.toFinset_card_of_nodup h.sized.keys_nodup,List.length_map]
  exact h.sized.count

theorem run_bits (s : Logged α δ) (calls : List (TableCall α δ)) : (s.run calls).table.bits = s.table.bits := by
  induction calls generalizing s with
  | nil => rfl
  | cons call calls ih =>
    refine (ih (s.step call)).trans ?_
    cases call with
    | set key obj deleter => exact set_bits ..
    | delete key => exact delete_bits ..

theorem bits_le_mask {bits : ℕ} (hlow : 2 ≤ bits) (hhigh : bits ≤ 8) : bits ≤ HT_MASK bits := by
  interval_cases bits <;> decide

end IBHashTable
end LibIrcBot
