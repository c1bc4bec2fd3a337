import LibIrcBot.Containers.TableRefinement
import LibIrcBot.Foundations.Cursor
import Mathlib.Data.List.Induction

/-! # Iterators over a hash table

An iterator has copies of the objects, but points to the keys of the table, which are freed with their entries.
It goes through all keys as long as none is deleted before the iterator comes to it.
-/
namespace LibIrcBot

/-- An entry of an iterator points to a key of the table, and has a copy of the object. -/
structure IteratorEntry (α : Type*) where
  key : ℕ
  obj : α
deriving DecidableEq, Repr

abbrev IBHashTableIterator (α : Type*) := Cursor (IteratorEntry α)

namespace IBHashTable
open IBHashTableEntry CString
open scoped List
variable {α δ : Type*}

/-- `IBHashTable_iterator`: an array of `count` entries, filled bucket by bucket. -/
def iterator (self : IBHashTable α δ) : IBHashTableIterator α where
  count := self.count
  pos := self.count
  items := self.entries.map fun entry => ⟨entry.copy,entry.obj⟩

def iteratorMoveNext (iter : IBHashTableIterator α) : Bool × IBHashTableIterator α := iter.moveNext

/-- `IBHashTableIterator_key`: a pointer to a copy of the key. -/
def iteratorKey (iter : IBHashTableIterator α) : Option ℕ := iter.current.map IteratorEntry.key

def iteratorCurrent (iter : IBHashTableIterator α) : Option α := iter.current.map IteratorEntry.obj

/-- The string of a copy, as long as the entry that owns it is in the table. -/
def text (self : IBHashTable α δ) (copy : ℕ) : Option Bytes :=
  (self.entries.find? (·.copy = copy)).map IBHashTableEntry.key

/-! ## Copies of keys -/

def owned (self : IBHashTable α δ) : List (ℕ × Bytes) := self.entries.map fun entry => (entry.copy,entry.key)

/-- Each entry has a copy of its own, and each copy was made by the table. -/
structure Owns (t : IBHashTable α δ) : Prop where
  nodup : (t.owned.map Prod.fst).Nodup
  made : ∀ o ∈ t.owned, o.1 < t.copies

variable {t : IBHashTable α δ}

theorem create_owns (bits : ℕ) : (create bits : IBHashTable α δ).Owns := by
  have hnone : (create bits : IBHashTable α δ).owned = [] :=
    List.map_eq_nil_iff.mpr (List.flatMap_eq_nil_iff.mpr fun _ _ => rfl)
  constructor <;> simp [hnone]

theorem Owns.text_iff (h : t.Owns) {copy : ℕ} {key : Bytes} : t.text copy = some key ↔ (copy,key) ∈ t.owned := by
  rw [text,Option.map_eq_some_iff,owned,List.mem_map]
  constructor
  · rintro ⟨e,hf,rfl⟩
    have hcopy : e.copy = copy := by simpa using List.find?_some hf
    exact ⟨e,List.mem_of_find?_eq_some hf,by rw [hcopy]⟩
  · rintro ⟨e,he,heq⟩
    obtain ⟨rfl,rfl⟩ := Prod.mk.inj heq
    obtain ⟨l₁,l₂,hl⟩ := List.append_of_mem he
    refine ⟨e,?_,rfl⟩
    rw [hl]
    refine List.find?_eq_some_iff_append.mpr ⟨by simp,l₁,l₂,rfl,fun x hx => ?_⟩
    have hnodup := h.nodup
    rw [owned,hl,List.map_map,List.map_append] at hnodup
    have hne := (List.nodup_append.mp hnodup).2.2 x.copy (List.mem_map_of_mem hx) e.copy (by simp)
    simpa using hne

theorem Owns.text_none (h : t.Owns) {copy : ℕ} (hno : copy ∉ t.owned.map Prod.fst) : t.text copy = none := by
  cases hk : t.text copy with
  | none => rfl
  | some key => exact absurd (List.mem_map_of_mem (f := Prod.fst) (h.text_iff.mp hk)) hno

/-! ## What a call does to the copies -/

section Calls
variable {key : Bytes} {e : IBHashTableEntry α δ}

/-- An entry that is overwritten keeps its copy. -/
theorem owned_set_found (hb : t.bits ≤ HT_MASK t.bits) (hf : t.find key = some e) (obj : α) (deleter : Option δ) :
    (t.set key obj deleter).2.owned = t.owned ∧ (t.set key obj deleter).2.copies = t.copies := by
  obtain ⟨before,behind,hl,_,hset⟩ := entries_found hb hf
  constructor
  · rw [owned,owned,hset,hl]
    simp [key_of_find hf]
  · unfold IBHashTable.set
    rw [hf]

/-- A new entry gets a new copy. -/
theorem owned_set_new (hb : t.bits ≤ HT_MASK t.bits) (hf : t.find key = none) (obj : α) (deleter : Option δ) :
    (t.set key obj deleter).2.owned ~ (t.copies,key) :: t.owned ∧ (t.set key obj deleter).2.copies = t.copies + 1 := by
  constructor
  · exact (entries_set_perm hf hb obj deleter).map _
  · unfold IBHashTable.set
    rw [hf]

theorem delete_copies (t : IBHashTable α δ) (key : Bytes) : (t.delete key).2.2.copies = t.copies := by
  unfold IBHashTable.delete
  split <;> rfl

/-- The copy of a key goes with its entry. -/
theorem mem_owned_delete (h : t.Sized) {o : ℕ × Bytes} : o ∈ (t.delete key).2.2.owned ↔ o ∈ t.owned ∧ o.2 ≠ key := by
  have hleft : ∀ x ∈ (t.delete key).2.2.entries, x.key ≠ key := by
    rintro x hx rfl
    have hfound := (h.delete x.key).find_iff.mpr ⟨hx,rfl⟩
    rw [find_delete_self h.wf] at hfound
    cases hfound
  rw [owned,owned,List.mem_map,List.mem_map]
  cases hf : t.find key with
  | none =>
    have hsame : (t.delete key).2.2 = t := by
      unfold IBHashTable.delete
      rw [hf]
    rw [hsame] at hleft ⊢
    refine (and_iff_left_of_imp ?_).symm
    rintro ⟨x,hx,rfl⟩
    exact hleft x hx
  | some e =>
    obtain ⟨before,behind,hl,hdel,_⟩ := entries_found h.mask hf
    constructor
    · rintro ⟨x,hx,rfl⟩
      refine ⟨⟨x,?_,rfl⟩,hleft x hx⟩
      rw [hdel] at hx
      rw [hl]
      exact List.mem_append.mpr ((List.mem_append.mp hx).imp id (List.mem_cons_of_mem _))
    · rintro ⟨⟨x,hx,rfl⟩,hne⟩
      refine ⟨x,?_,rfl⟩
      rw [hl] at hx
      rw [hdel]
      rcases List.mem_append.mp hx with hx | hx
      · exact List.mem_append_left _ hx
      · refine List.mem_append_right _ ((List.mem_cons.mp hx).resolve_left ?_)
        rintro rfl
        exact hne (key_of_find hf)

theorem Owns.set (h : t.Owns) (hb : t.bits ≤ HT_MASK t.bits) (key : Bytes) (obj : α) (deleter : Option δ) :
    (t.set key obj deleter).2.Owns := by
  cases hf : t.find key with
  | some e =>
    obtain ⟨howned,hcopies⟩ := owned_set_found hb hf obj deleter
    exact ⟨howned ▸ h.nodup,fun o ho => hcopies ▸ h.made o (howned ▸ ho)⟩
  | none =>
    obtain ⟨howned,hcopies⟩ := owned_set_new hb hf obj deleter
    constructor
    · refine (howned.map Prod.fst).nodup_iff.mpr (List.nodup_cons.mpr ⟨fun hmem => ?_,h.nodup⟩)
      obtain ⟨o,ho,heq⟩ := List.mem_map.mp hmem
      exact absurd heq (h.made o ho).ne
    · intro o ho
      rw [hcopies]
      rcases List.mem_cons.mp (howned.mem_iff.mp ho) with rfl | ho
      · exact Nat.lt_succ_self _
      · exact Nat.lt_succ_of_lt (h.made o ho)

theorem Owns.delete (h : t.Owns) (hs : t.Sized) (key : Bytes) : (t.delete key).2.2.Owns := by
  constructor
  · refine h.nodup.sublist (List.Sublist.map _ ?_)
    cases hf : t.find key with
    | none =>
      unfold IBHashTable.delete
      rw [hf]
    | some e =>
      obtain ⟨before,behind,hl,hdel,_⟩ := entries_found hs.mask hf
      rw [owned,owned,hl,hdel]
      exact ((List.sublist_cons_self e behind).append_left before).map _
  · intro o ho
    rw [delete_copies]
    exact h.made o ((mem_owned_delete hs).mp ho).1

end Calls

/-! ## Calls while an iterator is in use -/

/-- A table some calls after an iterator was made, where these deleted some keys. -/
structure Later (start t : IBHashTable α δ) (deleted : Set Bytes) : Prop where
  sized : t.Sized
  owns : t.Owns
  copies : start.copies ≤ t.copies
  kept : ∀ o : ℕ × Bytes, o.1 < start.copies → (o ∈ t.owned ↔ o ∈ start.owned ∧ o.2 ∉ deleted)

def TableCall.deletes : TableCall α δ → Set Bytes
  | .set _ _ _ => ∅
  | .delete key => {key}

variable {start : IBHashTable α δ} {s : Logged α δ} {deleted : Set Bytes}

theorem Later.call (h : Later start s.table deleted) (call : TableCall α δ) :
    Later start (s.step call).table (deleted ∪ call.deletes) := by
  cases call with
  | set key obj deleter =>
    have hnone : deleted ∪ (TableCall.set key obj deleter).deletes = deleted := Set.union_empty _
    rw [hnone]
    have hmask := h.sized.mask
    cases hf : s.table.find key with
    | some e =>
      obtain ⟨howned,hcopies⟩ := owned_set_found hmask hf obj deleter
      refine ⟨h.sized.set key obj deleter,h.owns.set hmask key obj deleter,?_,fun o ho => ?_⟩
      · exact h.copies.trans_eq hcopies.symm
      · exact (iff_of_eq (congrArg (o ∈ ·) howned)).trans (h.kept o ho)
    | none =>
      obtain ⟨howned,hcopies⟩ := owned_set_new hmask hf obj deleter
      refine ⟨h.sized.set key obj deleter,h.owns.set hmask key obj deleter,?_,fun o ho => ?_⟩
      · exact (Nat.le_succ_of_le h.copies).trans_eq hcopies.symm
      · have hold : o ≠ (s.table.copies,key) := by
          rintro rfl
          exact absurd h.copies (Nat.not_le.mpr ho)
        exact howned.mem_iff.trans ((List.mem_cons.trans (or_iff_right hold)).trans (h.kept o ho))
  | delete key =>
    refine ⟨h.sized.delete key,h.owns.delete h.sized key,?_,fun o ho => ?_⟩
    · exact h.copies.trans_eq (delete_copies _ key).symm
    · refine (mem_owned_delete h.sized).trans ?_
      rw [h.kept o ho,and_assoc,← not_or]
      rfl

/-- The string of a key is there as long as the key is not deleted. -/
theorem Later.text (h : Later start t deleted) (hs : start.Owns) {e : IBHashTableEntry α δ} (he : e ∈ start.entries) :
    (e.key ∉ deleted → t.text e.copy = some e.key) ∧ (e.key ∈ deleted → t.text e.copy = none) := by
  have howned : (e.copy,e.key) ∈ start.owned := List.mem_map_of_mem he
  have hkept := h.kept (e.copy,e.key) (hs.made _ howned)
  refine ⟨fun hno => h.owns.text_iff.mpr (hkept.mpr ⟨howned,hno⟩),fun hdel => h.owns.text_none fun hmem => ?_⟩
  obtain ⟨o,ho,hcopy⟩ := List.mem_map.mp hmem
  have hold := (h.kept o (hcopy ▸ hs.made _ howned)).mp ho
  have hsame : o = (e.copy,e.key) := List.inj_on_of_nodup_map hs.nodup hold.1 howned hcopy
  exact hold.2 (hsame ▸ hdel)

/-- A table, until it is destroyed, and an iterator over it. -/
structure Traversal (α δ : Type*) where
  table : Option (Logged α δ)
  iter : IBHashTableIterator α
  /-- What the visits reported: whether there is more, the key and the object. -/
  seen : List (Bool × Option Bytes × Option α)

inductive Act (α δ : Type*) where
  | call (call : TableCall α δ)
  | destroy
  | visit

/-- Reading a key that the iterator returned, which may be `NULL`. It fails on a key that was freed. -/
def Traversal.read (self : Traversal α δ) : Option ℕ → Option (Option Bytes)
  | none => some none
  | some copy => (self.table.bind fun s => s.table.text copy).map some

/-- A step that does not use freed memory. -/
def Traversal.step (self : Traversal α δ) : Act α δ → Option (Traversal α δ)
  | .call call => self.table.map fun s => { self with table := some (s.step call) }
  | .destroy => self.table.map fun _ => { self with table := none }
  | .visit =>
    let (more,iter) := iteratorMoveNext self.iter
    (self.read (iteratorKey iter)).map fun key =>
      { self with iter := iter, seen := self.seen ++ [(more,key,iteratorCurrent iter)] }

def Traversal.run (self : Traversal α δ) (acts : List (Act α δ)) : Option (Traversal α δ) := acts.foldlM step self

def stored (self : IBHashTable α δ) : List (Bytes × α) := self.entries.map fun entry => (entry.key,entry.obj)

/-- The keys and objects of a table in order, then the end, and all over again. -/
def reports (l : List (Bytes × α)) (n : ℕ) : List (Bool × Option Bytes × Option α) :=
  (List.range n).map fun k =>
    (decide (k % (l.length + 1) < l.length),l[k % (l.length + 1)]?.map Prod.fst,l[k % (l.length + 1)]?.map Prod.snd)

def Act.visits : Act α δ → ℕ
  | .visit => 1
  | _ => 0

def visits (acts : List (Act α δ)) : ℕ := (acts.map Act.visits).sum

def deletedBy (acts : List (Act α δ)) : Set Bytes := {key | .call (.delete key) ∈ acts}

/-- A step after others: a visit comes to no key that was deleted, or whose table was destroyed, and nobody calls a
table that was destroyed. -/
def Allowed (l : List (Bytes × α)) (before : List (Act α δ)) : Act α δ → Prop
  | .visit => ∀ entry, l[visits before % (l.length + 1)]? = some entry →
    entry.1 ∉ deletedBy before ∧ .destroy ∉ before
  | _ => .destroy ∉ before

/-- No key is deleted, and the table is not destroyed, before the iterator comes to it. -/
def Spares (l : List (Bytes × α)) (acts : List (Act α δ)) : Prop :=
  ∀ before act, before ++ [act] <+: acts → Allowed l before act

theorem spares_concat {l : List (Bytes × α)} {acts : List (Act α δ)} {act : Act α δ} :
    Spares l (acts ++ [act]) ↔ Spares l acts ∧ Allowed l acts act := by
  constructor
  · intro h
    exact ⟨fun before act' hpre => h before act' (hpre.trans (List.prefix_append _ _)),h acts act (List.prefix_refl _)⟩
  · rintro ⟨h,hact⟩ before act' hpre
    rcases List.prefix_concat_iff.mp hpre with heq | hpre
    · obtain ⟨rfl,hlast⟩ := List.append_inj' heq rfl
      cases hlast
      exact hact
    · exact h before act' hpre

theorem visits_concat (acts : List (Act α δ)) (act : Act α δ) : visits (acts ++ [act]) = visits acts + act.visits := by
  rw [visits,visits,List.map_append,List.sum_append]
  rfl

theorem reports_succ (l : List (Bytes × α)) (n : ℕ) : reports l (n + 1) = reports l n ++
    [(decide (n % (l.length + 1) < l.length),l[n % (l.length + 1)]?.map Prod.fst,
      l[n % (l.length + 1)]?.map Prod.snd)] := by
  rw [reports,List.range_succ,List.map_append]
  rfl

/-- What holds after some steps, of an iterator made at the start. -/
structure At (start : IBHashTable α δ) (acts : List (Act α δ)) (x : Traversal α δ) : Prop where
  iter : x.iter = start.iterator.after (visits acts)
  seen : x.seen = reports start.stored (visits acts)
  destroyed : x.table = none ↔ .destroy ∈ acts
  later : ∀ s ∈ x.table, Later start s.table (deletedBy acts)

variable {acts : List (Act α δ)} {x : Traversal α δ}

/-- The iterator has a copy of each entry. -/
theorem iterator_after (hs : start.Sized) (n : ℕ) :
    (iteratorMoveNext (start.iterator.after n)).1 = decide (n % (start.stored.length + 1) < start.stored.length) ∧
      iteratorKey (start.iterator.after (n + 1)) =
        start.entries[n % (start.stored.length + 1)]?.map IBHashTableEntry.copy ∧
      iteratorCurrent (start.iterator.after (n + 1)) = start.stored[n % (start.stored.length + 1)]?.map Prod.snd := by
  have hcount : start.stored.length = start.count := by rw [stored,List.length_map,hs.count]
  have hlen : (start.entries.map fun e => (⟨e.copy,e.obj⟩ : IteratorEntry α)).length = start.count := by
    rw [List.length_map,hs.count]
  obtain ⟨hmore,hcurrent⟩ := Cursor.moveNext_after hlen n
  rw [List.getElem?_map] at hcurrent
  rw [hcount]
  refine ⟨hmore,?_,?_⟩
  · rw [iteratorKey,iterator,hcurrent,Option.map_map]
    rfl
  · rw [iteratorCurrent,iterator,hcurrent,stored,List.getElem?_map,Option.map_map,Option.map_map]
    rfl

/-- The key that a visit comes to can be read unless it was deleted. -/
theorem At.read_eq (h : At start acts x) (hs : start.Sized) (ho : start.Owns) :
    let key := x.read (iteratorKey (iteratorMoveNext x.iter).2)
    let there := start.stored[visits acts % (start.stored.length + 1)]?
    (Allowed start.stored acts .visit → key = some (there.map Prod.fst)) ∧
      (¬ Allowed start.stored acts .visit → key = none) := by
  have hnext : (iteratorMoveNext x.iter).2 = start.iterator.after (visits acts + 1) := by
    rw [h.iter,Cursor.after_succ]
    rfl
  obtain ⟨_,hkey,_⟩ := iterator_after hs (visits acts)
  intro key there
  have hread : key = x.read (start.entries[visits acts % (start.stored.length + 1)]?.map IBHashTableEntry.copy) := by
    rw [← hkey,← hnext]
  have hthere : there = start.entries[visits acts % (start.stored.length + 1)]?.map fun e => (e.key,e.obj) :=
    List.getElem?_map ..
  have hallowed : Allowed start.stored acts .visit ↔
      ∀ entry, there = some entry → entry.1 ∉ deletedBy acts ∧ .destroy ∉ acts := Iff.rfl
  rw [hallowed,hread,hthere]
  cases he : start.entries[visits acts % (start.stored.length + 1)]? with
  | none => exact ⟨fun _ => rfl,fun hno => absurd (fun _ heq => nomatch heq) hno⟩
  | some e =>
    have hmem : e ∈ start.entries := List.mem_of_getElem? he
    have hone : (∀ entry, some (e.key,e.obj) = some entry → entry.1 ∉ deletedBy acts ∧ .destroy ∉ acts) ↔
        e.key ∉ deletedBy acts ∧ .destroy ∉ acts :=
      ⟨fun hall => hall _ rfl,fun hand _ heq => Option.some.inj heq ▸ hand⟩
    rw [Option.map_some,Option.map_some,Option.map_some,hone,Traversal.read]
    cases ht : x.table with
    | none =>
      have hgone := h.destroyed.mp ht
      exact ⟨fun hand => absurd hgone hand.2,fun _ => rfl⟩
    | some s =>
      have hthere : .destroy ∉ acts := fun hd => nomatch (h.destroyed.mpr hd).symm.trans ht
      obtain ⟨hkept,hfreed⟩ := (h.later s ht).text ho hmem
      rw [Option.bind_some]
      refine ⟨fun hand => by rw [hkept hand.1]; rfl,fun hno => ?_⟩
      rw [hfreed (by_contra fun hk => hno ⟨hk,hthere⟩)]
      rfl

theorem deletedBy_concat (acts : List (Act α δ)) (call : TableCall α δ) :
    deletedBy (acts ++ [.call call]) = deletedBy acts ∪ call.deletes := by
  ext key
  rw [Set.mem_union,deletedBy,deletedBy,Set.mem_ofPred_eq,Set.mem_ofPred_eq,List.mem_append,List.mem_singleton]
  cases call <;> simp [TableCall.deletes]

/-- A step is taken when it is allowed, and then all holds again. -/
theorem At.step (h : At start acts x) (hs : start.Sized) (ho : start.Owns) (act : Act α δ) :
    (Allowed start.stored acts act → ∃ y, x.step act = some y ∧ At start (acts ++ [act]) y) ∧
      (¬ Allowed start.stored acts act → x.step act = none) := by
  have hvisits := visits_concat acts act
  cases act with
  | call call =>
    refine ⟨fun hthere => ?_,fun hgone => ?_⟩
    · obtain ⟨s,ht⟩ := Option.ne_none_iff_exists'.mp (mt h.destroyed.mp hthere)
      refine ⟨{ x with table := some (s.step call) },by rw [Traversal.step,ht]; rfl,⟨?_,?_,?_,?_⟩⟩
      · exact h.iter.trans (congrArg _ hvisits.symm)
      · exact h.seen.trans (congrArg _ hvisits.symm)
      · exact ⟨fun hnone => absurd hnone (Option.some_ne_none _),fun hd => absurd (by simpa using hd) hthere⟩
      · rintro s' hs'
        cases hs'
        rw [deletedBy_concat]
        exact (h.later s ht).call call
    · rw [Traversal.step,h.destroyed.mpr (not_not.mp hgone)]
      rfl
  | destroy =>
    refine ⟨fun hthere => ?_,fun hgone => ?_⟩
    · obtain ⟨s,ht⟩ := Option.ne_none_iff_exists'.mp (mt h.destroyed.mp hthere)
      refine ⟨{ x with table := none },by rw [Traversal.step,ht]; rfl,⟨?_,?_,?_,?_⟩⟩
      · exact h.iter.trans (congrArg _ hvisits.symm)
      · exact h.seen.trans (congrArg _ hvisits.symm)
      · simp
      · exact fun _ hnone => nomatch hnone
    · rw [Traversal.step,h.destroyed.mpr (not_not.mp hgone)]
      rfl
  | visit =>
    obtain ⟨hread,hfail⟩ := h.read_eq hs ho
    obtain ⟨hmore,_,hcurrent⟩ := iterator_after hs (visits acts)
    have hnext : (iteratorMoveNext x.iter).2 = start.iterator.after (visits acts + 1) := by
      rw [h.iter,Cursor.after_succ]
      rfl
    refine ⟨fun hallowed => ⟨_,by rw [Traversal.step]; dsimp only; rw [hread hallowed]; rfl,⟨?_,?_,?_,?_⟩⟩,fun hno => ?_⟩
    · exact hnext.trans (congrArg _ hvisits.symm)
    · rw [hvisits]
      refine Eq.trans ?_ (reports_succ ..).symm
      rw [h.seen,hnext,hcurrent,h.iter,hmore]
    · simpa using h.destroyed
    · intro s hsome
      have hsame : deletedBy (acts ++ [.visit]) = deletedBy acts := by
        ext key
        simp [deletedBy]
      rw [hsame]
      exact h.later s hsome
    · rw [Traversal.step]
      dsimp only
      rw [hfail hno]
      rfl

/-- The steps are taken as long as they are allowed. -/
theorem run_spares {s : Logged α δ} (hs : s.table.Sized) (ho : s.table.Owns) (acts : List (Act α δ)) :
    let run := Traversal.run ⟨some s,s.table.iterator,[]⟩ acts
    (Spares s.table.stored acts → ∃ y, run = some y ∧ At s.table acts y) ∧ (¬ Spares s.table.stored acts → run = none) := by
  intro run
  induction acts using List.reverseRecOn with
  | nil =>
    refine ⟨fun _ => ⟨_,rfl,rfl,rfl,by simp,?_⟩,fun hno => absurd (fun _ _ hpre => ?_) hno⟩
    · rintro _ ⟨⟩
      exact ⟨hs,ho,le_rfl,fun o _ => by simp [deletedBy]⟩
    · simp at hpre
  | append_singleton acts act ih =>
    obtain ⟨hrun,hfail⟩ := ih
    have hstep : run = (Traversal.run ⟨some s,s.table.iterator,[]⟩ acts).bind (Traversal.step · act) := by
      simp only [run,Traversal.run,List.foldlM_append]
      cases List.foldlM Traversal.step (⟨some s,s.table.iterator,[]⟩ : Traversal α δ) acts <;> simp
    rw [hstep,spares_concat]
    by_cases hspares : Spares s.table.stored acts
    · obtain ⟨x,hx,hat⟩ := hrun hspares
      rw [hx,Option.bind_some,and_iff_right hspares]
      exact hat.step hs ho act
    · rw [hfail hspares]
      exact ⟨fun hand => absurd hand.1 hspares,fun _ => rfl⟩

theorem run_owns {s : Logged α δ} (hs : s.table.Sized) (ho : s.table.Owns) (calls : List (TableCall α δ)) :
    (s.run calls).table.Owns := by
  induction calls generalizing s with
  | nil => exact ho
  | cons call calls ih =>
    cases call with
    | set key obj deleter => exact ih (hs.set key obj deleter) (ho.set hs.mask key obj deleter)
    | delete key => exact ih (hs.delete key) (ho.delete hs key)

/-- The entries are those of the finite map, each key once. -/
theorem Refines.stored {m : TableMap α δ} {given : List (δ × α)} (h : Refines s m given) :
    (s.table.stored.map Prod.fst).Nodup ∧
      ∀ key obj, (key,obj) ∈ s.table.stored ↔ (m.lookup key).map Prod.fst = some obj := by
  have hkeys : s.table.stored.map Prod.fst = s.table.entries.map IBHashTableEntry.key := List.map_map
  refine ⟨hkeys ▸ h.sized.keys_nodup,fun key obj => ?_⟩
  rw [IBHashTable.stored,List.mem_map,← h.lookup key,Option.map_map,Option.map_eq_some_iff]
  constructor
  · rintro ⟨e,he,heq⟩
    obtain ⟨rfl,rfl⟩ := Prod.mk.inj heq
    exact ⟨e,h.sized.find_iff.mpr ⟨he,rfl⟩,rfl⟩
  · rintro ⟨e,hf,rfl⟩
    obtain ⟨he,rfl⟩ := h.sized.find_iff.mp hf
    exact ⟨e,he,rfl⟩

/-- For tables of 2 to 8 bits and any calls: the lookups, the results of `IBHashTable_delete` and the counter are
those of the finite map; the buckets used exist; each object has its deleter called when it is dropped, or at the end.
A fresh iterator goes once through the keys that are there, with their objects, before it reports the end, whatever
is called meanwhile, if and only if no key is deleted, and the table not destroyed, before the iterator comes to it. -/
theorem refines_finite_map {bits : ℕ} (hlow : 2 ≤ bits) (hhigh : bits ≤ 8) (calls : List (TableCall α δ)) :
    let s := (Logged.create bits : Logged α δ).run calls
    let m := (∅ : TableMap α δ).run calls
    (∀ key, s.table.get key = (m.lookup key).map Prod.fst) ∧
      (∀ key, (s.table.delete key).1 = true ↔ key ∈ m) ∧
      s.table.count = m.keys.card ∧
      (∀ key, hashstr key s.table.bits < HT_SIZE bits) ∧
      (∀ call, (s.step call).calls = s.calls ++ m.drop call.key) ∧
      (s.calls ++ s.table.destroy) ~ calls.flatMap TableCall.given ∧
      s.table.iterator.items.length = s.table.iterator.count ∧
      (s.table.stored.map Prod.fst).Nodup ∧
      (∀ key obj, (key,obj) ∈ s.table.stored ↔ (m.lookup key).map Prod.fst = some obj) ∧
      ∀ acts : List (Act α δ), (∃ y, Traversal.run ⟨some s,s.table.iterator,[]⟩ acts = some y ∧
        y.seen = reports s.table.stored (visits acts)) ↔ Spares s.table.stored acts := by
  intro s m
  have hmask := bits_le_mask hlow hhigh
  have h : Refines s m ([] ++ calls.flatMap TableCall.given) := (create_refines hmask).run calls
  have howns : s.table.Owns := run_owns (create_sized hmask) (create_owns bits) calls
  have hget : ∀ key, s.table.get key = (m.lookup key).map Prod.fst := by
    intro key
    rw [get,← h.lookup key,Option.map_map]
    rfl
  obtain ⟨hnodup,hmem⟩ := h.stored
  have hlen : s.table.iterator.items.length = s.table.count := (List.length_map _).trans h.sized.count.symm
  refine ⟨hget,fun key => ?_,h.count,fun key => ?_,h.step_calls,h.deleted,hlen,hnodup,hmem,fun acts => ?_⟩
  · rw [delete_found,hget,Option.isSome_map]
    exact Finmap.lookup_isSome
  · have hbits : s.table.bits = bits := run_bits _ calls
    rw [hbits]
    exact hashstr_lt key hmask
  · obtain ⟨hrun,hfail⟩ := run_spares h.sized howns acts
    constructor
    · rintro ⟨y,hy,_⟩
      by_contra hno
      cases (hfail hno).symm.trans hy
    · intro hspares
      obtain ⟨y,hy,hat⟩ := hrun hspares
      exact ⟨y,hy,hat.seen⟩

theorem refines_finite_map_two_bits :
    let calls : List (TableCall ℕ ℕ) :=
      [.set (lit "joe") 1 (some 0),.set (lit "sue") 2 none,.set (lit "joe") 3 (some 0),.delete (lit "sue")]
    let s := (Logged.create 2 : Logged ℕ ℕ).run calls
    s.table.get (lit "joe") = some 3 ∧ s.table.get (lit "sue") = none ∧ s.table.count = 1 ∧
      (s.calls ++ s.table.destroy) ~ [(0,1),(0,3)] := by
  intro calls s
  have h := refines_finite_map (by decide : 2 ≤ 2) (by decide) calls
  exact ⟨(h.1 _).trans (by decide),(h.1 _).trans (by decide),h.2.2.1.trans (by decide),h.2.2.2.2.2.1⟩

/-- An iterator whose first key is deleted before it is visited. -/
theorem deleted_key_visited :
    let s := (Logged.create 2 : Logged ℕ ℕ).run [.set (lit "joe") 1 none]
    Traversal.run ⟨some s,s.table.iterator,[]⟩ [.call (.delete (lit "joe")),.visit] = none := by
  rfl

end IBHashTable
end LibIrcBot
