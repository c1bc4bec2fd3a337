import LibIrcBot.Containers.List

/-! # Lists as sequences

The array of a list holds the sequence that sees the same calls. The calls fail only where
memory does, which a list of fewer than 2^58 items never comes to.
-/
namespace LibIrcBot.IBList
open Outcome
universe u
variable {α δ : Type u} {t : IBList α δ} {l l₁ l₂ : List (IBListItem α δ)} {e : IBListItem α δ}

/-- The sequence is in the slots in use, and the array is no larger than objects can be. -/
structure Holds (t : IBList α δ) (l : List (IBListItem α δ)) : Prop where
  items : t.items.take t.count = l.map some
  count : t.count = l.length
  length : t.items.length = t.capa
  room : t.count ≤ t.capa
  capa : 0 < t.capa
  memory : t.capa * ITEMSIZE ≤ PTRDIFF_MAX

theorem create_holds : Holds (create : IBList α δ) [] :=
  ⟨rfl,rfl,List.length_replicate,Nat.zero_le _,Nat.succ_pos 7,(by decide : INITIALCAPA * ITEMSIZE ≤ PTRDIFF_MAX)⟩

/-- An index of a slot is far from the end of `size_t`. -/
theorem Holds.small (h : Holds t l) : l.length < 2 ^ 59 := by
  have hmem := h.memory
  have hroom := h.room
  have hcount := h.count
  simp only [ITEMSIZE,PTRDIFF_MAX] at hmem
  omega

theorem incr_of_lt {i : ℕ} (h : i < 2 ^ 59) : incr i = i + 1 := Nat.mod_eq_of_lt (by omega)

theorem incr_decr {i : ℕ} (h : i < 2 ^ 59) : incr (decr i) = i := by
  unfold incr decr
  omega

theorem Holds.get (h : Holds t (l₁ ++ e :: l₂)) : t.items[l₁.length]? = some (some e) := by
  have hlt : l₁.length < t.count := by
    rw [h.count,List.length_append,List.length_cons]
    omega
  rw [← List.getElem?_take_of_lt hlt,h.items,List.getElem?_map]
  simp

theorem Holds.item (h : Holds t (l₁ ++ e :: l₂)) : t.item l₁.length = .ok e := by
  rw [IBList.item,h.get]

theorem Holds.expand (h : Holds t l) (hfull : t.count = t.capa) :
    (∃ t', t.expand = .ok t' ∧ Holds t' l ∧ t'.count < t'.capa) ∨ (t.expand = .error .memory ∧ 2 ^ 58 ≤ l.length) := by
  have hcount := h.count
  have hlen := h.length
  have hpos := h.capa
  unfold IBList.expand
  by_cases hmem : t.capa * 2 * ITEMSIZE ≤ PTRDIFF_MAX
  · refine .inl ⟨_,if_pos hmem,⟨?_,hcount,?_,?_,?_,hmem⟩,?_⟩
    · have hle : t.count ≤ t.items.length := hlen ▸ h.room
      rw [List.take_append_of_le_length hle]
      exact h.items
    · simp only [List.length_append,List.length_replicate]
      omega
    · dsimp only
      omega
    · dsimp only
      omega
    · dsimp only
      omega
  · refine .inr ⟨if_neg hmem,?_⟩
    simp only [ITEMSIZE,PTRDIFF_MAX] at hmem
    omega

/-- The new item goes to the first free slot. -/
theorem Holds.write (h : Holds t l) (hfree : t.count < t.capa) (obj : α) (deleter : Option δ) :
    Holds { t with items := t.items.set t.count (some ⟨obj,deleter⟩), count := t.count + 1 }
      (l ++ [⟨obj,deleter⟩]) := by
  have hlt : t.count < t.items.length := h.length.symm ▸ hfree
  refine ⟨?_,?_,?_,hfree,h.capa,h.memory⟩
  · dsimp only
    rw [List.take_add_one,List.take_set_of_le le_rfl,h.items,List.getElem?_set_self hlt,List.map_append]
    rfl
  · rw [List.length_append,← h.count]
    rfl
  · rw [List.length_set]
    exact h.length

theorem Holds.append (h : Holds t l) (obj : α) (deleter : Option δ) :
    (∃ t', t.append obj deleter = .ok t' ∧ Holds t' (l ++ [⟨obj,deleter⟩])) ∨
      (t.append obj deleter = .error .memory ∧ 2 ^ 58 ≤ l.length) := by
  unfold IBList.append
  by_cases hfull : t.count = t.capa
  · rw [if_pos hfull]
    rcases h.expand hfull with ⟨t',ht,hh,hfree⟩ | ⟨herr,hlarge⟩
    · rw [ht]
      exact .inl ⟨_,rfl,hh.write hfree obj deleter⟩
    · rw [herr]
      exact .inr ⟨rfl,hlarge⟩
  · rw [if_neg hfull]
    exact .inl ⟨_,rfl,h.write (Nat.lt_of_le_of_ne h.room hfull) obj deleter⟩

theorem memmove_tail {β : Type*} {items a b rest : List β} {x : β} (h : items = a ++ x :: b ++ rest) :
    memmove items a.length (a.length + 1) b.length = a ++ (b ++ items.drop (a.length + b.length)) := by
  have htake : items.take a.length = a := by
    rw [h,List.append_assoc,List.take_left]
  have hdrop : (items.drop (a.length + 1)).take b.length = b := by
    rw [h,List.append_assoc,List.drop_length_add_append,List.cons_append,List.drop_succ_cons,List.drop_zero,
      List.take_left]
  rw [memmove,htake,hdrop]

/-- The tail moves over the slot of the item that is removed. -/
theorem Holds.removeAt (h : Holds t (l₁ ++ e :: l₂)) (delete : Bool) :
    ∃ t', t.removeAt l₁.length delete = .ok (if delete then e.call.toList else [],t') ∧ Holds t' (l₁ ++ l₂) := by
  have hcount := h.count
  have hroom := h.room
  have hlen := h.length
  have hitems := h.items
  simp only [List.length_append,List.length_cons] at hcount
  have hmem := h.memory
  have hsplit : t.items = l₁.map some ++ some e :: l₂.map some ++ t.items.drop t.count := by
    rw [← List.map_cons,← List.map_append,← hitems,List.take_append_drop]
  have hmoved : Holds { t with
      items := if l₁.length < t.count - 1 then
        memmove t.items l₁.length (l₁.length + 1) (t.count - l₁.length - 1) else t.items
      count := t.count - 1 } (l₁ ++ l₂) := by
    have hleft : t.count - 1 = l₁.length + l₂.length := by omega
    by_cases hlast : l₁.length < t.count - 1
    · have hmove := memmove_tail hsplit
      have hn : t.count - l₁.length - 1 = l₂.length := by omega
      simp only [List.length_map] at hmove
      rw [if_pos hlast,hn,hmove]
      refine ⟨?_,?_,?_,?_,h.capa,hmem⟩
      · dsimp only
        rw [hleft,← List.append_assoc,← List.map_append,← List.length_append,
          ← (List.length_map some : ((l₁ ++ l₂).map some).length = _),List.take_left]
      · exact hleft.trans List.length_append.symm
      · simp only [List.length_append,List.length_map,List.length_drop]
        omega
      · dsimp only
        omega
    · have hnil : l₂ = [] := List.eq_nil_of_length_eq_zero (by omega)
      subst hnil
      rw [if_neg hlast]
      refine ⟨?_,?_,hlen,?_,h.capa,hmem⟩
      · dsimp only
        rw [hsplit,List.append_assoc,hleft,List.length_nil,Nat.add_zero,← (List.length_map some : (l₁.map some).length = _),
          List.take_left,List.append_nil]
      · rw [List.append_nil]
        exact hleft
      · dsimp only
        omega
  refine ⟨_,?_,hmoved⟩
  unfold IBList.removeAt
  cases delete with
  | false => rfl
  | true =>
    rw [if_pos rfl,h.item]
    rfl

/-- An index within the sequence does not wrap. -/
theorem Holds.index (h : Holds t (l₁ ++ e :: l₂)) : l₁.length < 2 ^ 59 := by
  have hsmall := h.small
  simp only [List.length_append,List.length_cons] at hsmall
  omega

theorem Holds.snoc (h : Holds t (l₁ ++ e :: l₂)) : Holds t ((l₁ ++ [e]) ++ l₂) := by
  rwa [List.append_assoc,List.singleton_append]

theorem Holds.incr (h : Holds t (l₁ ++ e :: l₂)) : IBList.incr l₁.length = (l₁ ++ [e]).length := by
  rw [incr_of_lt h.index,List.length_append]
  rfl

theorem call_toList (e : IBListItem α δ) (rest : List (IBListItem α δ)) :
    (e :: rest).filterMap IBListItem.call = e.call.toList ++ rest.filterMap IBListItem.call := by
  cases hc : e.call with
  | none => rw [List.filterMap_cons_none hc,Option.toList_none,List.nil_append]
  | some c => rw [List.filterMap_cons_some hc,Option.toList_some,List.singleton_append]

theorem Holds.removeLoop [DecidableEq α] (h : Holds t (l₁ ++ l₂)) (obj : α) :
    ∃ t', t.removeLoop obj l₂.length l₁.length = .ok t' ∧ Holds t' (l₁ ++ l₂.eraseP (·.obj = obj)) := by
  induction l₂ generalizing l₁ with
  | nil => exact ⟨t,rfl,h⟩
  | cons e l₂ ih =>
    rw [List.length_cons,IBList.removeLoop,h.item]
    by_cases he : e.obj = obj
    · obtain ⟨t',ht,hh⟩ := h.removeAt false
      refine ⟨t',?_,?_⟩
      · change (if e.obj = obj then Prod.snd <$> t.removeAt l₁.length false else _) = .ok t'
        rw [if_pos he,ht]
        rfl
      · have herase : (e :: l₂).eraseP (·.obj = obj) = l₂ := by simp [he]
        rwa [herase]
    · obtain ⟨t',ht,hh⟩ := ih h.snoc
      refine ⟨t',?_,?_⟩
      · change (if e.obj = obj then _ else t.removeLoop obj l₂.length (IBList.incr l₁.length)) = .ok t'
        rw [if_neg he,h.incr]
        exact ht
      · have herase : (e :: l₂).eraseP (·.obj = obj) = e :: l₂.eraseP (·.obj = obj) := by simp [he]
        rw [herase]
        rwa [List.append_assoc,List.singleton_append] at hh

/-- After a removal the index is back at the same slot, which then has the next item. -/
theorem Holds.removeAllLoop (h : Holds t (l₁ ++ l₂)) (matcher : α → Bool) :
    ∃ t', IBList.removeAllLoop matcher l₂.length l₁.length t =
        .ok ((l₂.filter (matcher ·.obj)).filterMap IBListItem.call,t') ∧
      Holds t' (l₁ ++ l₂.filter (!matcher ·.obj)) := by
  induction l₂ generalizing l₁ t with
  | nil =>
    have hend : ¬ l₁.length < t.count := by
      rw [h.count,List.append_nil]
      exact Nat.lt_irrefl _
    refine ⟨t,?_,h⟩
    rw [List.length_nil,IBList.removeAllLoop,if_neg hend]
    rfl
  | cons e l₂ ih =>
    have hlt : l₁.length < t.count := by
      rw [h.count,List.length_append,List.length_cons]
      omega
    rw [List.length_cons,IBList.removeAllLoop,if_pos hlt,h.item]
    cases hm : matcher e.obj with
    | true =>
      obtain ⟨s,hs,hh⟩ := h.removeAt true
      obtain ⟨t',ht,hh'⟩ := ih hh
      refine ⟨t',?_,?_⟩
      · change (if matcher e.obj = true then (t.removeAt l₁.length true >>= fun r =>
          IBList.removeAllLoop matcher l₂.length (IBList.incr (decr l₁.length)) r.2 >>= fun m =>
            .ok (r.1 ++ m.1,m.2)) else _) = _
        rw [if_pos hm,hs,incr_decr h.index]
        change (IBList.removeAllLoop matcher l₂.length l₁.length s >>= fun m => _) = _
        have hfilter : (e :: l₂).filter (matcher ·.obj) = e :: l₂.filter (matcher ·.obj) := by simp [hm]
        rw [ht,hfilter,call_toList]
        rfl
      · have hfilter : (e :: l₂).filter (!matcher ·.obj) = l₂.filter (!matcher ·.obj) := by simp [hm]
        rwa [hfilter]
    | false =>
      obtain ⟨t',ht,hh⟩ := ih h.snoc
      refine ⟨t',?_,?_⟩
      · change (if matcher e.obj = true then _ else
          IBList.removeAllLoop matcher l₂.length (IBList.incr l₁.length) t) = _
        have hfilter : (e :: l₂).filter (matcher ·.obj) = l₂.filter (matcher ·.obj) := by simp [hm]
        rw [if_neg (by simp [hm]),h.incr,ht,hfilter]
      · have hfilter : (e :: l₂).filter (!matcher ·.obj) = e :: l₂.filter (!matcher ·.obj) := by simp [hm]
        rw [hfilter]
        rwa [List.append_assoc,List.singleton_append] at hh

theorem Holds.destroyLoop (h : Holds t (l₁ ++ l₂)) :
    t.destroyLoop l₂.length l₁.length = .ok (l₂.filterMap IBListItem.call) := by
  induction l₂ generalizing l₁ with
  | nil => rfl
  | cons e l₂ ih =>
    rw [List.length_cons,IBList.destroyLoop,h.item]
    change (t.destroyLoop l₂.length (IBList.incr l₁.length) >>= fun calls => .ok (e.call.toList ++ calls)) = _
    rw [h.incr,ih h.snoc,call_toList]
    rfl

theorem Holds.remove [DecidableEq α] (h : Holds t l) (obj : α) :
    ∃ t', t.remove obj = .ok t' ∧ Holds t' (l.eraseP (·.obj = obj)) := by
  rw [IBList.remove,h.count]
  exact @Holds.removeLoop _ _ _ [] _ _ h obj

theorem Holds.removeAll (h : Holds t l) (matcher : α → Bool) :
    ∃ t', t.removeAll matcher = .ok ((l.filter (matcher ·.obj)).filterMap IBListItem.call,t') ∧
      Holds t' (l.filter (!matcher ·.obj)) := by
  rw [IBList.removeAll,h.count]
  exact @Holds.removeAllLoop _ _ _ [] _ h matcher

theorem Holds.destroy (h : Holds t l) : t.destroy = .ok (l.filterMap IBListItem.call) := by
  rw [IBList.destroy,h.count]
  exact @Holds.destroyLoop _ _ _ [] _ h

theorem Holds.itemAt (h : Holds t l) (idx : ℕ) : t.itemAt idx = .ok (l[idx]?.map IBListItem.obj) := by
  unfold IBList.itemAt
  by_cases hend : idx ≥ t.count
  · rw [if_pos hend,List.getElem?_eq_none (h.count ▸ hend)]
    rfl
  · have hlt : idx < l.length := by
      rw [← h.count]
      omega
    have hsplit : l = l.take idx ++ l[idx] :: l.drop (idx + 1) := by
      rw [List.getElem_cons_drop,List.take_append_drop]
    have hh : Holds t (l.take idx ++ l[idx] :: l.drop (idx + 1)) := hsplit ▸ h
    have hitem := hh.item
    rw [List.length_take_of_le (Nat.le_of_lt hlt)] at hitem
    rw [if_neg hend,hitem,List.getElem?_eq_getElem hlt]
    rfl

/-- What the calls of an iterator report, and what is current after them. -/
theorem Holds.iterator (h : Holds t l) (n : ℕ) :
    (iteratorMoveNext (t.iterator.after n)).1 = decide (n % (l.length + 1) < l.length) ∧
      iteratorCurrent (t.iterator.after (n + 1)) = l[n % (l.length + 1)]?.map IBListItem.obj := by
  have hlen : (t.items.take t.count).length = t.count := by
    rw [h.items,List.length_map]
    exact h.count.symm
  obtain ⟨hreport,hcurrent⟩ := Cursor.moveNext_after hlen n
  constructor
  · rw [← h.count]
    exact hreport
  · have hslot : (t.iterator.after (n + 1)).current = (l[n % (l.length + 1)]?).map some := by
      rw [← h.count,← List.getElem?_map,← h.items]
      exact hcurrent
    rw [iteratorCurrent,hslot]
    cases l[n % (l.length + 1)]? <;> rfl

inductive ListCall (α δ : Type u) where
  | append (obj : α) (deleter : Option δ)
  | remove (obj : α)
  | removeAll (matcher : α → Bool)

/-- A list, with a ghost log of the deleter calls. -/
structure Logged (α δ : Type u) where
  list : IBList α δ
  calls : List (δ × α)

/-- The sequence of the items, and the deleter calls. -/
structure Sequence (α δ : Type u) where
  items : List (IBListItem α δ)
  calls : List (δ × α)

section Runs
variable [DecidableEq α]

def Logged.step (self : Logged α δ) : ListCall α δ → Except ListFault (Logged α δ)
  | .append obj deleter => (fun list => { self with list := list }) <$> self.list.append obj deleter
  | .remove obj => (fun list => { self with list := list }) <$> self.list.remove obj
  | .removeAll matcher => (fun r => ⟨r.2,self.calls ++ r.1⟩) <$> self.list.removeAll matcher

def Logged.run (self : Logged α δ) (calls : List (ListCall α δ)) : Except ListFault (Logged α δ) :=
  calls.foldlM step self

/-- Appending adds at the end, removing erases the first occurrence, and what matches is filtered out and deleted. -/
def Sequence.step (self : Sequence α δ) : ListCall α δ → Sequence α δ
  | .append obj deleter => { self with items := self.items ++ [⟨obj,deleter⟩] }
  | .remove obj => { self with items := self.items.eraseP (·.obj = obj) }
  | .removeAll matcher =>
    { items := self.items.filter (!matcher ·.obj)
      calls := self.calls ++ (self.items.filter (matcher ·.obj)).filterMap IBListItem.call }

def Sequence.run (self : Sequence α δ) (calls : List (ListCall α δ)) : Sequence α δ := calls.foldl step self

structure Refines (s : Logged α δ) (q : Sequence α δ) : Prop where
  holds : Holds s.list q.items
  calls : s.calls = q.calls

variable {s : Logged α δ} {q : Sequence α δ}

omit [DecidableEq α] in
theorem create_refines : Refines (⟨create,[]⟩ : Logged α δ) ⟨[],[]⟩ := ⟨create_holds,rfl⟩

theorem Refines.step (h : Refines s q) (call : ListCall α δ) :
    (∃ s', s.step call = .ok s' ∧ Refines s' (q.step call)) ∨
      (s.step call = .error .memory ∧ 2 ^ 58 ≤ q.items.length) := by
  cases call with
  | append obj deleter =>
    rcases h.holds.append obj deleter with ⟨t',ht,hh⟩ | ⟨herr,hlarge⟩
    · refine .inl ⟨⟨t',s.calls⟩,?_,hh,h.calls⟩
      rw [Logged.step,ht]
      rfl
    · refine .inr ⟨?_,hlarge⟩
      rw [Logged.step,herr]
      rfl
  | remove obj =>
    obtain ⟨t',ht,hh⟩ := h.holds.remove obj
    refine .inl ⟨⟨t',s.calls⟩,?_,hh,h.calls⟩
    rw [Logged.step,ht]
    rfl
  | removeAll matcher =>
    obtain ⟨t',ht,hh⟩ := h.holds.removeAll matcher
    refine .inl ⟨⟨t',_⟩,?_,hh,congrArg (· ++ _) h.calls⟩
    rw [Logged.step,ht]
    rfl

theorem Sequence.length_step (q : Sequence α δ) (call : ListCall α δ) :
    (q.step call).items.length ≤ q.items.length + 1 := by
  cases call with
  | append obj deleter => exact le_of_eq List.length_append
  | remove obj => exact Nat.le_succ_of_le (List.eraseP_sublist).length_le
  | removeAll matcher => exact Nat.le_succ_of_le (List.length_filter_le _ _)

theorem Refines.run (h : Refines s q) (calls : List (ListCall α δ)) :
    (∃ s', s.run calls = .ok s' ∧ Refines s' (q.run calls)) ∨
      (s.run calls = .error .memory ∧ 2 ^ 58 < q.items.length + calls.length) := by
  induction calls generalizing s q with
  | nil => exact .inl ⟨s,rfl,h⟩
  | cons call calls ih =>
    rw [Logged.run,List.foldlM_cons]
    rcases h.step call with ⟨s',hs,hh⟩ | ⟨herr,hlarge⟩
    · rw [hs]
      have hlen := q.length_step call
      rcases ih hh with hok | ⟨herr,hlarge⟩
      · exact .inl hok
      · refine .inr ⟨herr,?_⟩
        rw [List.length_cons]
        omega
    · rw [herr]
      refine .inr ⟨rfl,?_⟩
      rw [List.length_cons]
      omega

/-- A list that changes while an iterator of it is in use. -/
structure Traversal (α δ : Type u) where
  list : Logged α δ
  iter : Cursor (Option (IBListItem α δ))
  /-- What the calls of `IBListIterator_moveNext` returned, with the current object after each. -/
  seen : List (Bool × Option α)

inductive Act (α δ : Type u) where
  | call (call : ListCall α δ)
  | moveNext

def Traversal.step (self : Traversal α δ) : Act α δ → Except ListFault (Traversal α δ)
  | .call call => (fun list => { self with list := list }) <$> self.list.step call
  | .moveNext =>
    let (more,iter) := iteratorMoveNext self.iter
    .ok { self with iter := iter, seen := self.seen ++ [(more,iteratorCurrent iter)] }

def Traversal.run (self : Traversal α δ) (acts : List (Act α δ)) : Except ListFault (Traversal α δ) :=
  acts.foldlM step self

def Act.moves : Act α δ → ℕ
  | .call _ => 0
  | .moveNext => 1

/-- The objects of a sequence in order, then the end, and all over again. -/
def reports (l : List (IBListItem α δ)) (n : ℕ) : List (Bool × Option α) :=
  (List.range n).map fun k => (decide (k % (l.length + 1) < l.length),l[k % (l.length + 1)]?.map IBListItem.obj)

/-- The iterator does not see what happens to the list, unless memory runs out. -/
theorem traversal_run (h : Holds t l) {acts : List (Act α δ)} {n : ℕ} {x : Traversal α δ} (hx : Refines x.list q)
    (hiter : x.iter = t.iterator.after n) (hseen : x.seen = reports l n) :
    (∃ y, x.run acts = .ok y ∧ y.seen = reports l (n + (acts.map Act.moves).sum)) ∨
      (x.run acts = .error .memory ∧ 2 ^ 58 < q.items.length + acts.length) := by
  induction acts generalizing x n q with
  | nil => exact .inl ⟨x,rfl,hseen⟩
  | cons act acts ih =>
    rw [Traversal.run,List.foldlM_cons,List.map_cons,List.sum_cons,List.length_cons]
    cases act with
    | call call =>
      rw [Traversal.step,Act.moves,Nat.zero_add]
      rcases hx.step call with ⟨list,hs,hh⟩ | ⟨herr,hlarge⟩
      · rw [hs]
        have hlen := q.length_step call
        rcases ih (x := { x with list := list }) hh hiter hseen with hok | ⟨herr,hlarge⟩
        · exact .inl hok
        · exact .inr ⟨herr,by omega⟩
      · rw [herr]
        exact .inr ⟨rfl,by omega⟩
    | moveNext =>
      obtain ⟨hreport,hcurrent⟩ := h.iterator n
      have hnext : (iteratorMoveNext x.iter).2 = t.iterator.after (n + 1) := by
        rw [hiter,Cursor.after_succ]
        rfl
      have hreports : x.seen ++ [((iteratorMoveNext x.iter).1,iteratorCurrent (iteratorMoveNext x.iter).2)] =
          reports l (n + 1) := by
        rw [hseen,hnext,hcurrent,hiter,hreport,reports,reports,List.range_succ,List.map_append]
        rfl
      rw [Act.moves,← Nat.add_assoc]
      rcases ih (x := { x with iter := (iteratorMoveNext x.iter).2,seen := _ }) hx hnext hreports with hok | ⟨herr,hlarge⟩
      · exact .inl hok
      · exact .inr ⟨herr,by omega⟩

/-- The calls on a list that memory suffices for do to it what they do to a sequence. Its count stays within its
capacity, an iterator made at any point goes through the objects of that point whatever else is called, and
`IBList_destroy` calls the deleters of the objects that are left. -/
theorem refines_sequence (calls : List (ListCall α δ)) :
    let run := (⟨create,[]⟩ : Logged α δ).run calls
    let q := (⟨[],[]⟩ : Sequence α δ).run calls
    (calls.length ≤ 2 ^ 58 → ∃ s, run = .ok s) ∧ ∀ s, run = .ok s →
      s.list.size = q.items.length ∧ (∀ idx, s.list.itemAt idx = .ok (q.items[idx]?.map IBListItem.obj)) ∧
      s.calls = q.calls ∧ s.list.count ≤ s.list.capa ∧
      s.list.destroy = .ok (q.items.filterMap IBListItem.call) ∧
      ∀ acts : List (Act α δ),
        (q.items.length + acts.length ≤ 2 ^ 58 → ∃ y, Traversal.run ⟨s,s.list.iterator,[]⟩ acts = .ok y) ∧
          ∀ y, Traversal.run ⟨s,s.list.iterator,[]⟩ acts = .ok y → y.seen = reports q.items (acts.map Act.moves).sum := by
  intro run q
  rcases create_refines.run calls with ⟨s,hs,h⟩ | ⟨herr,hlarge⟩
  · refine ⟨fun _ => ⟨s,hs⟩,fun s' hs' => ?_⟩
    cases hs.symm.trans hs'
    refine ⟨h.holds.count,h.holds.itemAt,h.calls,h.holds.room,h.holds.destroy,fun acts => ?_⟩
    rcases traversal_run h.holds (n := 0) (x := ⟨s,s.list.iterator,[]⟩) h rfl rfl with ⟨y,hy,hseen⟩ | ⟨herr,hlarge⟩
    · rw [Nat.zero_add] at hseen
      refine ⟨fun _ => ⟨y,hy⟩,fun y' hy' => ?_⟩
      cases hy.symm.trans hy'
      exact hseen
    · refine ⟨fun hle => absurd hle (Nat.not_le.mpr hlarge),fun y hy => ?_⟩
      cases herr.symm.trans hy
  · refine ⟨fun hle => ?_,fun s' hs' => ?_⟩
    · rw [List.length_nil,Nat.zero_add] at hlarge
      omega
    · cases herr.symm.trans hs'

end Runs

end LibIrcBot.IBList
