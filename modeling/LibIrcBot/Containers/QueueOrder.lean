import LibIrcBot.Containers.QueueFifo

/-! # The order of the ring

Growth may lose the objects in the wrapped part of the ring, but it neither moves nor repeats one: whatever object
is taken out is the next one that was put in.
-/
namespace LibIrcBot.IBQueue
open ObjectMemory
variable {α δ : Type*} [DecidableEq α] [DecidableEq δ]

/-- The ring holds the objects `es` in their order, except that pointers may be indeterminate. -/
structure Queues (q : IBQueue α δ) (es : List α) : Prop where
  wf : q.Wf
  count : q.count = es.length
  obj : ∀ j < q.count, ∀ a, objAt q.entries ((q.front + j) % q.capa) = some a → es[j]? = some a

theorem create_queues : (create : IBQueue α δ).Queues [] := ⟨create_wf,rfl,fun _ hj => absurd hj (Nat.not_lt_zero _)⟩

theorem objAt_writeEntry_self {m : Memory (QueuePtr α δ)} {i : ℕ} (h : i * entrySize + entrySize ≤ m.length) (obj : α)
    (deleter : Option δ) : objAt (writeEntry m i obj deleter) i = some obj := by
  have he := entryAt_writeEntry_self h obj deleter
  unfold entryAt at he
  split at he
  · next ha _ => rw [ha,(Prod.mk.inj (Option.some.inj he)).1]
  · cases he

theorem objAt_writeEntry_ne {m : Memory (QueuePtr α δ)} {i j : ℕ} (h : i * entrySize + entrySize ≤ m.length)
    (hij : j ≠ i) (obj : α) (deleter : Option δ) : objAt (writeEntry m i obj deleter) j = objAt m j := by
  simp only [entrySize] at h
  have hs := objWrite_length h obj (δ := δ)
  simp only [objAt,writeEntry,entrySize,ptrSize]
  rw [load_store_of_disjoint (by rw [encode_length,hs]; omega) (by rw [encode_length]; omega),
    load_store_of_disjoint (by rw [encode_length]; omega) (by rw [encode_length]; omega)]

namespace Queues
variable {q : IBQueue α δ} {es : List α} {e : α}

/-- Writing the slot behind the last one puts an object at the end. -/
theorem push (h : q.Queues es) (hc : q.count < q.capa) (obj : α) (deleter : Option δ)
    (hw : ({ q with
      entries := writeEntry q.entries q.back obj deleter
      back := Ring.advance q.capa q.back
      count := q.count + 1 } : IBQueue α δ).Wf) :
    ({ q with
      entries := writeEntry q.entries q.back obj deleter
      back := Ring.advance q.capa q.back
      count := q.count + 1 } : IBQueue α δ).Queues (es ++ [obj]) := by
  have hb := h.wf.back_lt
  have hroom : q.back * entrySize + entrySize ≤ q.entries.length := by
    rw [h.wf.bytes]
    simp only [entrySize]
    omega
  refine ⟨hw,?_,fun j hj a ha => ?_⟩
  · rw [List.length_append,← h.count]
    rfl
  · rcases Nat.lt_succ_iff_lt_or_eq.mp hj with hj | rfl
    · have hne : (q.front + j) % q.capa ≠ q.back := by
        rw [h.wf.back_eq]
        exact Ring.slot_ne hj hc
      rw [objAt_writeEntry_ne hroom hne] at ha
      rw [List.getElem?_append_left (h.count ▸ hj)]
      exact h.obj j hj a ha
    · rw [← h.wf.back_eq,objAt_writeEntry_self hroom] at ha
      rw [h.count,List.getElem?_append_right (Nat.le_refl _),Nat.sub_self]
      exact ha

/-- An object that is found behind the relocated front was copied as a whole. -/
theorem objAt_relocated (h : q.Wf) (hz : q.front ≠ 0) {j : ℕ} (hj : q.front + j < q.capa) {a : α}
    (ha : objAt q.expand.entries (q.front + q.capa + j) = some a) : objAt q.entries (q.front + j) = some a := by
  have hb := h.bytes
  have hs : q.entries.length ≤ 2 * q.capa * entrySize := by
    rw [hb]
    simp only [entrySize]
    omega
  have hr := realloc_length hs
  simp only [objAt,IBQueue.expand,ne_eq,hz,not_false_eq_true,↓reduceIte] at ha ⊢
  simp only [entrySize,ptrSize] at hb hs hr ha ⊢
  by_cases hcopied : j * 16 + 8 ≤ q.capa - q.front
  · rw [show (q.front + q.capa + j) * 16 = (q.front + q.capa) * 16 + j * 16 by omega,
      load_memcpy (by rw [hr]; omega) (by rw [hr]; omega) hcopied,load_realloc hs (by omega)] at ha
    rw [Nat.add_mul]
    exact ha
  · -- The last byte of the pointer was not copied.
    have hlen : (((realloc q.entries (2 * q.capa * 16)).drop (q.front * 16)).take (q.capa - q.front)).length =
        q.capa - q.front := memcpy_source_length (by rw [hr]; omega)
    have hfresh : (realloc q.entries (2 * q.capa * 16))[(q.front + q.capa + j) * 16 + 7]? = some none := by
      rw [realloc_eq hs,List.getElem?_append_right (by omega),List.getElem?_replicate,if_pos (by omega)]
    have hbyte : (memcpy (realloc q.entries (2 * q.capa * 16)) ((q.front + q.capa) * 16) (q.front * 16)
        (q.capa - q.front))[(q.front + q.capa + j) * 16 + 7]? = some none :=
      (getElem?_store_of_disjoint (by omega) (by omega)).trans hfresh
    rw [load_eq_none (by decide : 7 < 8) hbyte] at ha
    cases ha

/-- A slot in front of the old front keeps its object. -/
theorem objAt_kept (h : q.Wf) (hz : q.front ≠ 0) {i : ℕ} (hi : i < q.front) :
    objAt q.expand.entries i = objAt q.entries i := by
  have hf := h.front_lt
  have hb := h.bytes
  have hs : q.entries.length ≤ 2 * q.capa * entrySize := by
    rw [hb]
    simp only [entrySize]
    omega
  have hr := realloc_length hs
  simp only [objAt,IBQueue.expand,ne_eq,hz,not_false_eq_true,↓reduceIte]
  simp only [entrySize,ptrSize] at hb hs hr ⊢
  have hlen : (((realloc q.entries (2 * q.capa * 16)).drop (q.front * 16)).take (q.capa - q.front)).length =
      q.capa - q.front := memcpy_source_length (by rw [hr]; omega)
  rw [memcpy,load_store_of_disjoint (by omega) (by omega),load_realloc hs (by omega)]

theorem expand (h : q.Queues es) (hc : q.count = q.capa) : q.expand.Queues es := by
  have hf := h.wf.front_lt
  refine ⟨(expand_wf h.wf hc).1,?_,?_⟩
  · rw [← h.count]
    unfold IBQueue.expand
    dsimp only
    split <;> rfl
  · by_cases hz : q.front = 0
    · intro j hj a ha
      have hs : q.entries.length ≤ 2 * q.capa * entrySize := by
        rw [h.wf.bytes]
        simp only [entrySize]
        omega
      simp only [IBQueue.expand,hz,ne_eq,not_true_eq_false,↓reduceIte] at hj ha
      refine h.obj j hj a ?_
      rw [hz,Nat.zero_add,Nat.mod_eq_of_lt (by omega)]
      rw [Nat.zero_add,Nat.mod_eq_of_lt (by omega)] at ha
      rw [← ha]
      simp only [objAt]
      have hb := h.wf.bytes
      simp only [entrySize,ptrSize] at hs hb ⊢
      rw [load_realloc hs (by omega)]
    · have hexpand : q.expand.front = q.front + q.capa ∧ q.expand.capa = 2 * q.capa ∧ q.expand.count = q.count := by
        simp only [IBQueue.expand,ne_eq,hz,not_false_eq_true,↓reduceIte,and_self]
      obtain ⟨hfront,hcapa,hcount⟩ := hexpand
      intro j hj a ha
      rw [hcount] at hj
      rw [hfront,hcapa] at ha
      refine h.obj j hj a ?_
      rcases Nat.lt_or_ge (q.front + j) q.capa with hlt | hge
      · rw [Nat.mod_eq_of_lt (by omega)] at ha
        rw [Nat.mod_eq_of_lt hlt]
        exact objAt_relocated h.wf hz hlt ha
      · have hwrap : (q.front + q.capa + j) % (2 * q.capa) = q.front + j - q.capa := by
          rw [Nat.mod_eq_sub_mod (by omega),Nat.mod_eq_of_lt (by omega)]
          omega
        rw [hwrap,objAt_kept h.wf hz (by omega)] at ha
        rw [Nat.mod_eq_sub_mod hge,Nat.mod_eq_of_lt (by omega)]
        exact ha

theorem enqueue (h : q.Queues es) (obj : α) (deleter : Option δ) : (q.enqueue obj deleter).Queues (es ++ [obj]) := by
  have hw := enqueue_wf h.wf obj deleter
  unfold IBQueue.enqueue at hw ⊢
  by_cases hf : q.count = q.capa
  · simp only [hf,↓reduceIte] at hw ⊢
    exact (h.expand hf).push (expand_wf h.wf hf).2 obj deleter hw
  · simp only [hf,↓reduceIte] at hw ⊢
    exact h.push (lt_of_le_of_ne h.wf.count_le hf) obj deleter hw

theorem dequeue_nil (h : q.Queues []) : q.dequeue = (none,q) := if_pos h.count

/-- What is taken out is the first object, unless its pointer is indeterminate. -/
theorem dequeue_cons (h : q.Queues (e :: es)) :
    (q.dequeue.1 = some none ∨ q.dequeue.1 = some (some e)) ∧ q.dequeue.2.Queues es := by
  have hw := dequeue_wf h.wf
  have hcount : q.count = es.length + 1 := h.count
  have hf := h.wf.front_lt
  rw [IBQueue.dequeue,if_neg (by omega)] at hw ⊢
  refine ⟨?_,hw,?_,fun j hj a ha => ?_⟩
  · cases ho : objAt q.entries q.front with
    | none => exact Or.inl rfl
    | some a =>
      have hfirst := h.obj 0 (by omega) a (by rw [Nat.add_zero,Nat.mod_eq_of_lt hf]; exact ho)
      exact Or.inr (congrArg some hfirst.symm)
  · exact (congrArg (· - 1) hcount).trans (Nat.add_sub_cancel _ 1)
  · refine h.obj (j + 1) (Nat.lt_of_lt_of_le (Nat.succ_lt_succ hj) (by dsimp only; omega)) a ?_
    rw [← ha]
    dsimp only
    rw [Ring.advance_eq hf,Nat.mod_add_mod]
    congr 2
    omega

/-- A ring without indeterminate pointers holds exactly these objects. -/
theorem contents (h : q.Queues es) (hd : q.Determinate) : q.contents.map Prod.fst = es := by
  have hs := slots_of_determinate hd
  have hcount : q.contents.length = q.count := by
    rw [← Ring.window_length (entryAt q.entries) q.capa q.front q.count,← List.length_map some,← hs]
    rfl
  refine List.ext_getElem? fun j => ?_
  by_cases hj : j < q.count
  · obtain ⟨e,he⟩ : ∃ e, q.contents[j]? = some e := ⟨_,List.getElem?_eq_getElem (hcount ▸ hj)⟩
    have hslot : q.slots[j]? = some (some e) := by rw [hs,List.getElem?_map,he]; rfl
    have hentry : entryAt q.entries ((q.front + j) % q.capa) = some e := by
      simpa [slots,Ring.window,hj] using hslot
    have hobj : objAt q.entries ((q.front + j) % q.capa) = some e.1 := by
      unfold entryAt at hentry
      split at hentry
      · next ha _ => rw [ha,← Option.some.inj hentry]
      · cases hentry
    rw [List.getElem?_map,he,h.obj j hj e.1 hobj]
    rfl
  · rw [List.getElem?_eq_none (by rw [List.length_map]; omega),List.getElem?_eq_none (by rw [← h.count]; omega)]

end Queues

end LibIrcBot.IBQueue
