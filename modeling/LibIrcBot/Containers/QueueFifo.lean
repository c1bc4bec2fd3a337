import LibIrcBot.Containers.Queue
import Mathlib.Data.List.Induction

/-! # The ring against a first-in first-out list

A run of enqueue and dequeue calls is compared with the same run on a list. The two
agree in contents, results and destruction as long as no expansion has to relocate the
wrapped part of the ring; such an expansion leaves an indeterminate slot behind.
-/
namespace LibIrcBot.IBQueue
open ObjectMemory
variable {α δ : Type*}

/-- The layout that every call keeps, with or without relocation. -/
structure Wf (q : IBQueue α δ) : Prop where
  capa_pos : 0 < q.capa
  count_le : q.count ≤ q.capa
  front_lt : q.front < q.capa
  back_eq : q.back = (q.front + q.count) % q.capa
  bytes : q.entries.length = q.capa * entrySize

theorem Wf.back_lt {q : IBQueue α δ} (h : q.Wf) : q.back < q.capa := by
  rw [h.back_eq]
  exact Nat.mod_lt _ h.capa_pos

theorem create_wf : (create : IBQueue α δ).Wf := by
  constructor <;> simp [create,QUEUEINITIALCAPA]

theorem objWrite_length {m : Memory (QueuePtr α δ)} {i : ℕ} (h : i * 16 + 16 ≤ m.length) (obj : α) :
    (store m (i * 16) (encode 8 (.obj obj))).length = m.length :=
  store_length (by rw [encode_length]; omega)

theorem writeEntry_length {m : Memory (QueuePtr α δ)} {i : ℕ} (h : i * entrySize + entrySize ≤ m.length)
    (obj : α) (deleter : Option δ) : (writeEntry m i obj deleter).length = m.length := by
  simp only [writeEntry,entrySize,ptrSize] at h ⊢
  have hs := objWrite_length h obj (δ := δ)
  rw [store_length (by rw [encode_length,hs]; omega),hs]

/-- A full ring whose front is slot zero grows in place, any other one by relocation. -/
theorem expand_wf {q : IBQueue α δ} (h : q.Wf) (hf : q.count = q.capa) :
    q.expand.Wf ∧ q.expand.count < q.expand.capa := by
  have hp := h.capa_pos
  have hfl := h.front_lt
  have hback := h.back_eq
  have hr : (realloc q.entries (2 * q.capa * entrySize)).length = 2 * q.capa * entrySize :=
    realloc_length (by rw [h.bytes]; simp only [entrySize]; omega)
  unfold expand
  by_cases hz : q.front = 0
  · simp only [hz,ne_eq,not_true_eq_false,↓reduceIte]
    refine ⟨⟨by dsimp only; omega,by dsimp only; omega,by dsimp only; omega,?_,hr⟩,by omega⟩
    dsimp only
    rw [Nat.zero_add,hf,Nat.mod_eq_of_lt (by omega)]
  · simp only [ne_eq,hz,not_false_eq_true,↓reduceIte]
    refine ⟨⟨by dsimp only; omega,by dsimp only; omega,by dsimp only; omega,?_,?_⟩,by omega⟩
    · dsimp only
      rw [hback,hf,Nat.add_mod_right,Nat.mod_eq_of_lt hfl,
        show q.front + q.capa + q.capa = q.front + 2 * q.capa by omega,Nat.add_mod_right,
        Nat.mod_eq_of_lt (by omega)]
    · simp only [entrySize] at hr
      simp only [memcpy,entrySize]
      rw [store_length,hr]
      rw [List.length_take,List.length_drop,hr]
      omega

theorem enqueue_wf {q : IBQueue α δ} (h : q.Wf) (obj : α) (deleter : Option δ) :
    (q.enqueue obj deleter).Wf := by
  have hq : ∀ r : IBQueue α δ, r.Wf → r.count < r.capa →
      ({ r with entries := writeEntry r.entries r.back obj deleter, back := Ring.advance r.capa r.back,
                count := r.count + 1 } : IBQueue α δ).Wf := by
    intro r hr hc
    refine ⟨hr.capa_pos,by dsimp only; omega,hr.front_lt,?_,?_⟩
    · dsimp only
      rw [Ring.advance_eq hr.back_lt,hr.back_eq,Nat.mod_add_mod,Nat.add_assoc]
    · dsimp only
      have hb := hr.back_lt
      rw [writeEntry_length,hr.bytes]
      rw [hr.bytes]
      simp only [entrySize]
      omega
  unfold enqueue
  by_cases hf : q.count = q.capa
  · simp only [hf,↓reduceIte]
    exact hq _ (expand_wf h hf).1 (expand_wf h hf).2
  · simp only [hf,↓reduceIte]
    exact hq _ h (lt_of_le_of_ne h.count_le hf)

section Contents
variable [DecidableEq α] [DecidableEq δ]

theorem dequeue_wf {q : IBQueue α δ} (h : q.Wf) : q.dequeue.2.Wf := by
  unfold dequeue
  split
  · exact h
  · next hc =>
    have hle := h.count_le
    refine ⟨h.capa_pos,by dsimp only; omega,Ring.advance_lt h.front_lt,?_,h.bytes⟩
    dsimp only
    rw [h.back_eq,Ring.advance_eq h.front_lt,Nat.mod_add_mod]
    congr 1
    omega

theorem entryAt_writeEntry_self {m : Memory (QueuePtr α δ)} {i : ℕ}
    (h : i * entrySize + entrySize ≤ m.length) (obj : α) (deleter : Option δ) :
    entryAt (writeEntry m i obj deleter) i = some (obj,deleter) := by
  simp only [entrySize] at h
  have hs := objWrite_length h obj (δ := δ)
  have ho : objAt (writeEntry m i obj deleter) i = some obj := by
    simp only [objAt,writeEntry,entrySize,ptrSize]
    rw [load_store_of_disjoint (by rw [encode_length,hs]; omega) (by omega),
      load_store_self (by omega) (by omega)]
  have hd : deleterAt (writeEntry m i obj deleter) i = some deleter := by
    simp only [deleterAt,writeEntry,entrySize,ptrSize]
    rw [load_store_self (by omega) (by omega)]
  simp only [entryAt,ho,hd]

theorem entryAt_writeEntry_ne {m : Memory (QueuePtr α δ)} {i j : ℕ}
    (h : i * entrySize + entrySize ≤ m.length) (hij : j ≠ i) (obj : α) (deleter : Option δ) :
    entryAt (writeEntry m i obj deleter) j = entryAt m j := by
  simp only [entrySize] at h
  have hs := objWrite_length h obj (δ := δ)
  have hl : ∀ a, a + 8 ≤ i * 16 ∨ i * 16 + 16 ≤ a →
      load 8 (writeEntry m i obj deleter) a = load 8 m a := by
    intro a ha
    simp only [writeEntry,entrySize,ptrSize]
    rw [load_store_of_disjoint (by rw [encode_length,hs]; omega) (by rw [encode_length]; omega),
      load_store_of_disjoint (by rw [encode_length]; omega) (by rw [encode_length]; omega)]
  simp only [entryAt,objAt,deleterAt,entrySize,ptrSize]
  rw [hl _ (by omega),hl _ (by omega)]

theorem entryAt_realloc {m : Memory (QueuePtr α δ)} {i size : ℕ} (hs : m.length ≤ size)
    (h : i * entrySize + entrySize ≤ m.length) : entryAt (realloc m size) i = entryAt m i := by
  simp only [entrySize] at h
  simp only [entryAt,objAt,deleterAt,entrySize,ptrSize]
  rw [load_realloc hs (by omega),load_realloc hs (by omega)]

/-- An expansion at front zero changes no entry. -/
theorem expand_slots {q : IBQueue α δ} (h : q.Wf) (hz : q.front = 0) : q.expand.slots = q.slots := by
  have hc := h.count_le
  have hs : q.entries.length ≤ 2 * q.capa * entrySize := by
    rw [h.bytes]
    simp only [entrySize]
    omega
  simp only [slots,expand,hz,ne_eq,not_true_eq_false,↓reduceIte]
  rw [Ring.window_grow hc (by omega)]
  apply Ring.window_congr
  intro j hj
  rw [Nat.zero_add,Nat.mod_eq_of_lt (by omega)]
  apply entryAt_realloc hs
  rw [h.bytes]
  simp only [entrySize]
  omega

/-- An expansion at any other front leaves the last relocated slot indeterminate: its
object pointer lies behind the `capa - front` bytes that were copied. -/
theorem expand_indeterminate {q : IBQueue α δ} (h : q.Wf) (hz : q.front ≠ 0) :
    objAt q.expand.entries (2 * q.capa - 1) = none := by
  have hfl := h.front_lt
  have hs : q.entries.length ≤ 2 * q.capa * entrySize := by
    rw [h.bytes]
    simp only [entrySize]
    omega
  have hr := realloc_length hs
  have hb := h.bytes
  simp only [entrySize] at hs hr hb
  have hl : load ptrSize q.expand.entries ((2 * q.capa - 1) * entrySize) = none := by
    -- The last byte of the pointer: the first one is copied when a single slot moves.
    apply load_eq_none (i := 7) (by simp [ptrSize])
    simp only [expand,ne_eq,hz,not_false_eq_true,↓reduceIte,memcpy,entrySize]
    rw [getElem?_store_of_disjoint,realloc_eq hs,List.getElem?_append_right (by omega),
      List.getElem?_replicate,if_pos (by omega)]
    · simp only [List.length_take,List.length_drop,hr]
      omega
    · right
      simp only [List.length_take,List.length_drop,hr]
      omega
  rw [objAt,hl]

theorem enqueue_slots {q : IBQueue α δ} (h : q.Wf) (hz : q.count = q.capa → q.front = 0)
    (obj : α) (deleter : Option δ) : (q.enqueue obj deleter).slots = q.slots ++ [some (obj,deleter)] := by
  have hq : ∀ r : IBQueue α δ, r.Wf → r.count < r.capa →
      ({ r with entries := writeEntry r.entries r.back obj deleter, back := Ring.advance r.capa r.back,
                count := r.count + 1 } : IBQueue α δ).slots = r.slots ++ [some (obj,deleter)] := by
    intro r hr hc
    have hb := hr.back_lt
    have hroom : r.back * entrySize + entrySize ≤ r.entries.length := by
      rw [hr.bytes]
      simp only [entrySize]
      omega
    apply Ring.window_push hc
    · dsimp only
      rw [← hr.back_eq]
      exact entryAt_writeEntry_self hroom obj deleter
    · intro i _ hi
      rw [← hr.back_eq] at hi
      exact entryAt_writeEntry_ne hroom hi obj deleter
  unfold enqueue
  by_cases hf : q.count = q.capa
  · simp only [hf,↓reduceIte]
    rw [hq _ (expand_wf h hf).1 (expand_wf h hf).2,expand_slots h (hz hf)]
  · simp only [hf,↓reduceIte]
    exact hq _ h (lt_of_le_of_ne h.count_le hf)

theorem dequeue_slots {q : IBQueue α δ} (h : q.Wf) {e : α × Option δ} {es : List (α × Option δ)}
    (hs : q.slots = (e :: es).map some) :
    q.dequeue.1 = some (some e.1) ∧ q.dequeue.2.slots = es.map some := by
  have hc : q.count = es.length + 1 := by
    rw [← Ring.window_length (entryAt q.entries) q.capa q.front q.count]
    exact (congrArg List.length hs).trans (by simp)
  have hw := Ring.window_succ (entryAt q.entries) es.length h.front_lt
  rw [← hc] at hw
  rw [slots,hw,List.map_cons] at hs
  obtain ⟨he,hs⟩ := List.cons.inj hs
  have ho : objAt q.entries q.front = some e.1 := by
    unfold entryAt at he
    split at he
    · next ha _ => rw [ha,← Option.some.inj he]
    · cases he
  simp only [dequeue,hc,Nat.add_eq_zero_iff,one_ne_zero,and_false,↓reduceIte,ho,slots,
    Nat.add_sub_cancel,hs,and_self]

theorem dequeue_of_empty {q : IBQueue α δ} (h : q.slots = []) : q.dequeue = (none,q) := by
  have hc : q.count = 0 := by
    rw [← Ring.window_length (entryAt q.entries) q.capa q.front q.count]
    exact congrArg List.length h
  simp [dequeue,hc]

def deleterCall (e : α × Option δ) : Option (Option (δ × α)) := e.2.map (fun d => some (d,e.1))

theorem destroyEntry_of_entryAt {m : Memory (QueuePtr α δ)} {i : ℕ} {e : α × Option δ}
    (h : entryAt m i = some e) : destroyEntry m i = (deleterCall e).toList := by
  unfold entryAt at h
  split at h
  · next a d ha hd =>
    cases h
    cases d <;> simp [destroyEntry,deleterCall,ha,hd]
  · cases h

theorem destroyFrom_eq {q : IBQueue α δ} {es : List (α × Option δ)} {pos : ℕ} (hp : pos < q.capa)
    (hs : Ring.window (entryAt q.entries) q.capa pos es.length = es.map some) :
    q.destroyFrom es.length pos = es.filterMap deleterCall := by
  induction es generalizing pos with
  | nil => rfl
  | cons e es ih =>
    rw [List.length_cons,Ring.window_succ (entryAt q.entries) es.length hp,List.map_cons] at hs
    obtain ⟨he,hs⟩ := List.cons.inj hs
    rw [List.length_cons,destroyFrom,destroyEntry_of_entryAt he,ih (Ring.advance_lt hp) hs,
      List.filterMap_cons]
    cases deleterCall e <;> rfl

theorem destroy_slots {q : IBQueue α δ} (h : q.Wf) {es : List (α × Option δ)}
    (hs : q.slots = es.map some) : q.destroy = es.filterMap deleterCall := by
  have hc : q.count = es.length := by
    rw [← Ring.window_length (entryAt q.entries) q.capa q.front q.count]
    exact (congrArg List.length hs).trans (by simp)
  rw [destroy,hc]
  apply destroyFrom_eq h.front_lt
  rw [← hc]
  exact hs

theorem determinate_of_slots {q : IBQueue α δ} {es : List (α × Option δ)} (hs : q.slots = es.map some) :
    q.Determinate := by simp [Determinate,hs]

theorem slots_of_determinate {q : IBQueue α δ} (h : q.Determinate) : q.slots = q.contents.map some := by
  have hmap : ∀ l : List (Option (α × Option δ)), none ∉ l → l = l.reduceOption.map some := by
    intro l hl
    induction l with
    | nil => rfl
    | cons e l ih =>
      cases e with
      | none => exact absurd List.mem_cons_self hl
      | some e =>
        rw [List.reduceOption_cons_of_some,List.map_cons,← ih fun hm => hl (List.mem_cons_of_mem _ hm)]
  exact hmap q.slots h

theorem enqueue_determinate {q : IBQueue α δ} (hw : q.Wf) (h : q.Determinate) (hz : q.count = q.capa → q.front = 0)
    (obj : α) (deleter : Option δ) : (q.enqueue obj deleter).Determinate := by
  rw [Determinate,enqueue_slots hw hz,List.mem_append,not_or]
  exact ⟨h,by simp⟩

/-- A ring without indeterminate pointers gives out its first object. -/
theorem dequeue_determinate {q : IBQueue α δ} (hw : q.Wf) (h : q.Determinate) :
    q.dequeue.1 ≠ some none ∧ q.dequeue.2.Determinate := by
  have hs := slots_of_determinate h
  cases hc : q.contents with
  | nil =>
    rw [hc] at hs
    rw [dequeue_of_empty hs]
    exact ⟨nofun,h⟩
  | cons e es =>
    rw [hc] at hs
    obtain ⟨hd,hn⟩ := dequeue_slots hw hs
    rw [hd]
    exact ⟨nofun,determinate_of_slots hn⟩

end Contents

/-- The calls a client makes between creation and destruction. -/
inductive Call (α δ : Type*) where
  | enqueue (obj : α) (deleter : Option δ)
  | dequeue
deriving Repr

/-- The abstract queue: entries in the order they were enqueued. -/
abbrev Fifo (α δ : Type*) := List (α × Option δ)

section Runs
variable [DecidableEq α] [DecidableEq δ]

/-- One call on the ring, with the result of a dequeue appended to the log. -/
def apply : IBQueue α δ × List (Option (Option α)) → Call α δ → IBQueue α δ × List (Option (Option α))
  | (q,log), .enqueue obj deleter => (q.enqueue obj deleter,log)
  | (q,log), .dequeue => (q.dequeue.2,log ++ [q.dequeue.1])

def Fifo.apply : Fifo α δ × List (Option (Option α)) → Call α δ → Fifo α δ × List (Option (Option α))
  | (es,log), .enqueue obj deleter => (es ++ [(obj,deleter)],log)
  | (es,log), .dequeue => (es.tail,log ++ [es.head?.map (fun e => some e.1)])

def run (calls : List (Call α δ)) : IBQueue α δ × List (Option (Option α)) :=
  calls.foldl apply (create,[])

def Fifo.run (calls : List (Call α δ)) : Fifo α δ × List (Option (Option α)) :=
  calls.foldl Fifo.apply ([],[])

/-- The ring and the abstract queue hold the same entries, returned the same results,
and destroying the ring now makes the deleter calls of the entries still queued. -/
structure Agree (s : IBQueue α δ × List (Option (Option α))) (a : Fifo α δ × List (Option (Option α))) :
    Prop where
  contents : s.1.slots = a.1.map some
  results : s.2 = a.2
  destroyed : s.1.destroy = a.1.filterMap deleterCall

/-- The next call makes `expand` relocate the wrapped part of the ring. -/
def Relocates (q : IBQueue α δ) : Call α δ → Prop
  | .enqueue _ _ => q.count = q.capa ∧ q.front ≠ 0
  | .dequeue => False

theorem run_concat (calls : List (Call α δ)) (c : Call α δ) : run (calls ++ [c]) = apply (run calls) c := by
  simp [run]

omit [DecidableEq α] [DecidableEq δ] in
theorem Fifo.run_concat (calls : List (Call α δ)) (c : Call α δ) :
    Fifo.run (calls ++ [c]) = Fifo.apply (Fifo.run calls) c := by
  simp [Fifo.run]

theorem run_wf (calls : List (Call α δ)) : (run calls).1.Wf := by
  induction calls using List.reverseRecOn with
  | nil => exact create_wf
  | append_singleton calls c ih =>
    rw [run_concat]
    cases c with
    | enqueue obj deleter => exact enqueue_wf ih obj deleter
    | dequeue => exact dequeue_wf ih

theorem agree_step {s : IBQueue α δ × List (Option (Option α))} {a : Fifo α δ × List (Option (Option α))}
    (hw : s.1.Wf) (h : Agree s a) {c : Call α δ} (hc : ¬ Relocates s.1 c) :
    Agree (apply s c) (Fifo.apply a c) := by
  obtain ⟨q,log⟩ := s
  obtain ⟨es,alog⟩ := a
  obtain ⟨hs,hl,_⟩ := h
  dsimp only at hs hl hw
  cases c with
  | enqueue obj deleter =>
    have hz : q.count = q.capa → q.front = 0 := by
      intro hf
      by_contra hz
      exact hc ⟨hf,hz⟩
    have hn : (q.enqueue obj deleter).slots = (es ++ [(obj,deleter)]).map some := by
      rw [enqueue_slots hw hz,hs,List.map_append,List.map_singleton]
    exact ⟨hn,hl,destroy_slots (enqueue_wf hw obj deleter) hn⟩
  | dequeue =>
    cases es with
    | nil =>
      have hd := dequeue_of_empty (hs.trans List.map_nil)
      refine ⟨?_,?_,?_⟩
      · simpa only [apply,hd,Fifo.apply,List.tail_nil] using hs
      · simp only [apply,hd,Fifo.apply,List.head?_nil,Option.map_none,hl]
      · simpa only [apply,hd,Fifo.apply,List.tail_nil] using destroy_slots hw hs
    | cons e es =>
      obtain ⟨hd,hn⟩ := dequeue_slots hw hs
      refine ⟨hn,?_,destroy_slots (dequeue_wf hw) hn⟩
      simp only [apply,hd,Fifo.apply,List.head?_cons,Option.map_some,hl]

/-- A relocating expansion is visible at once: the ring holds an indeterminate entry. -/
theorem not_agree_of_relocates {s : IBQueue α δ × List (Option (Option α))} (hw : s.1.Wf) {c : Call α δ}
    (hc : Relocates s.1 c) (a : Fifo α δ × List (Option (Option α))) : ¬ Agree (apply s c) a := by
  obtain ⟨q,log⟩ := s
  cases c with
  | dequeue => exact hc.elim
  | enqueue obj deleter =>
    obtain ⟨hf,hz⟩ := hc
    dsimp only at hf hz hw
    have he := (expand_wf hw hf).1
    have hfl := hw.front_lt
    intro h
    have hslots : (q.enqueue obj deleter).slots = a.1.map some := h.contents
    -- The indeterminate slot is the last one before the ring wraps.
    have hback : q.expand.back = q.front := by
      simp only [expand,ne_eq,hz,not_false_eq_true,↓reduceIte]
      rw [hw.back_eq,hf,Nat.add_mod_right,Nat.mod_eq_of_lt hfl]
    have hcapa : q.expand.capa = 2 * q.capa := by
      simp [expand,hz]
    have hlast : entryAt (q.enqueue obj deleter).entries (2 * q.capa - 1) = none := by
      simp only [enqueue,hf,↓reduceIte]
      rw [entryAt_writeEntry_ne]
      · simp only [entryAt,expand_indeterminate hw hz]
      · rw [he.bytes,hcapa,hback]
        simp only [entrySize]
        omega
      · omega
    have hmem : none ∈ (q.enqueue obj deleter).slots := by
      apply List.mem_map.mpr
      refine ⟨q.capa - 1 - q.front,?_,?_⟩
      · simp only [enqueue,hf,↓reduceIte,expand,ne_eq,hz,not_false_eq_true,List.mem_range]
        omega
      · rw [← hlast]
        congr 1
        simp only [enqueue,hf,↓reduceIte,expand,ne_eq,hz,not_false_eq_true]
        rw [Nat.mod_eq_of_lt] <;> omega
    rw [hslots] at hmem
    simp at hmem

/-- Every prefix of the run agrees with the list exactly if no call relocates. -/
theorem run_agrees_iff (calls : List (Call α δ)) :
    (∀ pre, pre <+: calls → Agree (run pre) (Fifo.run pre)) ↔
      ∀ pre c, pre ++ [c] <+: calls → ¬ Relocates (run pre).1 c := by
  constructor
  · intro h pre c hp hr
    have ha := h _ hp
    rw [run_concat] at ha
    exact not_agree_of_relocates (run_wf pre) hr _ ha
  · intro h pre hp
    induction pre using List.reverseRecOn with
    | nil => exact ⟨rfl,rfl,rfl⟩
    | append_singleton pre c ih =>
      rw [run_concat,Fifo.run_concat]
      exact agree_step (run_wf pre) (ih ((List.prefix_append pre [c]).trans hp)) (h pre c hp)

/-- Eight entries, one of them taken and replaced: the next expansion starts at front one. -/
def wrappedCalls : List (Call ℕ Unit) :=
  (List.range 8).map (fun i => .enqueue i (some ())) ++
    [.dequeue,.enqueue 8 (some ()),.enqueue 9 (some ()),.dequeue]

/-- The second dequeue returns an indeterminate pointer instead of the second object. -/
theorem wrappedCalls_disagree :
    (run wrappedCalls).2 = [some (some 0),some none] ∧
    (Fifo.run wrappedCalls).2 = [some (some 0),some (some 1)] ∧
    ¬ ∀ calls : List (Call ℕ Unit), ∀ pre, pre <+: calls → Agree (run pre) (Fifo.run pre) := by
  have hr : (run wrappedCalls).2 = [some (some 0),some none] := by decide +kernel
  have hf : (Fifo.run wrappedCalls).2 = [some (some 0),some (some 1)] := by decide
  refine ⟨hr,hf,?_⟩
  intro h
  have ha := (h wrappedCalls wrappedCalls (List.prefix_refl _)).results
  rw [hr,hf] at ha
  simp at ha

end Runs
end LibIrcBot.IBQueue
