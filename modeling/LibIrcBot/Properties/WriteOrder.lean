import LibIrcBot.System.WriteRing
import LibIrcBot.System.Sending
import LibIrcBot.Events.Dispatch

/-! # The order of writes

The records that are accepted leave the ring in the same order, each when its last byte is
written or when the connection is destroyed; until then their bytes reach the wire one after
the other.
-/
namespace LibIrcBot.WriteRing
open Outcome

variable {s : WriteRing} {c : Connection} {retired pending rest : List WriteRecord} {r : WriteRecord} {pos : ℕ}

def stream (l : List WriteRecord) : Bytes := (l.map WriteRecord.bytes).flatten

def confirmed (l : List WriteRecord) : List Buffer := (l.filter WriteRecord.id).map WriteRecord.wrbuf

def progress (pos : ℕ) (l : List WriteRecord) : List WriteRecord := l.modifyHead fun r => { r with wrbufpos := pos }

@[simp] theorem stream_nil : stream [] = [] := rfl

@[simp] theorem stream_append (l k : List WriteRecord) : stream (l ++ k) = stream l ++ stream k := by simp [stream]

@[simp] theorem stream_cons (r : WriteRecord) (l : List WriteRecord) : stream (r :: l) = r.bytes ++ stream l := rfl

@[simp] theorem confirmed_append (l k : List WriteRecord) : confirmed (l ++ k) = confirmed l ++ confirmed k := by
  simp [confirmed]

theorem confirmed_singleton (r : WriteRecord) : confirmed [r] = if r.id then [r.wrbuf] else [] := by
  cases hid : r.id <;> simp [confirmed,hid]

/-- A record as `Connection_write` makes it. -/
structure New (r : WriteRecord) : Prop where
  len : r.wrbuflen = r.bytes.length
  pos : r.wrbufpos = 0

structure Queued (c : Connection) (pending : List WriteRecord) (pos : ℕ) : Prop where
  base : c.baserecidx < NWRITERECS
  nrecs : c.nrecs = pending.length
  room : pending.length ≤ NWRITERECS
  window : Ring.window c.writerecs NWRITERECS c.baserecidx c.nrecs = progress pos pending

namespace Queued

/-- The record at the base. -/
theorem first (h : Queued c (r :: rest) pos) : c.writerecs c.baserecidx = { r with wrbufpos := pos } ∧
    Ring.window c.writerecs NWRITERECS (Ring.advance NWRITERECS c.baserecidx) rest.length = rest := by
  have hw := h.window
  rw [h.nrecs,List.length_cons,Ring.window_succ _ _ h.base] at hw
  exact List.cons.inj hw

theorem add (h : Queued c pending pos) (hroom : pending.length < NWRITERECS) (hpos : pending = [] → pos = 0)
    (buf : Buffer) (id : Bool) :
    Queued (Connection.addRecord buf id c) (pending ++ [⟨buf,id,buf.text.length % 2 ^ 16,0⟩]) pos := by
  refine ⟨h.base,?_,?_,?_⟩
  · simp [Connection.addRecord,h.nrecs]
  · rw [List.length_append]
    exact hroom
  · have hpush : Ring.window (Connection.addRecord buf id c).writerecs NWRITERECS c.baserecidx (c.nrecs + 1) =
        Ring.window c.writerecs NWRITERECS c.baserecidx c.nrecs ++ [⟨buf,id,buf.text.length % 2 ^ 16,0⟩] :=
      Ring.window_push (h.nrecs ▸ hroom) (Function.update_self ..) (fun i _ hne => Function.update_of_ne hne _ _)
    change Ring.window (Connection.addRecord buf id c).writerecs NWRITERECS c.baserecidx (c.nrecs + 1) = _
    rw [hpush,h.window]
    cases pending with
    | nil =>
      rw [hpos rfl]
      rfl
    | cons r rest => rfl

theorem drop (h : Queued c (r :: rest) pos) (hnew : ∀ k ∈ rest, k.wrbufpos = 0) :
    Queued (Connection.dropRecord c) rest 0 := by
  have hn := h.nrecs
  have hr := h.room
  have hcount : (c.nrecs + 255) % 256 = rest.length := by
    rw [List.length_cons] at hn hr
    have hsmall : NWRITERECS = 16 := rfl
    omega
  refine ⟨Ring.advance_lt h.base,hcount,(Nat.le_succ _).trans h.room,?_⟩
  change Ring.window c.writerecs NWRITERECS (Ring.advance NWRITERECS c.baserecidx) ((c.nrecs + 255) % 256) = _
  rw [hcount,h.first.2]
  cases rest with
  | nil => rfl
  | cons k rest =>
    have hk := hnew k List.mem_cons_self
    cases k
    cases hk
    rfl

/-- The first record is written further. -/
theorem advance (h : Queued c (r :: rest) pos) (pos' : ℕ) :
    Queued { c with writerecs := Function.update c.writerecs c.baserecidx { r with wrbufpos := pos' } } (r :: rest) pos' := by
  refine ⟨h.base,h.nrecs,h.room,?_⟩
  have hn : c.nrecs = rest.length + 1 := h.nrecs
  have hr : rest.length + 1 ≤ NWRITERECS := h.room
  dsimp only
  rw [hn,Ring.window_succ _ _ h.base,Function.update_self]
  refine congrArg (_ :: ·) (Eq.trans ?_ h.first.2)
  refine Ring.window_congr fun j hj => Function.update_of_ne ?_ _ _
  -- The slots behind the first one.
  have hslot : (c.baserecidx + 0) % NWRITERECS ≠ (c.baserecidx + (j + 1)) % NWRITERECS :=
    Ring.slot_ne (Nat.succ_pos j) (Nat.lt_of_lt_of_le (Nat.succ_lt_succ hj) hr)
  rw [Nat.add_zero,Nat.mod_eq_of_lt h.base] at hslot
  rw [Ring.advance_eq h.base,Nat.mod_add_mod,Nat.add_right_comm]
  exact fun he => hslot he.symm

end Queued

/-- Some records have left the ring, and the others are in it. -/
structure Holds (s : WriteRing) (retired pending : List WriteRecord) (pos : ℕ) : Prop where
  alive : s.destroyed = false
  accepted : s.accepted = retired ++ pending
  new : ∀ r ∈ s.accepted, New r
  queued : Queued s.conn pending pos
  idle : pending = [] → pos = 0
  /-- The first record is not written completely, unless it is empty. -/
  short : ∀ r ∈ pending.head?, pos ≤ r.bytes.length ∧ (r.bytes ≠ [] → pos < r.bytes.length)
  wire : s.wire = stream retired ++ (stream pending).take pos
  raised : s.raised = confirmed retired

theorem new_record (buf : Buffer) (id : Bool) : New ⟨buf,id,buf.text.length % 2 ^ 16,0⟩ := by
  refine ⟨?_,rfl⟩
  have hle := Nat.mod_le buf.text.length (2 ^ 16)
  simp only [WriteRecord.bytes,List.length_take]
  omega

theorem short_zero (pending : List WriteRecord) : ∀ r ∈ pending.head?, 0 ≤ r.bytes.length ∧ (r.bytes ≠ [] → 0 < r.bytes.length) :=
  fun _ _ => ⟨Nat.zero_le _,List.length_pos_iff.mpr⟩

namespace Holds

theorem write (h : Holds s retired pending pos) (buf : Buffer) (id : Bool) :
    ∃ pending', Holds (s.write buf id).2 retired pending' pos := by
  unfold WriteRing.write
  split
  · exact ⟨pending,h⟩
  · next hne =>
    have hroom : pending.length < NWRITERECS := Nat.lt_of_le_of_ne h.queued.room (h.queued.nrecs ▸ hne)
    refine ⟨pending ++ [⟨buf,id,buf.text.length % 2 ^ 16,0⟩],?_⟩
    refine ⟨h.alive,?_,fun r hr => ?_,h.queued.add hroom h.idle buf id,fun hnil => absurd hnil (by simp),fun r hr => ?_,?_,h.raised⟩
    · change s.accepted ++ _ = _
      rw [h.accepted,List.append_assoc]
    · rcases List.mem_append.mp hr with hr | hr
      · exact h.new r hr
      · rw [List.mem_singleton.mp hr]
        exact new_record buf id
    · cases pending with
      | nil =>
        rw [h.idle rfl]
        exact short_zero _ r hr
      | cons k rest => exact h.short r hr
    · change s.wire = _
      rw [h.wire,stream_append]
      cases pending with
      | nil => simp [h.idle rfl]
      | cons k rest =>
        have hle : pos ≤ (stream (k :: rest)).length := by
          rw [stream_cons,List.length_append]
          exact Nat.le_add_right_of_le (h.short k rfl).1
        rw [List.take_append_of_le_length hle]

theorem writes (h : Holds s retired pending pos) (calls : List (Buffer × Bool)) :
    ∃ pending', Holds (s.writes calls) retired pending' pos := by
  refine List.foldlRecOn (motive := fun s => ∃ pending', Holds s retired pending' pos) calls _ ⟨pending,h⟩ ?_
  rintro s ⟨pending',hs⟩ call _
  exact hs.write call.1 call.2

theorem base_eq (h : Holds s retired (r :: rest) pos) : s.base = { r with wrbufpos := pos } := h.queued.first.1

theorem new_mem (h : Holds s retired (r :: rest) pos) {k : WriteRecord} (hk : k ∈ r :: rest) : New k :=
  h.new k (h.accepted ▸ List.mem_append_right _ hk)

/-- A write that leaves some bytes of the first record. -/
theorem part (h : Holds s retired (r :: rest) pos) {n : ℕ} (hn : n < r.wrbuflen - pos) (calls : List (Buffer × Bool)) :
    Holds (s.sent n calls) retired (r :: rest) (pos + n) := by
  have hlen := (h.new_mem List.mem_cons_self).len
  have hle : pos + n < r.bytes.length := by omega
  unfold sent
  simp only [h.base_eq,if_pos hn]
  refine ⟨h.alive,h.accepted,h.new,h.queued.advance (pos + n),nofun,fun k hk => ?_,?_,h.raised⟩
  · cases hk
    exact ⟨hle.le,fun _ => hle⟩
  · change s.wire ++ (r.bytes.drop pos).take n = _
    rw [h.wire,stream_cons,List.take_append_of_le_length (Nat.le_of_add_right_le hle.le),List.append_assoc,
      List.take_append_of_le_length hle.le,List.take_add]

/-- A write that finishes the first record. -/
theorem whole (h : Holds s retired (r :: rest) pos) (calls : List (Buffer × Bool)) :
    ∃ pending', Holds (s.sent (r.wrbuflen - pos) calls) (retired ++ [r]) pending' 0 := by
  have hlen := (h.new_mem List.mem_cons_self).len
  have hle := (h.short r rfl).1
  have hdone : ∀ s' : WriteRing, s'.destroyed = s.destroyed → s'.accepted = s.accepted → 
      s'.conn = Connection.dropRecord s.conn → s'.wire = s.wire ++ r.bytes.drop pos →
      s'.raised = s.raised ++ confirmed [r] → Holds s' (retired ++ [r]) rest 0 := by
    intro s' hdestroyed haccepted hconn hwire hraised
    refine ⟨hdestroyed.trans h.alive,?_,?_,?_,fun _ => rfl,short_zero rest,?_,?_⟩
    · rw [haccepted,h.accepted,List.append_assoc]
      rfl
    · rw [haccepted]
      exact h.new
    · rw [hconn]
      exact h.queued.drop fun k hk => (h.new_mem (List.mem_cons_of_mem r hk)).pos
    · rw [hwire,h.wire,stream_cons,List.take_append_of_le_length hle,List.append_assoc,List.take_append_drop]
      simp
    · rw [hraised,h.raised,confirmed_append]
  have hall : (r.bytes.drop pos).take (r.wrbuflen - pos) = r.bytes.drop pos := by
    refine List.take_of_length_le ?_
    rw [List.length_drop]
    omega
  have hsent : s.sent (r.wrbuflen - pos) calls = if r.id then
      WriteRing.writes { s with
        conn := Connection.dropRecord s.conn, wire := s.wire ++ r.bytes.drop pos, raised := s.raised ++ [r.wrbuf] } calls
      else { s with conn := Connection.dropRecord s.conn, wire := s.wire ++ r.bytes.drop pos } := by
    have hbytes : ({ r with wrbufpos := pos } : WriteRecord).bytes = r.bytes := rfl
    unfold sent confirm
    simp only [h.base_eq,Nat.lt_irrefl,if_false,hbytes,hall]
    cases r.id <;> rfl
  rw [hsent]
  split
  · next hid =>
    refine Holds.writes (?_ : Holds _ (retired ++ [r]) rest _) calls
    apply hdone <;> simp [confirmed_singleton,hid]
  · next hid =>
    refine ⟨rest,?_⟩
    apply hdone <;> simp [confirmed_singleton,hid]

theorem initial (h : s.Initial) : Holds s [] [] 0 := by
  refine ⟨h.destroyed,h.accepted,fun r hr => ?_,⟨?_,h.nrecs,Nat.zero_le _,?_⟩,fun _ => rfl,nofun,h.wire,h.raised⟩
  · simp [h.accepted] at hr
  · rw [h.baserecidx]
    decide
  · rw [h.nrecs]
    rfl

/-- The ring does not see that the descriptor is closed or connected. -/
theorem setConn (h : Holds s retired pending pos) {conn : Connection} (hrecs : conn.writerecs = s.conn.writerecs)
    (hn : conn.nrecs = s.conn.nrecs) (hbase : conn.baserecidx = s.conn.baserecidx) :
    Holds { s with conn := conn } retired pending pos := by
  refine { h with queued := ⟨?_,hn.trans h.queued.nrecs,h.queued.room,?_⟩ }
  · exact hbase.symm ▸ h.queued.base
  · change Ring.window conn.writerecs NWRITERECS conn.baserecidx conn.nrecs = _
    rw [hrecs,hn,hbase]
    exact h.queued.window

theorem deleteLater (h : Holds s retired pending pos) : Holds s.deleteLater retired pending pos := by
  unfold WriteRing.deleteLater
  split
  · exact h.setConn rfl rfl rfl
  · exact h

theorem writeConnection (h : Holds s retired pending pos) {sockErr : Bool} {result : WriteResult}
    {calls : List (Buffer × Bool)} (hoffered : Offered (.writeConnection sockErr result calls) s) :
    ∃ retired' pending' pos', Holds (s.writeConnection sockErr result calls) retired' pending' pos' := by
  unfold WriteRing.writeConnection
  split
  · split
    · exact ⟨_,_,_,h.deleteLater⟩
    · exact ⟨_,_,_,h.setConn rfl rfl rfl⟩
  · split
    · exact ⟨_,_,_,h⟩
    · next hne =>
      cases result with
      | sent n =>
        cases pending with
        | nil => exact absurd h.queued.nrecs hne
        | cons r rest =>
          have hle : n ≤ s.base.wrbuflen - s.base.wrbufpos := hoffered
          rw [h.base_eq] at hle
          rcases Nat.lt_or_eq_of_le hle with hlt | rfl
          · exact ⟨_,_,_,h.part hlt calls⟩
          · obtain ⟨pending',hw⟩ := h.whole calls
            exact ⟨_,_,_,hw⟩
      | want st => exact ⟨_,_,_,h⟩
      | failed => exact ⟨_,_,_,h.deleteLater⟩

end Holds

/-- What the loop of `Connection_destroy` leaves. -/
theorem drain_eq (h : Queued s.conn pending pos) (hnew : ∀ r ∈ pending, r.wrbufpos = 0) :
    ∃ conn, drain pending.length s = { s with conn := conn, raised := s.raised ++ confirmed pending } ∧ conn.nrecs = 0 := by
  induction pending generalizing s pos with
  | nil => exact ⟨s.conn,by simp [drain,confirmed],h.nrecs⟩
  | cons r rest ih =>
    have hne : s.conn.nrecs ≠ 0 := h.nrecs ▸ Nat.succ_ne_zero _
    have hbase : s.base = { r with wrbufpos := pos } := h.first.1
    have hrest := h.drop fun k hk => hnew k (List.mem_cons_of_mem r hk)
    have hconfirm : s.confirm s.base = { s with raised := s.raised ++ confirmed [r] } := by
      rw [hbase,confirm,confirmed_singleton]
      cases r.id <;> simp
    obtain ⟨conn,he,hn⟩ := ih (s := { s with conn := Connection.dropRecord s.conn, raised := s.raised ++ confirmed [r] })
      hrest fun k hk => hnew k (List.mem_cons_of_mem r hk)
    refine ⟨conn,?_,hn⟩
    rw [List.length_cons,drain,if_neg hne,hconfirm]
    refine he.trans ?_
    simp only [List.append_assoc]
    rw [← confirmed_append]
    rfl

structure Ended (s : WriteRing) : Prop where
  raised : s.raised = confirmed s.accepted
  wire : s.wire <+: stream s.accepted
  nrecs : s.conn.nrecs = 0

theorem Holds.wire_prefix (h : Holds s retired pending pos) : s.wire <+: stream s.accepted := by
  rw [h.wire,h.accepted,stream_append]
  exact List.prefix_append_right_inj _ |>.mpr (List.take_prefix _ _)

theorem Holds.destroy (h : Holds s retired pending pos) (hd : s.conn.deleteScheduled ≠ 1) :
    s.destroy.destroyed = true ∧ Ended s.destroy := by
  have hnew : ∀ r ∈ pending, r.wrbufpos = 0 := fun r hr => (h.new r (h.accepted ▸ List.mem_append_right _ hr)).pos
  obtain ⟨conn,he,hn⟩ := drain_eq h.queued hnew
  unfold WriteRing.destroy
  rw [if_neg hd,h.queued.nrecs,he]
  refine ⟨rfl,?_,h.wire_prefix,hn⟩
  change s.raised ++ confirmed pending = confirmed s.accepted
  rw [h.raised,h.accepted,confirmed_append]

def Orderly (s : WriteRing) : Prop :=
  if s.destroyed then Ended s else ∃ retired pending pos, Holds s retired pending pos

theorem Holds.orderly (h : Holds s retired pending pos) : Orderly s := by
  unfold Orderly
  rw [h.alive]
  exact ⟨retired,pending,pos,h⟩

theorem Holds.ends (h : Holds s retired pending pos) : Orderly s.destroy := by
  by_cases hd : s.conn.deleteScheduled = 1
  · rw [WriteRing.destroy,if_pos hd]
    exact h.orderly
  · obtain ⟨hdestroyed,hended⟩ := h.destroy hd
    unfold Orderly
    rw [hdestroyed]
    exact hended

theorem Orderly.step {l : Label} (h : Orderly s) (hoffered : Offered l s) : Orderly (step l s) := by
  unfold WriteRing.step
  cases hdest : s.destroyed with
  | true => exact h
  | false =>
    unfold Orderly at h
    rw [hdest] at h
    obtain ⟨retired,pending,pos,h⟩ := h
    cases l with
    | write buf id =>
      obtain ⟨pending',hw⟩ := h.write buf id
      exact hw.orderly
    | writeConnection sockErr result calls =>
      obtain ⟨_,_,_,hw⟩ := h.writeConnection hoffered
      exact hw.orderly
    | close => exact h.deleteLater.orderly
    | destroy => exact h.ends
    | eventsDone =>
      change Orderly (if s.conn.deleteScheduled = 1 then s.deleteConnection else s)
      split
      · have hset : Holds { s with conn := { s.conn with deleteScheduled := 2 } } _ _ _ := h.setConn rfl rfl rfl
        exact hset.ends
      · exact h.orderly

theorem Reached.orderly (h : s.Reached) : Orderly s := by
  refine h.invariant (I := Orderly) (fun t ht => (Holds.initial ht).orderly) ?_
  rintro l s t hs hoffered he
  cases he
  exact hs.step hoffered

/-- What happened to the writes, when `k` records have left the ring. -/
structure Delivered (s : WriteRing) (k : ℕ) : Prop where
  accepted : k ≤ s.accepted.length
  /-- A write is refused if and only if 16 records are pending; then it changes nothing. -/
  refused : ∀ buf id, (s.write buf id).1 = -1 ↔ s.accepted.length = k + 16
  unchanged : ∀ buf id, (s.write buf id).1 = -1 → (s.write buf id).2 = s
  /-- The bytes reach the wire in order. -/
  wire : s.wire <+: stream s.accepted
  /-- `dataSent` is raised once for each of the `k` records that has an id, in order. -/
  raised : s.raised = confirmed (s.accepted.take k)
  /-- Before the end, these are the records whose last byte is on the wire: the next one is empty,
  or a byte of it is missing. -/
  written : s.destroyed = false → stream (s.accepted.take k) <+: s.wire
  next : s.destroyed = false → ∀ r ∈ s.accepted[k]?, r.bytes ≠ [] → s.wire.length < (stream (s.accepted.take (k + 1))).length
  /-- In the end these are all records. -/
  all : s.destroyed = true → k = s.accepted.length

theorem write_refused (s : WriteRing) (buf : Buffer) (id : Bool) :
    ((s.write buf id).1 = -1 ↔ s.conn.nrecs = NWRITERECS) ∧ ((s.write buf id).1 = -1 → (s.write buf id).2 = s) := by
  unfold write
  split
  · next hn => exact ⟨iff_of_true rfl hn,fun _ => rfl⟩
  · next hn =>
    have hne : (0 : ℤ) ≠ -1 := by decide
    exact ⟨iff_of_false hne hn,fun h => absurd h hne⟩

/-- In every run, the records are delivered in order. -/
theorem writes_delivered (h : s.Reached) : ∃ k, Delivered s k := by
  have ho := h.orderly
  unfold Orderly at ho
  split at ho
  · next hdest =>
    refine ⟨s.accepted.length,le_rfl,fun buf id => ?_,fun buf id => (s.write_refused buf id).2,ho.wire,?_,?_,?_,fun _ => rfl⟩
    · rw [(s.write_refused buf id).1,ho.nrecs]
      exact iff_of_false (by decide) (by omega)
    · rw [List.take_length]
      exact ho.raised
    · simp [hdest]
    · simp [hdest]
  · next hdest =>
    obtain ⟨retired,pending,pos,hh⟩ := ho
    have htake : s.accepted.take retired.length = retired := by rw [hh.accepted,List.take_left]
    refine ⟨retired.length,?_,fun buf id => ?_,fun buf id => (s.write_refused buf id).2,hh.wire_prefix,?_,fun _ => ?_,
      fun _ r hr hne => ?_,fun hd => absurd hd hdest⟩
    · rw [hh.accepted,List.length_append]
      exact Nat.le_add_right _ _
    · rw [(s.write_refused buf id).1,hh.queued.nrecs,hh.accepted,List.length_append]
      exact (Nat.add_left_cancel_iff).symm
    · rw [htake]
      exact hh.raised
    · rw [htake,hh.wire]
      exact List.prefix_append _ _
    · rw [hh.accepted,List.getElem?_append_right le_rfl,Nat.sub_self] at hr
      cases pending with
      | nil => cases hr
      | cons k rest =>
        obtain rfl : k = r := Option.some.inj hr
        have hshort := (hh.short _ rfl).2 hne
        have hnext : s.accepted.take (retired.length + 1) = retired ++ [k] := by
          rw [hh.accepted,List.take_length_add_append]
          rfl
        rw [hnext,hh.wire,stream_append,stream_cons,stream_cons,stream_nil,List.append_nil,List.length_append,
          List.length_append,List.take_append_of_le_length hshort.le,List.length_take]
        omega

/-- The first record is written in two parts, and its handler writes a third record. -/
def underway : WriteRing :=
  step (.writeConnection false (.sent 1) [(⟨2,[100]⟩,true)]) (step (.writeConnection false (.sent 1) [])
    (step (.write ⟨1,[99]⟩ true) (step (.write ⟨0,[97,98]⟩ true) init)))

theorem writes_delivered_underway : underway.Reached ∧ underway.wire = [97,98] ∧ underway.raised = [⟨0,[97,98]⟩] ∧
    underway.accepted.length = 3 ∧ ∃ k, Delivered underway k := by
  have hreached : underway.Reached :=
    .next (.next (.next (.next (.start init_initial) (l := .write ⟨0,[97,98]⟩ true) trivial rfl)
      (l := .write ⟨1,[99]⟩ true) trivial rfl) (l := .writeConnection false (.sent 1) []) (by unfold Offered; decide) rfl)
      (l := .writeConnection false (.sent 1) [(⟨2,[100]⟩,true)]) (by unfold Offered; decide) rfl
  exact ⟨hreached,by decide,by decide,by decide,writes_delivered hreached⟩

end LibIrcBot.WriteRing
