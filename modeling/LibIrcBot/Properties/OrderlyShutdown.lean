import LibIrcBot.System.Fleet
import Mathlib.Data.List.Perm.Basic

/-! # The orderly shutdown

A request for termination takes a lock for every server, and a server that loses its connection
gives back as many as it has registrations of `shutdownok`. There are enough locks for the servers
that are waited for as long as no server gives back more than one of them: a second request sets
the count back, but leaves the registrations of the first one.
-/
namespace LibIrcBot
open CString Effects Relation Outcome Transitions

variable {w w' w'' : World} {live sane : Prop} {c : ConnId}

/-! ## What a server loses -/

/-- A connection that has not raised `disconnected` still belongs to its server. -/
structure World.Yields (w w' : World) : Prop where
  unlocks : w.Unlocks w'
  noted : ∀ c, w.noted c .disconnected ≤ w'.noted c .disconnected
  kept : ∀ c, w.server.conn = some c →
    (w'.losses = w.losses ∧ w'.server.conn = some c) ∨ w'.noted c .disconnected ≠ 0

/-- Each time `disconnected` is raised, it is for some connection. -/
theorem losses_of_noted (h : ∀ c, w'.noted c .disconnected = w.noted c .disconnected) : w'.losses = w.losses := by
  have hcount : ∀ (w : World) (c : ConnId),
      ((w.ghost.operations.filter fun e => e.operation = .disconnected).map Entry.self).count c =
        w.noted c .disconnected := by
    intro w c
    rw [List.count,List.countP_map,List.countP_filter,World.noted]
    exact List.countP_congr fun e _ => by simp
  have hlen : ∀ w : World, w.losses =
      ((w.ghost.operations.filter fun e => e.operation = .disconnected).map Entry.self).length := by
    intro w
    rw [List.length_map,World.losses,List.countP_eq_length_filter]
  rw [hlen,hlen]
  exact (List.perm_iff_count.mpr fun c => by rw [hcount,hcount,h]).length_eq

theorem Passage.noted_le (hp : Passage w w') (c : ConnId) : w.noted c .disconnected ≤ w'.noted c .disconnected := by
  cases hp with
  | steady hs => exact (hs.noted c .disconnected not_false).ge
  | shake _ _ hs => exact (hs.noted c .disconnected not_false).ge
  | closes _ hs =>
    rw [noted_append w _ c .disconnected hs.operations]
    exact Nat.le_add_right _ _
  | creates _ hs =>
    rw [World.noted,World.noted,hs.operations]

theorem Passage.kept (hp : Passage w w') (hc : w.server.conn = some c) :
    (w'.losses = w.losses ∧ w'.server.conn = some c) ∨ w'.noted c .disconnected ≠ 0 := by
  cases hp with
  | steady hs => exact .inl ⟨losses_of_noted fun d => hs.noted d .disconnected not_false,hs.conn.trans hc⟩
  | shake _ _ hs =>
    exact .inl ⟨losses_of_noted fun d => hs.noted d .disconnected not_false,hs.conn.trans hc⟩
  | closes hc' hs =>
    obtain rfl := Option.some.inj (hc'.symm.trans hc)
    right
    rw [noted_append w _ _ .disconnected hs.operations]
    simp
  | creates hc' _ => cases hc'.symm.trans hc

theorem moves_keep (hm : ReflTransGen (Move live sane) w w') (ht : Tracked w) :
    (∀ c, w.noted c .disconnected ≤ w'.noted c .disconnected) ∧ ∀ c, w.server.conn = some c →
      (w'.losses = w.losses ∧ w'.server.conn = some c) ∨ w'.noted c .disconnected ≠ 0 := by
  have hall := Effects.invariant (I := fun t => Tracked t ∧
    (∀ c, w.noted c .disconnected ≤ t.noted c .disconnected) ∧ ∀ c, w.server.conn = some c →
      (t.losses = w.losses ∧ t.server.conn = some c) ∨ t.noted c .disconnected ≠ 0) ?_
    ⟨ht,fun _ => le_refl _,fun c hc => .inl ⟨rfl,hc⟩⟩ hm
  · exact hall.2
  · rintro t u ⟨ht,hle,hkept⟩ hs
    have hp := hs.passage ht
    refine ⟨hp.tracked ht,fun c => (hle c).trans (hp.noted_le c),fun c hc => ?_⟩
    rcases hkept c hc with ⟨hl,hct⟩ | hn
    · exact (hp.kept hct).imp_left fun h => ⟨h.1.trans hl,h.2⟩
    · have := hp.noted_le c
      exact .inr (by omega)

theorem Stir.yields (hs : Stir live sane w w') (ht : Tracked w) : w.Yields w' :=
  have hm := moves_keep hs.moves ht
  ⟨hs.unlocks,hm.1,hm.2⟩

theorem World.Yields.of_eq (h : w.Yields w') (hl : w''.locks = w'.locks)
    (hr : w''.service.shutdownRef = w'.service.shutdownRef) (hg : w''.ghost = w'.ghost)
    (hc : w''.server.conn = w'.server.conn) : w.Yields w'' := by
  have hlosses : w''.losses = w'.losses := by rw [World.losses,World.losses,hg]
  have hnoted : ∀ c, w''.noted c .disconnected = w'.noted c .disconnected := by
    intro c
    rw [World.noted,World.noted,hg]
  refine ⟨h.unlocks.trans (.same ⟨hr,hl⟩ hlosses),fun c => ?_,fun c hc' => ?_⟩
  · rw [hnoted]
    exact h.noted c
  · rw [hlosses,hnoted,hc]
    exact h.kept c hc'

theorem World.Yields.refl (w : World) : w.Yields w := ⟨.refl w,fun _ => le_refl _,fun _ hc => .inl ⟨rfl,hc⟩⟩

/-- The destruction of a closed connection is no concern of the locks. -/
theorem deleteConnection_locks {self : ConnId} (hc : w.server.conn ≠ some self)
    (h : Connection.deleteConnection self w = .ok w') : w.SameLocks w' := by
  unfold Connection.deleteConnection Connection.destroy at h
  rw [if_neg (by simp [World.setConn])] at h
  dsimp only at h
  cases hd : Connection.drain self _ _ with
  | error e =>
    rw [hd] at h
    cases h
  | ok t =>
    rw [hd] at h
    obtain ⟨base,rfl⟩ := drain_shape (by exact hc) hd
    cases h
    clear hd
    constructor
    · simp [World.setConn,World.log,Service.unregisterRead,Service.unregisterWrite]
    · simp [World.locks,World.setConn,World.log,Service.unregisterRead,Service.unregisterWrite]

theorem destroys_yields (ht : Tracked w) {env : Env} (hc : w.Calls env .eventsDone w') : w.Yields w' := by
  obtain ⟨c,-,hclosed,hd⟩ := calls_destroys ht hc
  obtain ⟨⟨self⟩,hv,hcall⟩ := hc
  have hself : w.server.conn ≠ some self := by
    intro he
    have hopened := (ht.opened self).mpr he
    rw [ht.deleting hv] at hopened
    cases hopened
  have hlosses : w'.losses = w.losses := by
    rw [World.losses,hd.operations,List.countP_append,World.losses]
    simp
  have hnoted : ∀ d, w'.noted d .disconnected = w.noted d .disconnected := by
    intro d
    rw [noted_append w _ d .disconnected hd.operations]
    simp
  exact ⟨.same (deleteConnection_locks hself hcall) hlosses,fun d => (hnoted d).ge,
    fun d he => .inl ⟨hlosses,hd.conn.trans he⟩⟩

theorem locked_fields (h : 0 ≤ w.service.shutdownRef) : w.locked.ghost = w.ghost ∧
    w.locked.server.conn = w.server.conn ∧ w.locked.service.shutdownRef = w.service.shutdownRef + 1 := by
  unfold World.locked Service.shutdownLock
  dsimp only
  rw [if_pos h]
  exact ⟨rfl,rfl,rfl⟩

def Part.begun : Part → World → World
  | .shutdown, w => w.locked
  | _, w => w

theorem Part.yields {part : Part} (h : Inv w) (ht : Tracked w) (hp : part.Serves) (hs : part.run w = .ok w') :
    (part.begun w).Yields w' := by
  cases part with
  | shutdown =>
    have hlocked : Tracked w.locked :=
      tracked_of_moves (.single (.exchange (.same (locked_same w)) : Move False False w w.locked)) ht
    exact (Stirs.result (shutdown_stirs h) hs : Stir False False w.locked w').yields hlocked
  | skip =>
    cases hs
    exact (World.Yields.refl w).of_eq rfl rfl rfl rfl
  | step l =>
    change w.Yields w'
    by_cases hl : l.IsCall
    · exact (Stirs.result (call_stirs h hl) hs : Stir False False w w').yields ht
    cases l with
    | loop => exact hp.elim
    | select ready => exact hp.elim
    | next env =>
      rcases next_cases hs with ⟨-,rfl⟩ | ⟨event,rest,htodo,⟨-,rfl⟩ | ⟨-,rfl⟩ | ⟨t,hc,rfl⟩⟩
      · exact .refl _
      · exact (World.Yields.refl w).of_eq rfl rfl rfl rfl
      · exact (World.Yields.refl w).of_eq rfl rfl rfl rfl
      · have hy : w.Yields t := by
          by_cases hd : event = .eventsDone
          · subst hd
            exact destroys_yields ht hc
          · exact (@calls_stirs w False False h ht env event rest htodo hd t hc nofun nofun nofun).yields ht
        exact hy.of_eq rfl rfl rfl rfl
    | _ => exact absurd trivial hl

/-! ## Servers that are waited for -/

/-- The server had a connection at the first request, which has not raised `disconnected` since. -/
def Member.awaited (m : Member) : Bool := m.first.any fun c => m.world.noted c .disconnected = 0

def Member.holds (m : Member) : Bool := 0 < m.world.locks

theorem Member.awaited_iff {m : Member} :
    m.awaited = true ↔ ∃ c, m.first = some c ∧ m.world.noted c .disconnected = 0 := by
  simp [Member.awaited,Option.any_eq_true]

/-- There is a lock for each server that is waited for, of the first `k` servers, or none is waited for any more. -/
structure Covers (members : List Member) (shutdownRef : ℤ) (k : ℕ) : Prop where
  nonneg : 0 ≤ shutdownRef
  own : ∀ m ∈ members, ∀ c, m.first = some c → m.world.noted c .disconnected = 0 → m.world.server.conn = some c
  held : (∀ m ∈ members, m.awaited = false) ∨
    ((∀ m ∈ members.take k, m.awaited = true → m.holds = true) ∧
      ((members.take k).countP Member.holds : ℤ) ≤ shutdownRef)

namespace Covers
variable {members : List Member} {shutdownRef : ℤ} {k i : ℕ} {m : Member} {v : World}

/-- What is waited for is covered. -/
theorem awaited_le (h : Covers members shutdownRef members.length) :
    (members.countP Member.awaited : ℤ) ≤ shutdownRef := by
  rcases h.held with hnone | ⟨hall,hcount⟩
  · rw [List.countP_eq_zero.mpr fun m hm => by simp [hnone m hm]]
    exact h.nonneg
  · rw [List.take_length] at hall hcount
    have hle : members.countP Member.awaited ≤ members.countP Member.holds := List.countP_mono_left hall
    omega

theorem map (h : Covers members shutdownRef k) {g : Member → Member} (hf : ∀ m, (g m).first = m.first)
    (hg : ∀ m, (g m).world.ghost = m.world.ghost) (hc : ∀ m, (g m).world.server.conn = m.world.server.conn)
    (hl : ∀ m, (g m).world.locks = m.world.locks) : Covers (members.map g) shutdownRef k := by
  have hnoted : ∀ m c, (g m).world.noted c .disconnected = m.world.noted c .disconnected := by
    intro m c
    rw [World.noted,World.noted,hg]
  have hawaited : ∀ m, (g m).awaited = m.awaited := by
    intro m
    simp only [Member.awaited,hf,hnoted]
  have hholds : ∀ m, (g m).holds = m.holds := by
    intro m
    rw [Member.holds,Member.holds,hl]
  refine ⟨h.nonneg,fun m' hm' c hfirst hn => ?_,h.held.imp (fun hnone => ?_) fun hall => ⟨?_,?_⟩⟩
  · obtain ⟨m,hm,rfl⟩ := List.mem_map.mp hm'
    rw [hc]
    exact h.own m hm c (hf m ▸ hfirst) (hnoted m c ▸ hn)
  · intro m' hm'
    obtain ⟨m,hm,rfl⟩ := List.mem_map.mp hm'
    rw [hawaited]
    exact hnone m hm
  · intro m' hm'
    rw [← List.map_take] at hm'
    obtain ⟨m,hm,rfl⟩ := List.mem_map.mp hm'
    rw [hawaited,hholds]
    exact hall.1 m hm
  · rw [← List.map_take,List.countP_map,List.countP_congr fun m _ => by rw [Function.comp_apply,hholds]]
    exact hall.2

/-- A server takes a lock. -/
theorem lock (h : Covers members shutdownRef k) (hm : members[k]? = some m) (hl : v.locks = m.world.locks + 1)
    (hg : v.ghost = m.world.ghost) (hc : v.server.conn = m.world.server.conn) :
    Covers (members.set k { m with world := v }) (shutdownRef + 1) (k + 1) := by
  have hmem := List.mem_of_getElem? hm
  have hlt : k < members.length := (List.getElem?_eq_some_iff.mp hm).1
  have hnoted : ∀ c, v.noted c .disconnected = m.world.noted c .disconnected := by
    intro c
    rw [World.noted,World.noted,hg]
  have hawaited : Member.awaited { m with world := v } = m.awaited := by
    simp only [Member.awaited,hnoted]
  have hholds : Member.holds { m with world := v } = true := by
    simp [Member.holds,hl]
  have htake : (members.set k { m with world := v }).take (k + 1) = members.take k ++ [{ m with world := v }] := by
    rw [List.take_add_one,List.take_set_of_le (Nat.le_refl k),List.getElem?_set_self hlt]
    rfl
  refine ⟨Int.le_add_one h.nonneg,fun m' hm' c hfirst hn => ?_,h.held.imp (fun hnone m' hm' => ?_) fun hall => ⟨?_,?_⟩⟩
  · rcases List.mem_or_eq_of_mem_set hm' with hm' | rfl
    · exact h.own m' hm' c hfirst hn
    · exact hc.trans (h.own m hmem c hfirst ((hnoted c).symm.trans hn))
  · rcases List.mem_or_eq_of_mem_set hm' with hm' | rfl
    · exact hnone m' hm'
    · exact hawaited.trans (hnone m hmem)
  · intro m' hm' hw
    rw [htake] at hm'
    rcases List.mem_append.mp hm' with hm' | hm'
    · exact hall.1 m' hm' hw
    · rw [List.mem_singleton.mp hm']
      exact hholds
  · rw [htake,List.countP_append,List.countP_singleton,if_pos hholds]
    push_cast
    exact Int.add_le_add_right hall.2 1

/-- A server yields: if it gives back more than one lock, no other server is waited for. -/
theorem yields (h : Covers members v.service.shutdownRef k) (hm : members[i]? = some m) (hi : i < k)
    (hl : v.locks = m.world.locks) (hg : v.ghost = m.world.ghost) (hc : v.server.conn = m.world.server.conn)
    (hy : v.Yields w) (hone : v.losses < w.losses →
      v.locks ≤ 1 ∨ ∀ j ≠ i, ∀ x, members[j]? = some x → x.awaited = false) :
    Covers (members.set i { m with world := w }) w.service.shutdownRef k := by
  have hmem := List.mem_of_getElem? hm
  have hlt : i < members.length := (List.getElem?_eq_some_iff.mp hm).1
  have htake : (members.take k)[i]? = some m := by rw [List.getElem?_take_of_lt hi,hm]
  have hnoted : ∀ c, w.noted c .disconnected = 0 → m.world.noted c .disconnected = 0 := by
    intro c hn
    have hle := hy.noted c
    rw [World.noted,hg] at hle
    exact Nat.le_zero.mp (hn ▸ hle)
  have hawaited : Member.awaited { m with world := w } = true → m.awaited = true := by
    intro hw
    obtain ⟨c,hfirst,hn⟩ := Member.awaited_iff.mp hw
    exact Member.awaited_iff.mpr ⟨c,hfirst,hnoted c hn⟩
  -- A connection that is still waited for is the server's, and nothing was lost.
  have hkept : ∀ c, m.first = some c → w.noted c .disconnected = 0 → w.losses = v.losses ∧ w.server.conn = some c := by
    intro c hfirst hn
    rcases hy.kept c (hc.trans (h.own m hmem c hfirst (hnoted c hn))) with hk | hk
    · exact hk
    · exact absurd hn hk
  refine ⟨?_,fun m' hm' c hfirst hn => ?_,?_⟩
  · cases hy.unlocks with
    | same hs => exact hs.shutdownRef ▸ h.nonneg
    | lost _ _ _ hpos => exact hpos h.nonneg
  · rcases List.mem_or_eq_of_mem_set hm' with hm' | rfl
    · exact h.own m' hm' c hfirst hn
    · exact (hkept c hfirst hn).2
  · rcases h.held with hnone | ⟨hall,hcount⟩
    · left
      intro m' hm'
      rcases List.mem_or_eq_of_mem_set hm' with hm' | rfl
      · exact hnone m' hm'
      · exact Bool.eq_false_iff.mpr fun hw => absurd (hawaited hw) (by simp [hnone m hmem])
    have hset : (members.set i { m with world := w }).take k = (members.take k).set i { m with world := w } := List.take_set
    have hlen : i < (members.take k).length := (List.getElem?_eq_some_iff.mp htake).1
    have hget : (members.take k)[i] = m := Option.some.inj ((List.getElem?_eq_getElem hlen).symm.trans htake)
    have hpos : m.holds = true → 0 < (members.take k).countP Member.holds := by
      intro hm
      exact List.countP_pos_iff.mpr ⟨m,List.mem_of_getElem? htake,hm⟩
    cases hy.unlocks with
    | same hs hn =>
      have hholds : Member.holds { m with world := w } = m.holds := by
        rw [Member.holds,Member.holds,hs.locks,hl]
      right
      rw [hset,hs.shutdownRef]
      refine ⟨fun m' hm' hw => ?_,?_⟩
      · rcases List.mem_or_eq_of_mem_set hm' with hm' | rfl
        · exact hall m' hm' hw
        · exact hholds.trans (hall m (List.mem_of_getElem? htake) (hawaited hw))
      · rw [List.countP_set hlen,hget,hholds]
        split
        · next hm =>
          have := hpos hm
          omega
        · exact hcount
    | lost hn hzero hle _ =>
      have hgone : Member.awaited { m with world := w } = false := by
        refine Bool.eq_false_iff.mpr fun hw => ?_
        obtain ⟨c,hfirst,hnc⟩ := Member.awaited_iff.mp hw
        have := (hkept c hfirst hnc).1
        omega
      rcases hone hn with hlocks | hothers
      · right
        rw [hset]
        refine ⟨fun m' hm' hw => ?_,?_⟩
        · rcases List.mem_or_eq_of_mem_set hm' with hm' | rfl
          · exact hall m' hm' hw
          · exact absurd hw (by simp [hgone])
        · rw [List.countP_set hlen,hget]
          have hholds : Member.holds { m with world := w } = false := by simp [Member.holds,hzero]
          rw [hholds,hl] at *
          cases hm : m.holds with
          | true =>
            have := hpos hm
            simp only [if_true,Bool.false_eq_true,if_false]
            omega
          | false =>
            have : m.world.locks = 0 := by simpa [Member.holds] using hm
            simp only [Bool.false_eq_true,if_false]
            omega
      · left
        intro m' hm'
        obtain ⟨j,hj⟩ := List.getElem?_of_mem hm'
        by_cases hji : j = i
        · subst hji
          rw [List.getElem?_set_self hlt] at hj
          obtain rfl := Option.some.inj hj
          exact hgone
        · rw [List.getElem?_set_ne (Ne.symm hji)] at hj
          exact hothers j hji m' hj

end Covers

/-! ## Runs -/

/-- How many of `n` servers have taken their locks since the last request. -/
def Phase.taken (n : ℕ) : Phase → ℕ
  | .stopping k => k
  | _ => n

namespace Fleet
variable {F F' : Fleet} {i k : ℕ} {m : Member}

/-- The locks that a step takes for a server before it disconnects it. -/
def Label.locks : Fleet.Label → ℕ
  | .stop => 1
  | _ => 0

/-- In the step no server raises `disconnected` that has `shutdownok` registered more than once,
unless no other server is waited for. -/
def Single (l : Label) (F : Fleet) : Prop :=
  ∀ F', step l F = .ok F' → ∀ (i : ℕ) (m m' : Member), F.members[i]? = some m → F'.members[i]? = some m' →
    m.world.losses < m'.world.losses →
      m.world.locks + l.locks ≤ 1 ∨ ∀ j ≠ i, ∀ x : Member, F.members[j]? = some x → x.awaited = false

abbrev Covered (F : Fleet) : Prop := Covers F.members F.shutdownRef (F.phase.taken F.members.length)

/-- A part other than `shutdown` that a server does, while no request is being served. -/
theorem act_covered {part : Part} {phase : Phase} (hs : F.Sound) (hp : part.Serves) (hb : ∀ w, part.begun w = w)
    (ht : F.phase.taken F.members.length = F.members.length) (ht' : phase.taken F.members.length = F.members.length)
    (hc : F.Covered) (h : F.act i part phase = .ok F')
    (hone : ∀ (m m' : Member), F.members[i]? = some m → F'.members[i]? = some m' → m.world.losses < m'.world.losses →
      m.world.locks ≤ 1 ∨ ∀ j ≠ i, ∀ x : Member, F.members[j]? = some x → x.awaited = false) : F'.Covered := by
  unfold act at h
  split at h
  · obtain rfl := Except.ok.inj h
    exact hc
  · next m hm =>
    split at h
    · next w hw =>
      obtain rfl := Except.ok.inj h
      have hmem := List.mem_of_getElem? hm
      have hlt : i < F.members.length := (List.getElem?_eq_some_iff.mp hm).1
      have hy := Part.yields (view_inv (hs.inv m hmem)) (view_tracked (hs.tracked m hmem)) hp hw
      rw [hb] at hy
      have hcov : Covers (F.members.set i { m with world := w }) w.service.shutdownRef F.members.length :=
        Covers.yields (v := F.view m.world) (by rw [Covered,ht] at hc; exact hc) hm hlt rfl rfl rfl hy fun hn =>
          hone m { m with world := w } hm (List.getElem?_set_self hlt) hn
      rw [Covered]
      dsimp only [put]
      rw [List.length_set,ht']
      exact hcov
    · cases h

/-- The callback `shutdown` takes a lock for the next server and disconnects it. -/
theorem stop_covered (hs : F.Sound) (hphase : F.phase = .stopping k) (hc : F.Covered)
    (h : F.act k .shutdown (.stopping (k + 1)) = .ok F')
    (hone : ∀ (m m' : Member), F.members[k]? = some m → F'.members[k]? = some m' → m.world.losses < m'.world.losses →
      m.world.locks + 1 ≤ 1 ∨ ∀ j ≠ k, ∀ x : Member, F.members[j]? = some x → x.awaited = false) : F'.Covered := by
  have hserves : Part.shutdown.Serves := trivial
  rw [Covered,hphase] at hc
  change Covers F.members F.shutdownRef k at hc
  unfold act at h
  split at h
  · next hm =>
    obtain rfl := Except.ok.inj h
    rw [Covered,hphase]
    exact hc
  · next m hm =>
    split at h
    · next w hw =>
      obtain rfl := Except.ok.inj h
      have hmem := List.mem_of_getElem? hm
      have hlt : k < F.members.length := (List.getElem?_eq_some_iff.mp hm).1
      have hy := Part.yields (view_inv (hs.inv m hmem)) (view_tracked (hs.tracked m hmem)) hserves hw
      have hlocks : (F.view m.world).locked.locks = m.world.locks + 1 := locked_locks _
      obtain ⟨hghost,hconn,href⟩ := locked_fields (w := F.view m.world) hc.nonneg
      have hlock := hc.lock hm hlocks hghost hconn
      have href' : F.shutdownRef + 1 = (F.view m.world).locked.service.shutdownRef := href.symm
      rw [href'] at hlock
      have hcov := Covers.yields (i := k) hlock (List.getElem?_set_self hlt) (Nat.lt_succ_self k) rfl rfl rfl hy
        fun hn => ?_
      · rw [List.set_set] at hcov
        exact hcov
      · have hlosses : (F.view m.world).locked.losses = m.world.losses := by
          rw [World.losses,hghost]
          rfl
        rw [hlosses] at hn
        rw [hlocks]
        refine (hone m { m with world := w } hm (List.getElem?_set_self hlt) hn).imp_right fun hothers j hj x hx => ?_
        rw [List.getElem?_set_ne (Ne.symm hj)] at hx
        exact hothers j hj x hx
    · cases h

/-! ### Steps -/

/-- What a step of the program can do, as far as the locks are concerned. -/
inductive Turns (F : Fleet) (l : Label) : Fleet → Prop where
  | stay : Turns F l F
  | move {F' : Fleet} {g : Member → Member} (hg : g = id ∨ ∃ event, g = Member.raise event)
      (hm : F'.members = F.members.map g) (hr : F'.shutdownRef = F.shutdownRef) (ha : F'.asked = F.asked)
      (hl : F.phase ≠ .ended .limit) (ht : F.members.take (F'.phase.taken F.members.length) =
        F.members.take (F.phase.taken F.members.length))
      (he : F'.phase = .ended .orderly → F.shutdownRef = 0) : Turns F l F'
  | act {F' : Fleet} {i : ℕ} {part : Part} {phase : Phase} (h : F.act i part phase = .ok F') (hp : part.Serves)
      (hb : ∀ w, part.begun w = w) (hlocks : l.locks = 0) (hl : F.phase ≠ .ended .limit)
      (ht : F.phase.taken F.members.length = F.members.length)
      (ht' : phase.taken F.members.length = F.members.length) (he : phase ≠ .ended .orderly) : Turns F l F'
  | stop {F' : Fleet} {k : ℕ} (hphase : F.phase = .stopping k) (h : F.act k .shutdown (.stopping (k + 1)) = .ok F')
      (hlocks : l.locks = 1) : Turns F l F'
  | ask (hphase : F.phase = .selecting) : Turns F l F.ask
  | limit {F' : Fleet} (hphase : F'.phase = .ended .limit) : Turns F l F'

theorem taken_of_raises {p : Phase} (h : p.raises = true) (n : ℕ) : p.taken n = n := by
  cases p <;> first | rfl | cases h

theorem taken_of_serves {p : Phase} (h : p.serves = true) (n : ℕ) : p.taken n = n := by
  cases p <;> first | rfl | cases h

/-- Where the application makes its calls, no request is being served, and the loop has not ended. -/
theorem taken_of_admits (h : F.admits = true) : F.phase.taken F.members.length = F.members.length ∧
    ∀ e, F.phase ≠ .ended e := by
  rw [admits,Bool.or_eq_true,Bool.or_eq_true,decide_eq_true_eq,decide_eq_true_eq] at h
  rcases h with (h | h) | h
  · exact ⟨taken_of_serves h _,fun e he => by simp [he,Phase.serves] at h⟩
  · rw [h]
    exact ⟨rfl,nofun⟩
  · rw [h]
    exact ⟨rfl,nofun⟩

namespace Turns
variable {l : Label}

/-- The loop goes on to a phase in which no request is being served. -/
theorem phase {p : Phase} (hl : F.phase ≠ .ended .limit)
    (ht : F.phase.taken F.members.length = F.members.length) (ht' : p.taken F.members.length = F.members.length)
    (he : p = .ended .orderly → F.shutdownRef = 0) : Turns F l { F with phase := p } :=
  .move (.inl rfl) (List.map_id _).symm rfl rfl hl (by rw [ht]; exact congrArg F.members.take ht') he

theorem raise {G : Fleet} (hm : G.members = F.members) (hr : G.shutdownRef = F.shutdownRef) (ha : G.asked = F.asked)
    (hl : F.phase ≠ .ended .limit) (ht : F.phase.taken F.members.length = F.members.length) (event : ServiceEvent)
    {p : Phase} (ht' : p.taken F.members.length = F.members.length) (he : p ≠ .ended .orderly) :
    Turns F l (G.raise event p) :=
  .move (.inr ⟨event,rfl⟩) (congrArg (List.map (Member.raise event)) hm) hr ha hl
    (by rw [ht]; exact congrArg F.members.take ht') fun h => absurd h he

theorem raiseNext {G : Fleet} (hm : G.members = F.members) (hr : G.shutdownRef = F.shutdownRef)
    (ha : G.asked = F.asked) (hl : F.phase ≠ .ended .limit) (ht : F.phase.taken F.members.length = F.members.length)
    (events : List ServiceEvent) : Turns F l (G.raiseNext events) := by
  cases events with
  | nil => exact .move (.inl rfl) (hm.trans (List.map_id _).symm) hr ha hl (by rw [ht]; rfl) nofun
  | cons event rest => exact .raise hm hr ha hl ht event rfl (by simp)

theorem select (ready : Service.Ready) (hphase : F.phase = .selecting) : Turns F l (F.select ready) := by
  have hl : F.phase ≠ .ended .limit := by simp [hphase]
  have ht : F.phase.taken F.members.length = F.members.length := by rw [hphase]; rfl
  cases ready with
  | shutdown => exact .ask hphase
  | tick =>
    unfold Fleet.select
    dsimp only
    split
    · split
      · exact .limit rfl
      · exact .raiseNext (F := F) (G := { F with shutdownTicks := F.shutdownTicks - 1 }) rfl rfl rfl hl ht _
    · exact .raiseNext rfl rfl rfl hl ht _
  | io writes reads =>
    unfold Fleet.select
    dsimp only
    split
    · exact .raiseNext rfl rfl rfl hl ht _
    · exact .stay

theorem proceed (F : Fleet) : Turns F l F.proceed := by
  unfold Fleet.proceed
  split
  · split
    · next hphase => exact .phase (by simp [hphase]) (by rw [hphase]; rfl) rfl nofun
    · next rest hphase => exact .raiseNext rfl rfl rfl (by simp [hphase]) (by rw [hphase]; rfl) rest
    · exact .stay
  · exact .stay

end Turns

theorem step_turns {l : Label} (hstep : step l F = .ok F') : Turns F l F' := by
  have hvisit : ∀ {i : ℕ} (part : Part), part.Serves → (∀ w, part.begun w = w) → l.locks = 0 →
      F.phase.taken F.members.length = F.members.length ∧ (∀ e, F.phase ≠ .ended e) →
        F.act i part F.phase = .ok F' → Turns F l F' := by
    intro i part hp hb hlocks ⟨ht,hl⟩ h
    exact .act h hp hb hlocks (hl .limit) ht ht (hl .orderly)
  have hraises : F.phase.raises = true → F.phase.taken F.members.length = F.members.length ∧ ∀ e, F.phase ≠ .ended e :=
    fun hr => ⟨taken_of_raises hr _,fun e he => by simp [he,Phase.raises] at hr⟩
  cases l with
  | connect env =>
    change F.connect env = _ at hstep
    unfold connect at hstep
    split at hstep
    · next k hphase =>
      have hl : F.phase ≠ .ended .limit := by simp [hphase]
      have ht : F.phase.taken F.members.length = F.members.length := by rw [hphase]; rfl
      split at hstep
      · exact (Except.ok.inj hstep) ▸ .stay
      · split at hstep
        · exact (Except.ok.inj hstep) ▸ .phase hl ht rfl nofun
        · exact .act hstep trivial (fun _ => rfl) rfl hl ht rfl (by simp)
    · exact (Except.ok.inj hstep) ▸ .stay
  | started ok =>
    refine (Except.ok.inj hstep) ▸ ?_
    split
    · next hphase =>
      exact .phase (by simp [hphase]) (by rw [hphase]; rfl) (by cases ok <;> rfl) (by cases ok <;> exact nofun)
    · exact .stay
  | loop =>
    refine (Except.ok.inj hstep) ▸ ?_
    split
    · next hphase =>
      have hl : F.phase ≠ .ended .limit := by simp [hphase]
      have ht : F.phase.taken F.members.length = F.members.length := by rw [hphase]; rfl
      split
      · exact .raise rfl rfl rfl hl ht _ rfl (by simp)
      · next hzero => exact .phase hl ht rfl fun _ => not_not.mp hzero
    · exact .stay
  | visit i env =>
    change (if F.phase.raises then F.act i (.step (.next env)) F.phase else .ok F) = _ at hstep
    split at hstep
    · next hr => exact hvisit (.step (.next env)) trivial (fun _ => rfl) rfl (hraises hr) hstep
    · exact (Except.ok.inj hstep) ▸ .stay
  | skip i =>
    change (if F.phase.raises && F.phase.serves then F.act i .skip F.phase else .ok F) = _ at hstep
    split at hstep
    · next hr =>
      exact hvisit .skip trivial (fun _ => rfl) rfl (hraises (Bool.and_eq_true_iff.mp hr).1) hstep
    · exact (Except.ok.inj hstep) ▸ .stay
  | proceed => exact (Except.ok.inj hstep) ▸ .proceed F
  | select ready =>
    refine (Except.ok.inj hstep) ▸ ?_
    split
    · next hphase => exact .select ready hphase
    · exact .stay
  | fail =>
    refine (Except.ok.inj hstep) ▸ ?_
    split
    · next hr =>
      have ht : F.phase.taken F.members.length = F.members.length := by
        rcases Bool.or_eq_true_iff.mp hr with hphase | hr
        · rw [of_decide_eq_true hphase]
          rfl
        · exact taken_of_raises hr _
      exact .phase (fun he => by simp [he,Phase.raises] at hr) ht rfl nofun
    · exact .stay
  | stop =>
    change F.stop = _ at hstep
    unfold stop at hstep
    split at hstep
    · next k hphase =>
      split at hstep
      · exact .stop hphase hstep rfl
      · next hk =>
        have htake : F.members.take F.members.length = F.members.take k := by
          rw [List.take_length,List.take_of_length_le (Nat.not_lt.mp hk)]
        exact (Except.ok.inj hstep) ▸ .move (.inl rfl) (List.map_id _).symm rfl rfl (by simp [hphase])
          (by rw [hphase]; exact htake) nofun
    · exact (Except.ok.inj hstep) ▸ .stay
  | call i l =>
    change (if l.ofApplication && F.admits then F.act i (.step l) F.phase else .ok F) = _ at hstep
    split at hstep
    · next hl =>
      obtain ⟨hl,hphase⟩ := Bool.and_eq_true_iff.mp hl
      have hserves : (Part.step l).Serves := by
        cases l <;> trivial
      exact hvisit _ hserves (fun _ => rfl) rfl (taken_of_admits hphase) hstep
    · exact (Except.ok.inj hstep) ▸ .stay

/-! ### The law -/

/-- A request sets the locks back, and finds the servers that are waited for when it is the first one. -/
theorem ask_covered (hc : F.asked = true → F.Covered) : F.ask.Covered := by
  have hnone : ∀ members : List Member, (∀ m ∈ members.take 0, m.awaited = true → m.holds = true) ∧
      ((members.take 0).countP Member.holds : ℤ) ≤ 0 := by simp
  refine ⟨Int.le_refl 0,fun m' hm' c hfirst hn => ?_,.inr (hnone _)⟩
  obtain ⟨m,hm,rfl⟩ := List.mem_map.mp hm'
  by_cases ha : F.asked = true
  · rw [if_pos ha] at hfirst hn ⊢
    exact (hc ha).own m hm c hfirst hn
  · rw [if_neg ha] at hfirst ⊢
    exact hfirst

theorem act_fields {part : Part} {phase : Phase} (h : F.act i part phase = .ok F') :
    F'.asked = F.asked ∧ (F' = F ∨ F'.phase = phase) := by
  unfold act at h
  split at h
  · obtain rfl := Except.ok.inj h
    exact ⟨rfl,.inl rfl⟩
  · split at h
    · obtain rfl := Except.ok.inj h
      exact ⟨rfl,.inr rfl⟩
    · cases h

/-- Once termination is requested, the servers that are waited for are covered until the limit of
the ticks; and the loop ends for want of locks only if there are none. -/
structure Guarded (F : Fleet) : Prop where
  sound : F.Sound
  covered : F.asked = true → F.phase ≠ .ended .limit → F.Covered
  ended : F.phase = .ended .orderly → F.shutdownRef = 0

theorem Turns.covered {l : Label} (ht : Turns F l F') (hg : F.Guarded) (hC : Single l F) (hstep : step l F = .ok F')
    (ha : F'.asked = true) (hne : F'.phase ≠ .ended .limit) : F'.Covered := by
  cases ht with
  | stay => exact hg.covered ha hne
  | move hmap hm hr hasked hl htake =>
    have hc : Covers F.members F.shutdownRef (F'.phase.taken F.members.length) := by
      have hc := hg.covered (hasked ▸ ha) hl
      exact ⟨hc.nonneg,hc.own,htake ▸ hc.held⟩
    rw [Covered,hm,hr,List.length_map]
    rcases hmap with rfl | ⟨event,rfl⟩
    · rwa [List.map_id]
    · exact hc.map (fun _ => rfl) (fun _ => rfl) (fun _ => rfl) fun _ => rfl
  | act h hp hb hlocks hl ht ht' =>
    refine act_covered hg.sound hp hb ht ht' (hg.covered ((act_fields h).1 ▸ ha) hl) h fun m m' hm hm' hn => ?_
    have hone := hC F' hstep _ m m' hm hm' hn
    rwa [hlocks,Nat.add_zero] at hone
  | stop hphase h hlocks =>
    refine stop_covered hg.sound hphase (hg.covered ((act_fields h).1 ▸ ha) (by simp [hphase])) h
      fun m m' hm hm' hn => ?_
    have hone := hC F' hstep _ m m' hm hm' hn
    rwa [hlocks] at hone
  | ask hphase => exact ask_covered fun ha => hg.covered ha (by simp [hphase])
  | limit hphase => exact absurd hphase hne

theorem Turns.ended {l : Label} (ht : Turns F l F') (hg : F.Guarded) (hp : F'.phase = .ended .orderly) :
    F'.shutdownRef = 0 := by
  cases ht with
  | stay => exact hg.ended hp
  | move _ _ hr _ _ _ he => exact hr.trans (he hp)
  | act h _ _ _ _ _ _ he =>
    rcases (act_fields h).2 with rfl | hphase
    · exact hg.ended hp
    · exact absurd (hphase.symm.trans hp) he
  | stop hphase h =>
    rcases (act_fields h).2 with rfl | hphase'
    · exact hg.ended hp
    · cases hphase'.symm.trans hp
  | ask => cases hp
  | limit hphase => cases hphase.symm.trans hp

theorem Guarded.step {l : Label} (hg : F.Guarded) (hC : Single l F) (hstep : Fleet.step l F = .ok F') : F'.Guarded :=
  have ht := step_turns hstep
  ⟨hg.sound.step hstep,ht.covered hg hC hstep,ht.ended hg⟩

theorem Guarded.initial (h : F.Initial) : F.Guarded where
  sound := .initial h
  covered ha := by
    rw [h.asked] at ha
    cases ha
  ended hp := by
    rw [h.phase] at hp
    cases hp

/-- The shutdown is orderly: while no request is being served, and before the limit of the ticks, there are as many
locks as servers that are waited for, and the loop ends for want of locks only when no server is. -/
structure Orderly (F : Fleet) : Prop where
  counted : (∀ k, F.phase ≠ .stopping k) → F.phase ≠ .ended .limit →
    (F.members.countP Member.awaited : ℤ) ≤ F.shutdownRef
  ended : F.phase = .ended .orderly → ∀ m ∈ F.members, m.awaited = false

theorem Guarded.orderly (hg : F.Guarded) (ha : F.asked = true) : F.Orderly := by
  have hcounted : (∀ k, F.phase ≠ .stopping k) → F.phase ≠ .ended .limit →
      (F.members.countP Member.awaited : ℤ) ≤ F.shutdownRef := by
    intro hstop hl
    have hc := hg.covered ha hl
    have ht : F.phase.taken F.members.length = F.members.length := by
      cases hp : F.phase with
      | stopping k => exact absurd hp (hstop k)
      | _ => rfl
    rw [Covered,ht] at hc
    exact hc.awaited_le
  refine ⟨hcounted,fun hp m hm => ?_⟩
  have hle := hcounted (by simp [hp]) (by simp [hp])
  rw [hg.ended hp] at hle
  have hzero : F.members.countP Member.awaited = 0 := by omega
  exact Bool.eq_false_iff.mpr (List.countP_eq_zero.mp hzero m hm)

/-- The shutdown is orderly in every run in which no server gives back several locks while another is waited for. -/
theorem orderly_of_single (h : Reaches step Single Initial F) (ha : F.asked = true) : F.Orderly :=
  (h.invariant (fun _ hi => .initial hi) fun _ _ _ hg hC hs => hg.step hC hs : F.Guarded).orderly ha

/-! ### Two servers -/

theorem single_iff {l : Label} : (∀ F' ∈ (step l F).toOption, ∀ i < F.members.length, ∀ m ∈ F.members[i]?,
    ∀ m' ∈ F'.members[i]?, m.world.losses < m'.world.losses →
      m.world.locks + l.locks ≤ 1 ∨ ∀ x ∈ F.members.eraseIdx i, x.awaited = false) ↔ Single l F := by
  constructor
  · intro h F' hstep i m m' hm hm' hlt
    have hi := (List.getElem?_eq_some_iff.mp hm).1
    refine (h F' (by rw [hstep]; rfl) i hi m hm m' hm' hlt).imp_right fun ha j hj x hx => ?_
    exact ha x (List.mem_eraseIdx_iff_getElem?.mpr ⟨j,hj,hx⟩)
  · intro h F' hF' i _ m hm m' hm' hlt
    have hstep : step l F = .ok F' := by
      cases hs : step l F with
      | error e =>
        rw [hs] at hF'
        cases hF'
      | ok G =>
        rw [hs] at hF'
        exact congrArg Except.ok (Option.some.inj hF')
    refine (h F' hstep i m m' hm hm' hlt).imp_right fun ha x hx => ?_
    obtain ⟨j,hj,hget⟩ := List.mem_eraseIdx_iff_getElem?.mp hx
    exact ha j hj x hget

instance (l : Label) (F : Fleet) : Decidable (Single l F) := decidable_of_iff _ single_iff

def Label.loggingIn : List Fleet.Label :=
  let opened : Env := { Env.failing with sockErr := false }
  let welcome : Env := Env.delivering ⟨lit ":t 004 n t x\x0d\n",by decide,by decide⟩
  [.connect { Env.failing with socket := some 3 },.connect { Env.failing with socket := some 4 },.started true] ++
    iteration 2 (.io [3] []) opened ++ iteration 2 (.io [4] []) opened ++
    iteration 2 (.io [] [3]) welcome ++ iteration 2 (.io [] [4]) welcome

def Label.asking : List Fleet.Label := sweep 2 ++ [.select .shutdown,.stop,.stop,.stop]

/-- After one request the loop ends when both servers have disconnected. -/
theorem orderly_of_single_quitting : ∃ F : Fleet, Reaches step Single Initial F ∧ F.phase = .ended .orderly ∧
    F.members.length = 2 ∧ ∀ m ∈ F.members, m.awaited = false := by
  have hrun : (follow Fleet.step Single (Label.loggingIn ++ Label.asking ++
      Label.iteration 2 (.io [] [3]) Env.failing ++ Label.iteration 2 (.io [] [4]) Env.failing ++ [.loop])
      (create [plain,plain])).any fun F =>
        F.phase = .ended .orderly && F.asked && F.members.length = 2 := by decide +kernel
  obtain ⟨F,hF,hp⟩ := (Reaches.start (plain_initial 2)).exists_follow hrun
  simp only [Bool.and_eq_true,decide_eq_true_eq] at hp
  exact ⟨F,hF,hp.1.1,hp.2,(orderly_of_single hF hp.1.2).ended hp.1.1⟩

/-- After two requests the loop ends when the first of two servers has disconnected. -/
theorem two_requests_unordered : ¬ ∀ F : Fleet, F.Reachable → F.asked = true → F.Orderly := by
  intro h
  have hrun : (follow Fleet.step (fun _ _ => True)
      (Label.loggingIn ++ Label.asking ++ Label.asking ++ Label.iteration 2 (.io [] [3]) Env.failing ++ [.loop])
      (create [plain,plain])).any fun F =>
        F.phase = .ended .orderly && F.asked && F.members.any Member.awaited := by decide +kernel
  obtain ⟨F,hF,hp⟩ := (Reaches.start (plain_initial 2)).exists_follow hrun
  simp only [Bool.and_eq_true,decide_eq_true_eq,List.any_eq_true] at hp
  obtain ⟨m,hm,hw⟩ := hp.2
  rw [(h F hF hp.1.2).ended hp.1.1 m hm] at hw
  cases hw

end Fleet
end LibIrcBot
