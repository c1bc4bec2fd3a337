import LibIrcBot.System.Fleet
import LibIrcBot.System.Interest

/-! # The descriptors that `pselect` watches

A closed connection gives up its descriptor at once, but what is registered for the number
only when it is destroyed. As long as `socket` returns no number of a connection that is
still in memory, and none that an `fd_set` has no place for, the connections of all servers
are watched for what they wait for.
-/
namespace LibIrcBot
open CString Effects Relation Outcome Transitions

theorem Part.Serves.attends {part : Part} (hp : part.Serves) {w w' : World} (h : Inv w) (ht : Tracked w)
    (hi : w.Interested) (ha : w.Apart) (hs : part.run w = .ok w') : w.Attends w' part.socket := by
  cases part with
  | shutdown => exact shutdown_attends h ht hi hs _
  | skip =>
    cases hs
    exact (World.Attends.refl hi _).behind rfl rfl rfl rfl rfl
  | step l =>
    replace hs : World.step l w = .ok w' := hs
    cases l with
    | startup env =>
      cases hs
      exact startup_attends hi env
    | next env => exact next_attends h ht hi ha hs
    | loop => exact hp.elim
    | select ready => exact hp.elim
    | _ =>
      refine call_attends h ht hi ?_ ?_ hs _
      · trivial
      · simp

namespace Fleet

def Closed (F : Fleet) (fd : ℤ) : Prop :=
  ∀ m ∈ F.members, ∀ c < m.world.nconns, (m.world.conns c).deleteScheduled = 0 → (m.world.conns c).fd ≠ fd

/-- No connection in memory has the descriptor, open or closed. -/
def Unused (F : Fleet) (fd : ℤ) : Prop :=
  ∀ m ∈ F.members, ∀ c < m.world.nconns, (m.world.conns c).deleteScheduled ≠ 2 → (m.world.conns c).fd ≠ fd

/-- The number of descriptors in an `fd_set`; the service does not compare with it. -/
def FD_SETSIZE : ℤ := 1024

/-- `socket` returns a descriptor that is closed, as the system promises, and that fits into an `fd_set`. -/
def Label.Possible (l : Fleet.Label) (F : Fleet) : Prop := ∀ fd ∈ l.socket, (0 ≤ fd ∧ fd < FD_SETSIZE) ∧ F.Closed fd

/-- `socket` returns no descriptor of a connection that is closed, but not yet destroyed. -/
def Label.Unshared (l : Fleet.Label) (F : Fleet) : Prop := ∀ fd ∈ l.socket, (0 ≤ fd ∧ fd < FD_SETSIZE) ∧ F.Unused fd

instance (F : Fleet) (fd : ℤ) : Decidable (F.Closed fd) :=
  inferInstanceAs (Decidable (∀ m ∈ F.members, ∀ c < m.world.nconns, _ → _))

instance (F : Fleet) (fd : ℤ) : Decidable (F.Unused fd) :=
  inferInstanceAs (Decidable (∀ m ∈ F.members, ∀ c < m.world.nconns, _ → _))

instance (l : Fleet.Label) (F : Fleet) : Decidable (l.Possible F) :=
  inferInstanceAs (Decidable (∀ fd ∈ l.socket, _ ∧ F.Closed fd))

instance (l : Fleet.Label) (F : Fleet) : Decidable (l.Unshared F) :=
  inferInstanceAs (Decidable (∀ fd ∈ l.socket, _ ∧ F.Unused fd))

def Watches (F : Fleet) : Prop := ∀ m ∈ F.members, ∀ c < m.world.nconns,
  (m.world.conns c).deleteScheduled = 0 → (m.world.conns c).Interest F.readfds F.writefds

/-- The connections in memory have different descriptors, and those of the servers are watched. -/
structure Tuned (F : Fleet) : Prop extends F.Sound where
  apart : ∀ {i j : ℕ} {m n : Member} {c d : ConnId}, F.members[i]? = some m → F.members[j]? = some n →
    m.world.Extant c → n.world.Extant d → (m.world.conns c).fd = (n.world.conns d).fd → i = j ∧ c = d
  interested : ∀ m ∈ F.members, (F.view m.world).Interested

namespace Tuned
variable {F F' : Fleet}

theorem initial (h : F.Initial) : F.Tuned where
  toSound := .initial h
  apart := fun {i} _ {m} _ {c} _ hm _ hc _ _ => by
    have hlt := hc.created
    rw [(h.members m (List.mem_of_getElem? hm)).nconns] at hlt
    cases hlt
  interested := fun m hm c hc => by
    change m.world.server.conn = some c at hc
    rw [(h.members m hm).conn] at hc
    cases hc

theorem watches (h : F.Tuned) : F.Watches := by
  intro m hm c hlt hd
  exact h.interested m hm c (((h.tracked m hm).opened c).mp (World.stage_opened.mpr ⟨hlt,hd⟩))

theorem shifted (h : F.Tuned) (hs : F.Shifted F') : F'.Tuned := by
  have hsound : F'.Sound :=
    ⟨hs.forall (fun _ _ _ h => { h with }) h.inv,hs.forall (fun _ _ _ h => { h with }) h.tracked⟩
  obtain ⟨⟨g,hg,hm⟩,hr,hw⟩ := hs
  have hworld : ∀ m, (g m).world.conns = m.world.conns ∧ (g m).world.nconns = m.world.nconns ∧
      (g m).world.server = m.world.server := by
    intro m
    obtain ⟨_,_,hw⟩ := (hg m).world
    rw [hw]
    exact ⟨rfl,rfl,rfl⟩
  refine ⟨hsound,fun {i j m n c d} hi hj hc hd hfd => ?_,fun m' hm' => ?_⟩
  · rw [hm,List.getElem?_map] at hi hj
    obtain ⟨m,hm,rfl⟩ := Option.map_eq_some_iff.mp hi
    obtain ⟨n,hn,rfl⟩ := Option.map_eq_some_iff.mp hj
    rw [(hworld m).1,(hworld n).1] at hfd
    refine h.apart hm hn (hc.of_eq (hworld m).2.1.symm ?_) (hd.of_eq (hworld n).2.1.symm ?_) hfd
    · rw [(hworld m).1]
    · rw [(hworld n).1]
  · rw [hm] at hm'
    obtain ⟨m,hmem,rfl⟩ := List.mem_map.mp hm'
    refine (h.interested m hmem).of_eq ?_ (hworld m).1 hr hw
    change (g m).world.server.conn = m.world.server.conn
    rw [(hworld m).2.2]

section Acts
variable {i : ℕ} {m : Member} {part : Part} {w : World}

/-- The member of an index behind a part. -/
theorem member_cases (ha : F.Acts F' i m part w) {j : ℕ} {n : Member} (hj : F'.members[j]? = some n) :
    (j = i ∧ n = { m with world := w }) ∨ (j ≠ i ∧ F.members[j]? = some n) := by
  rw [ha.members,List.getElem?_set] at hj
  split at hj
  · next he =>
    split at hj
    · exact Or.inl ⟨he.symm,(Option.some.inj hj).symm⟩
    · cases hj
  · next hne => exact Or.inr ⟨fun he => hne he.symm,hj⟩

/-- A connection in memory was there before, or is the new one of the server. -/
theorem extant_cases (ha : F.Acts F' i m part w) (hatt : (F.view m.world).Attends w part.socket) {j : ℕ} {n : Member}
    (hj : F'.members[j]? = some n) {c : ConnId} (hc : n.world.Extant c) :
    (∃ n', F.members[j]? = some n' ∧ n'.world.Extant c ∧ (n'.world.conns c).fd = (n.world.conns c).fd) ∨
      (j = i ∧ w.server.conn = some c ∧ (n.world.conns c).fd ∈ part.socket) := by
  rcases member_cases ha hj with ⟨rfl,rfl⟩ | ⟨_,hj⟩
  · rcases hatt.extant c hc with ⟨he,hfd⟩ | ⟨hfd,hconn⟩
    · exact Or.inl ⟨m,ha.member,⟨he.created,he.kept⟩,hfd.symm⟩
    · exact Or.inr ⟨rfl,hconn,hfd⟩
  · exact Or.inl ⟨n,hj,hc,rfl⟩

theorem acts (h : F.Tuned) (ha : F.Acts F' i m part w) (hf : ∀ fd ∈ part.socket, F.Unused fd) : F'.Tuned := by
  have hmem := List.mem_of_getElem? ha.member
  have hatt : (F.view m.world).Attends w part.socket := by
    refine ha.serves.attends (view_inv (h.inv m hmem)) (view_tracked (h.tracked m hmem)) (h.interested m hmem) ?_ ha.run
    exact fun c d hc hd hfd => (h.apart ha.member ha.member ⟨hc.created,hc.kept⟩ ⟨hd.created,hd.kept⟩ hfd).2
  have hunused : ∀ {j : ℕ} {n : Member} {c : ConnId}, F.members[j]? = some n → n.world.Extant c →
      (n.world.conns c).fd ∉ part.socket :=
    fun hj hc hs => hf _ hs _ (List.mem_of_getElem? hj) _ hc.created hc.kept rfl
  refine ⟨h.toSound.acts ha,fun {j k n o c d} hj hk hc hd hfd => ?_,fun n hn => ?_⟩
  · rcases extant_cases ha hatt hj hc with ⟨n',hj',hc',hcfd⟩ | ⟨rfl,hcc,hcs⟩ <;>
      rcases extant_cases ha hatt hk hd with ⟨o',hk',hd',hdfd⟩ | ⟨rfl,hdc,hds⟩
    · exact h.apart hj' hk' hc' hd' (hcfd.trans (hfd.trans hdfd.symm))
    · rw [← hfd,← hcfd] at hds
      exact absurd hds (hunused hj' hc')
    · rw [hfd,← hdfd] at hcs
      exact absurd hcs (hunused hk' hd')
    · exact ⟨rfl,Option.some.inj (hcc.symm.trans hdc)⟩
  · obtain ⟨phase,hF⟩ := ha.result
    obtain ⟨j,hj⟩ := List.getElem?_of_mem hn
    rcases member_cases ha hj with ⟨rfl,rfl⟩ | ⟨hne,hj⟩
    · refine hatt.interested.of_eq rfl rfl ?_ ?_ <;> rw [hF] <;> rfl
    · -- What the other servers have registered stays.
      intro c hc
      have ht := h.tracked n (List.mem_of_getElem? hj)
      have hext : n.world.Extant c := ht.extant_own hc
      have hbits := hatt.bits (n.world.conns c).fd (fun d hd hfd => ?_) (hunused hj hext)
      · refine (h.interested n (List.mem_of_getElem? hj) c hc).of_eq rfl rfl rfl rfl ?_ ?_
        · rw [hF]
          exact hbits.1
        · rw [hF]
          exact hbits.2
      · exact hne (h.apart ha.member hj ⟨hd.created,hd.kept⟩ hext hfd).1.symm

end Acts

theorem step {l : Fleet.Label} (h : F.Tuned) (hl : l.Unshared F) (hs : Fleet.step l F = .ok F') : F'.Tuned := by
  rcases step_cases hs with hs | ⟨i,m,part,w,ha,hsock⟩
  · exact h.shifted hs
  · exact h.acts ha fun fd hfd => (hl fd (hsock ▸ hfd)).2

end Tuned

/-- While `socket` returns no descriptor of a connection that is still to be destroyed, and none
outside of an `fd_set`, every call of `pselect` watches all connections for what they wait for. -/
theorem watches_at_pselect {F : Fleet} (h : Reaches Fleet.step Label.Unshared Initial F) :
    F.phase = .selecting → F.Watches := by
  have ht := h.invariant (I := Tuned) (fun _ hi => .initial hi) fun _ _ _ hF hl hs => hF.step hl hs
  exact fun _ => ht.watches

/-- A server connects, and `pselect` waits for the answer. -/
theorem watches_connecting : ∃ F, Reaches Fleet.step Label.Unshared Initial F ∧ F.writefds 3 = true ∧ F.Watches := by
  have hrun : (follow Fleet.step Label.Unshared ([.connect { Env.failing with socket := some 3 },.started true] ++
      Label.sweep 1) (create [plain])).any fun F => F.phase = .selecting && F.writefds 3 := by decide +kernel
  obtain ⟨F,hF,hp⟩ := (Reaches.start (plain_initial 1)).exists_follow hrun
  simp only [Bool.and_eq_true,decide_eq_true_eq] at hp
  exact ⟨F,hF,hp.2,watches_at_pselect hF hp.1⟩

/-- The first server waits for its connection, on descriptor 3; the second is established, on
descriptor 4, and loses its connection. In the tick in which the first one gives up, the
second one connects again, and is given descriptor 3. -/
def Label.reusing : List Fleet.Label :=
  [.connect { Env.failing with socket := some 3 },.connect { Env.failing with socket := some 4 },.started true] ++
    iteration 2 .tick Env.failing ++ iteration 2 (.io [4] []) { Env.failing with sockErr := false } ++
    iteration 2 (.io [] [4]) Env.failing ++ (List.replicate 4 (iteration 2 .tick Env.failing)).flatten ++ sweep 2 ++
    [.select .tick,.visit 0 Env.failing,.visit 1 { Env.failing with socket := some 3 }] ++ visits 2 3 Env.failing ++
    [.proceed] ++ sweep 2

/-- The second connection of the second server is not watched at `pselect`. -/
def unwatched (F : Fleet) : Bool := F.phase = .selecting && F.members.all (fun m => !m.world.server.tls) &&
  F.members[1]?.any fun m => 1 < m.world.nconns && (m.world.conns 1).deleteScheduled = 0 &&
    (m.world.conns 1).connecting ≠ 0 && !F.writefds (m.world.conns 1).fd

theorem reused_descriptor : ¬ ∀ F, Reaches Fleet.step Label.Possible Initial F →
    (∀ m ∈ F.members, m.world.server.tls = false) → F.phase = .selecting → F.Watches := by
  intro h
  have hrun : (follow Fleet.step Label.Possible Label.reusing (create [plain,plain])).any unwatched := by decide +kernel
  obtain ⟨F,hF,hb⟩ := (Reaches.start (plain_initial 2)).exists_follow hrun
  simp only [unwatched,Bool.and_eq_true,decide_eq_true_eq,List.all_eq_true,Bool.not_eq_true',Option.any_eq_true,ne_eq] at hb
  obtain ⟨⟨hp,htls⟩,m,hm,⟨⟨hlt,hd⟩,hcon⟩,hbit⟩ := hb
  have hw := (h F hF htls hp m (List.mem_of_getElem? hm) 1 hlt hd).write (Or.inl hcon)
  rw [hbit] at hw
  cases hw

end Fleet
end LibIrcBot
