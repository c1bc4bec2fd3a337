import LibIrcBot.System.Teardown

/-! # The order of the teardown

The service is destroyed before the servers, and the events of a server before its
channels. A connection that is still there uses the events of the service, and a channel
those of its server; the teardown is safe for programs that have neither.
-/
namespace LibIrcBot
open CString Effects Relation Outcome Transitions

namespace IrcServer
variable {w : World} {i : ℕ}

/-- A server with nothing destroys its events. -/
theorem destroyTouches_bare (hc : w.server.conn = none) (hch : w.server.channels.entries = []) :
    ∀ t ∈ destroyTouches i w, t.uses = none := by
  have hnone : channelTouches i w = [] := by
    rw [channelTouches,IBHashTable.destroy,hch]
    rfl
  rw [destroyTouches,hnone,leaveTouches,hc]
  simp [Touch.uses]

/-- A connection is unregistered from the ticks of the service. -/
theorem tick_of_conn {conn : ConnId} (hc : w.server.conn = some conn) : .unregister .tick ∈ destroyTouches i w := by
  refine List.mem_append_left _ ?_
  rw [leaveTouches,hc]
  refine List.mem_append_left _ (List.mem_append_left _ (List.mem_append_right _ ?_))
  exact List.mem_append_left _ List.mem_cons_self

/-- A channel is unregistered from the messages of its server. -/
theorem msgReceived_of_channel (ho : Owned w) (hch : w.server.channels.entries ≠ []) :
    .unregister (.msgReceived i) ∈ channelTouches i w := by
  obtain ⟨e,he⟩ := List.exists_mem_of_ne_nil _ hch
  obtain ⟨b,-,hb⟩ := List.mem_flatMap.mp he
  have hcall : (Deleter.destroyIrcChannel,e.obj) ∈ w.server.channels.destroy := by
    refine List.mem_filterMap.mpr ⟨e,he,?_⟩
    rw [IBHashTableEntry.call,ho.deleter b e hb]
    rfl
  refine List.mem_flatMap.mpr ⟨_,hcall,List.mem_append_left _ ?_⟩
  exact List.mem_map.mpr ⟨.MSG_JOIN,by decide,rfl⟩

end IrcServer

namespace Fleet
variable {F : Fleet}

/-- The teardown of servers that have neither connections nor channels is safe. -/
theorem teardown_of_bare (jobs : List ℕ) (alive : EventRef → Bool)
    (h : ∀ m ∈ F.members, m.world.server.conn = none ∧ m.world.server.channels.entries = []) :
    Touch.safe alive (teardown jobs F) := by
  refine Touch.safe_of_destroys fun t ht => ?_
  rcases List.mem_append.mp ht with ht | ht
  · rcases List.mem_append.mp ht with ht | ht
    · obtain ⟨job,-,rfl⟩ := List.mem_map.mp ht
      rfl
    · exact (by decide : ∀ t ∈ Service.doneTouches, t.uses = none) t ht
  · obtain ⟨m,hm,ht⟩ := List.mem_flatMap.mp ht
    obtain ⟨hc,hch⟩ := h m.1 (List.fst_mem_of_mem_zipIdx hm)
    exact IrcServer.destroyTouches_bare hc hch t ht

theorem unsafe_of_conn (jobs : List ℕ) (alive : EventRef → Bool) {m : Member} {i : ℕ} (hm : (m,i) ∈ F.members.zipIdx)
    {conn : ConnId} (hc : m.world.server.conn = some conn) : Touch.safe alive (teardown jobs F) = false := by
  refine Touch.unsafe_append (t := .unregister .tick) (List.mem_append_right _ (by decide)) rfl ?_
  exact List.mem_flatMap.mpr ⟨_,hm,IrcServer.tick_of_conn hc⟩

theorem unsafe_of_channel (jobs : List ℕ) (alive : EventRef → Bool) {m : Member} {i : ℕ} (hm : (m,i) ∈ F.members.zipIdx)
    (ho : Owned m.world) (hch : m.world.server.channels.entries ≠ []) :
    Touch.safe alive (teardown jobs F) = false := by
  -- The server of the channel destroys its events first.
  obtain ⟨before,behind,hsplit⟩ := List.append_of_mem hm
  have hservers : serverTouches F.members.zipIdx = (serverTouches before ++ IrcServer.leaveTouches i m.world) ++
      (IrcServer.channelTouches i m.world ++ serverTouches behind) := by
    rw [hsplit,serverTouches,List.flatMap_append,List.flatMap_cons]
    simp [serverTouches,IrcServer.destroyTouches,List.append_assoc]
  rw [teardown,hservers,← List.append_assoc]
  refine Touch.unsafe_append (e := .msgReceived i) ?_ rfl (List.mem_append_left _ (IrcServer.msgReceived_of_channel ho hch))
  refine List.mem_append_right _ (List.mem_append_right _ (List.mem_append_right _ ?_))
  simp

/-- When `Service_run` has returned, the teardown uses no destroyed event if and only if no
server has a connection or a channel. -/
theorem teardown_safe (h : F.Reachable) {ending : Ending} (_ : F.phase = .ended ending) (jobs : List ℕ) :
    Touch.safe (F.alive jobs) (teardown jobs F) ↔
      ∀ m ∈ F.members, m.world.server.conn = none ∧ m.world.server.channels.entries = [] := by
  constructor
  · intro hs m hm
    obtain ⟨i,hi⟩ := List.getElem?_of_mem hm
    have hmem : (m,i) ∈ F.members.zipIdx := List.mem_zipIdx_iff_getElem?.mpr hi
    have ho : Owned m.world := induct (I := Owned) (fun _ hi => .initial hi) (fun _ _ _ ho ha => ho.action ha) h m hm
    constructor
    · cases hc : m.world.server.conn with
      | none => rfl
      | some conn =>
        rw [unsafe_of_conn jobs _ hmem hc] at hs
        cases hs
    · by_contra hch
      rw [unsafe_of_channel jobs _ hmem ho hch] at hs
      cases hs
  · exact teardown_of_bare jobs _

/-- The application joins a channel before the server is connected, and termination is
requested: the server is closed, and the loop ends. -/
def Label.terminating : List Fleet.Label :=
  [.connect { Env.failing with socket := some 3 },.started true,.call 0 (.join (lit "#c"))] ++ sweep 1 ++
    [.select .shutdown,.stop,.stop,.loop]

/-- The same without a channel. -/
def Label.leaving : List Fleet.Label :=
  [.connect { Env.failing with socket := some 3 },.started true] ++ sweep 1 ++ [.select .shutdown,.stop,.stop,.loop]

theorem teardown_safe_leaving : ∃ F : Fleet, F.Reachable ∧ F.phase = .ended .orderly ∧
    Touch.safe (F.alive [0]) (teardown [0] F) := by
  have hrun : (follow Fleet.step (fun _ _ => True) Label.leaving (create [plain])).any fun F =>
      F.phase = .ended .orderly && F.members.all fun m =>
        m.world.server.conn = none && m.world.server.channels.entries = [] := by decide +kernel
  obtain ⟨F,hF,hp⟩ := (Reaches.start (plain_initial 1)).exists_follow hrun
  simp only [Bool.and_eq_true,decide_eq_true_eq,List.all_eq_true] at hp
  exact ⟨F,hF,hp.1,(teardown_safe hF hp.1 [0]).mpr hp.2⟩

theorem teardown_channel : ¬ ∀ F : Fleet, F.Reachable → ∀ ending, F.phase = .ended ending → ∀ jobs,
    Touch.safe (F.alive jobs) (teardown jobs F) := by
  intro h
  have hrun : (follow Fleet.step (fun _ _ => True) Label.terminating (create [plain])).any fun F =>
      F.phase = .ended .orderly && !Touch.safe (F.alive []) (teardown [] F) := by decide +kernel
  obtain ⟨F,hF,hp⟩ := (Reaches.start (plain_initial 1)).exists_follow hrun
  simp only [Bool.and_eq_true,decide_eq_true_eq,Bool.not_eq_true'] at hp
  have hs := h F hF _ hp.1 []
  rw [hp.2] at hs
  cases hs

end Fleet
end LibIrcBot
